import PartitionStore.Proofs.Action

/-!
# `PartitionStore.Proofs.Respects`: actions that go by what a relation keeps

An action *respects* a relation between states if from related states it gives the same answer and
leaves related states again. Whatever two related states differ in, the action neither tells nor
makes anything of it. Actions that are put together from such actions are of that kind as well, so
all that is to be looked at are the single operations at the bottom.
-/

set_option autoImplicit false

namespace PartitionStore.Action

variable {ε σ α β : Type} {R : σ → σ → Prop}

/-- From related states the action gives the same answer and leaves related states. -/
def Respects (R : σ → σ → Prop) (x : EStateM ε σ α) : Prop :=
  ∀ s s', R s s' → answer (x s') = answer (x s) ∧ R (after (x s)) (after (x s'))

/-- The two runs succeed with the same answer, or fail with the same error. -/
theorem Respects.cases {x : EStateM ε σ α} (h : Respects R x) {s s' : σ} (hs : R s s') :
    (∃ a u u', x s = .ok a u ∧ x s' = .ok a u' ∧ R u u') ∨
      ∃ e u u', x s = .error e u ∧ x s' = .error e u' ∧ R u u' := by
  obtain ⟨hanswer, hafter⟩ := h s s' hs
  cases hx : x s with
  | ok a u =>
      cases hx' : x s' with
      | ok b u' =>
          rw [hx, hx'] at hanswer hafter
          cases hanswer
          exact .inl ⟨a, u, u', rfl, rfl, hafter⟩
      | error e u' =>
          rw [hx, hx'] at hanswer
          cases hanswer
  | error e u =>
      cases hx' : x s' with
      | ok b u' =>
          rw [hx, hx'] at hanswer
          cases hanswer
      | error e' u' =>
          rw [hx, hx'] at hanswer hafter
          cases hanswer
          exact .inr ⟨e, u, u', rfl, rfl, hafter⟩

/-- To answer changes no state. -/
theorem respects_pure (R : σ → σ → Prop) (a : α) : Respects R (pure a : EStateM ε σ α) :=
  fun _ _ hs => ⟨rfl, hs⟩

/-- To fail changes no state. -/
theorem respects_throw (R : σ → σ → Prop) (e : ε) : Respects R (throw e : EStateM ε σ α) :=
  fun _ _ hs => ⟨rfl, hs⟩

/-- What follows has to respect the relation for the answers that there are. -/
theorem Respects.bind_of {x : EStateM ε σ α} {f : α → EStateM ε σ β} (hx : Respects R x)
    (hf : ∀ s a s', x s = .ok a s' → Respects R (f a)) : Respects R (x >>= f) := by
  intro s s' hs
  rcases hx.cases hs with ⟨a, u, u', h, h', hu⟩ | ⟨e, u, u', h, h', hu⟩
  · rw [bind_of_ok h, bind_of_ok h']
    exact hf s a u h u u' hu
  · rw [bind_of_error h, bind_of_error h']
    exact ⟨rfl, hu⟩

/-- Two actions that respect the relation do so one after the other: the first one gives the same
answer in both states, so that it is followed by the same. -/
theorem Respects.bind {x : EStateM ε σ α} {f : α → EStateM ε σ β} (hx : Respects R x)
    (hf : ∀ a, Respects R (f a)) : Respects R (x >>= f) :=
  hx.bind_of fun _ a _ _ => hf a

/-- An action that goes on with what it reads off the state reads the same off both. -/
theorem respects_get_bind {f : σ → EStateM ε σ α} (hsame : ∀ s s', R s s' → f s' = f s)
    (hf : ∀ s, Respects R (f s)) : Respects R ((get : EStateM ε σ σ) >>= f) := by
  intro s s' hs
  rw [bind_of_ok (get_apply s), bind_of_ok (get_apply s'), hsame s s' hs]
  exact hf s s s' hs

/-- A choice that does not look at the state respects the relation if both sides do. -/
theorem respects_ite {c : Prop} [Decidable c] {x y : EStateM ε σ α} (hx : Respects R x)
    (hy : Respects R y) : Respects R (if c then x else y) := by
  split
  · exact hx
  · exact hy

/-- An action that is refused, or else goes on. -/
theorem respects_refuse {c : Prop} [Decidable c] {e : ε} {x : EStateM ε σ α} (hx : Respects R x) :
    Respects R (if c then throw e >>= fun _ : Unit => x else x) :=
  respects_ite ((respects_throw R e).bind fun _ => hx) hx

/-- So does a round through items if each of them does, by induction on the items. -/
theorem respects_forM {ι : Type} {f : ι → EStateM ε σ Unit} {items : List ι}
    (h : ∀ i ∈ items, Respects R (f i)) : Respects R (items.forM f) := by
  induction items with
  | nil => exact respects_pure R ()
  | cons i rest ih =>
      rw [List.forall_mem_cons] at h
      exact h.1.bind fun _ => ih h.2

end PartitionStore.Action

namespace PartitionStore

open PartitionStore.Action

/-- Two results that are related states, or the same error. -/
inductive Agree {ε σ : Type} (R : σ → σ → Prop) : Except ε σ → Except ε σ → Prop
  | ok {s s' : σ} (h : R s s') : Agree R (.ok s) (.ok s')
  | error (e : ε) : Agree R (.error e) (.error e)

namespace Agree

variable {ε σ α : Type} {R : σ → σ → Prop}

/-- Changes that agree both succeed, in related states, or fail with the same error. -/
theorem cases {x y : Except ε σ} (h : Agree R x y) :
    (∃ s s', x = .ok s ∧ y = .ok s' ∧ R s s') ∨ ∃ e, x = .error e ∧ y = .error e := by
  cases h with
  | ok h => exact .inl ⟨_, _, rfl, rfl, h⟩
  | error e => exact .inr ⟨e, rfl, rfl⟩

/-- Results that go on from the same agree if what follows does. -/
theorem bind {x : Except ε α} {f g : α → Except ε σ} (h : ∀ a, x = .ok a → Agree R (f a) (g a)) :
    Agree R (x >>= f) (x >>= g) := by
  cases x with
  | ok a => exact h a rfl
  | error e => exact .error e

end Agree

variable {α : Type} {R : FileTree → FileTree → Prop}

/-- A question with the same answer in related trees respects the relation. -/
theorem Files.respects_ask {question : FileTree → Except IoError α}
    (h : ∀ t u, R t u → question u = question t) : Respects R (Files.ask question) := by
  intro t u hs
  rw [Files.ask, Files.ask, h t u hs]
  cases question t <;> exact ⟨rfl, hs⟩

/-- A change that agrees on related trees respects the relation. -/
theorem Files.respects_change {step : FileTree → Except IoError FileTree}
    (h : ∀ t u, R t u → Agree R (step t) (step u)) : Respects R (Files.change step) := by
  intro t u hs
  rcases (h t u hs).cases with ⟨t', u', ht, hu, h'⟩ | ⟨e, ht, hu⟩
  · rw [change_of_ok ht, change_of_ok hu]
    exact ⟨rfl, h'⟩
  · rw [change_of_error ht, change_of_error hu]
    exact ⟨rfl, hs⟩

/-- What a failure means to the store depends on the failure alone. -/
theorem StoreAction.respects_ofFiles {meaning : IoError → StoreError} {action : Files α}
    (h : Respects R action) : Respects R (StoreAction.ofFiles meaning action) := by
  intro t u hs
  rcases h.cases hs with ⟨a, v, v', hx, hx', hv⟩ | ⟨e, v, v', hx, hx', hv⟩
  · rw [ofFiles_of_ok hx, ofFiles_of_ok hx']
    exact ⟨rfl, hv⟩
  · rw [ofFiles_of_error hx, ofFiles_of_error hx']
    exact ⟨rfl, hv⟩

/-- The same for failures that are told as they are. -/
theorem StoreAction.respects_io {action : Files α} (h : Respects R action) :
    Respects R (StoreAction.io action) := respects_ofFiles h

/-- The same for failures that are told as those of an initialization. -/
theorem StoreAction.respects_during {step : InitializationStep} {action : StoreAction α}
    (h : Respects R action) : Respects R (StoreAction.during step action) := by
  intro t u hs
  rcases h.cases hs with ⟨a, v, v', hx, hx', hv⟩ | ⟨e, v, v', hx, hx', hv⟩
  · simp only [StoreAction.during, hx, hx']
    exact ⟨rfl, hv⟩
  · cases e <;>
      · simp only [StoreAction.during, hx, hx']
        exact ⟨rfl, hv⟩

end PartitionStore
