import PartitionStore.StoreAction

/-!
# `PartitionStore.Proofs.Action`: running actions step by step

Actions on a file tree, a host or an engine are all functions from a state to
an answer and a state. A sequence of two goes on from where the first one
succeeded (`bind_of_ok`), ends where it failed (`bind_of_error`), and succeeds
in no other way (`bind_eq_ok_iff`). Two that answer the same at each step answer the
same in the end (`answer_bind_congr`).
-/

set_option autoImplicit false

namespace PartitionStore.Action

variable {ε σ α β : Type}

/-- What only answers leaves the state as it is. -/
@[simp] theorem pure_apply (a : α) (s : σ) : (pure a : EStateM ε σ α) s = .ok a s := rfl

/-- The state is the answer, and stays. -/
@[simp] theorem get_apply (s : σ) : (get : EStateM ε σ σ) s = .ok s s := rfl

/-- Where the first action succeeds, the second one runs on its answer and from its state. -/
theorem bind_of_ok {x : EStateM ε σ α} {f : α → EStateM ε σ β} {s s' : σ} {a : α}
    (h : x s = .ok a s') : (x >>= f) s = f a s' := by
  show (match x s with | .ok a s => f a s | .error e s => .error e s) = _
  rw [h]

/-- Where the first action fails there is no second one, and the state is that of the failure. -/
theorem bind_of_error {x : EStateM ε σ α} {f : α → EStateM ε σ β} {s s' : σ} {e : ε}
    (h : x s = .error e s') : (x >>= f) s = .error e s' := by
  show (match x s with | .ok a s => f a s | .error e s => .error e s) = _
  rw [h]

/-- Two actions that come to the same are followed by the same. -/
theorem bind_congr {x y : EStateM ε σ α} {f : α → EStateM ε σ β} {s t : σ} (h : x s = y t) :
    (x >>= f) s = (y >>= f) t := by
  show (match x s with | .ok a s => f a s | .error e s => .error e s) = _
  rw [h]
  rfl

/-- Two actions succeed exactly if the first one does, and the second one from where it ended. -/
theorem bind_eq_ok_iff {x : EStateM ε σ α} {f : α → EStateM ε σ β} {s s'' : σ} {b : β} :
    (x >>= f) s = .ok b s'' ↔ ∃ a s', x s = .ok a s' ∧ f a s' = .ok b s'' := by
  cases h : x s with
  | ok a s' =>
      rw [bind_of_ok h]
      constructor
      · intro hf
        exact ⟨a, s', rfl, hf⟩
      · rintro ⟨a', s₁, e, hf⟩
        cases e
        exact hf
  | error e s' =>
      rw [bind_of_error h]
      simp

/-- Two actions fail exactly if the first one does, or the second one from where the first ended. -/
theorem bind_eq_error_iff {x : EStateM ε σ α} {f : α → EStateM ε σ β} {s s'' : σ} {e : ε} :
    (x >>= f) s = .error e s'' ↔
      x s = .error e s'' ∨ ∃ a s', x s = .ok a s' ∧ f a s' = .error e s'' := by
  cases h : x s with
  | ok a s' =>
      rw [bind_of_ok h]
      constructor
      · intro hf
        exact .inr ⟨a, s', rfl, hf⟩
      · rintro (hx | ⟨a', s₁, e, hf⟩)
        · cases hx
        · cases e
          exact hf
  | error e' s' =>
      rw [bind_of_error h]
      simp

/-- Where nothing fails nothing is recovered from. -/
theorem tryCatch_of_ok {x : EStateM ε σ α} {recover : ε → EStateM ε σ α} {s s' : σ} {a : α}
    (h : x s = .ok a s') : (tryCatch x recover) s = .ok a s' := by
  show EStateM.tryCatch x recover s = _
  delta EStateM.tryCatch
  rw [h]

/-- Where an action fails, what is to be done then goes on from the state that it left. -/
theorem tryCatch_of_error {x : EStateM ε σ α} {recover : ε → EStateM ε σ α} {s s' : σ} {e : ε}
    (h : x s = .error e s') : (tryCatch x recover) s = recover e s' := by
  show EStateM.tryCatch x recover s = _
  delta EStateM.tryCatch
  rw [h]
  rfl

/-- The state that an action leaves, whether it succeeds or not. -/
def after : EStateM.Result ε σ α → σ
  | .ok _ s => s
  | .error _ s => s

/-- What follows an action without changing the state makes no difference to what is left. -/
theorem after_bind {action : EStateM ε σ α} {next : α → EStateM ε σ β}
    (h : ∀ a s, after (next a s) = s) (s : σ) :
    after ((action >>= next) s) = after (action s) := by
  cases haction : action s with
  | ok a s' =>
      rw [bind_of_ok haction]
      exact h a s'
  | error e s' =>
      rw [bind_of_error haction]
      rfl

/-- What an action answers, whatever state it leaves. -/
def answer : EStateM.Result ε σ α → Except ε α
  | .ok a _ => .ok a
  | .error e _ => .error e

/-- Sequences answer the same if their first actions do, and what follows on success does. -/
theorem answer_bind_congr {x y : EStateM ε σ α} {f g : α → EStateM ε σ β} {s t : σ}
    (h : answer (x s) = answer (y t))
    (hnext : ∀ a s' t', x s = .ok a s' → y t = .ok a t' → answer (f a s') = answer (g a t')) :
    answer ((x >>= f) s) = answer ((y >>= g) t) := by
  cases hx : x s with
  | ok a s' =>
      cases hy : y t with
      | ok b t' =>
          rw [hx, hy] at h
          cases h
          rw [bind_of_ok hx, bind_of_ok hy]
          exact hnext a s' t' hx hy
      | error e t' =>
          rw [hx, hy] at h
          cases h
  | error e s' =>
      cases hy : y t with
      | ok b t' =>
          rw [hx, hy] at h
          cases h
      | error e' t' =>
          rw [hx, hy] at h
          cases h
          rw [bind_of_error hx, bind_of_error hy]
          rfl

/-- The action succeeds from the state, and its answer and the new state pass the check. So a run
on fixed inputs can be evaluated, and its states need not be written down. -/
def succeedsWith (x : EStateM ε σ α) (s : σ) (check : α → σ → Bool) : Bool :=
  match x s with
  | .ok a s' => check a s'
  | .error _ _ => false

/-- A run that was evaluated, and its check, give the answer and the state they are about. -/
theorem exists_of_succeedsWith {x : EStateM ε σ α} {s : σ} {check : α → σ → Bool}
    (h : succeedsWith x s check = true) : ∃ a s', x s = .ok a s' ∧ check a s' = true := by
  rw [succeedsWith] at h
  split at h
  · rename_i a s' hx
    exact ⟨a, s', hx, h⟩
  · cases h

/-- The action fails from the state, and its error and the new state pass the check. -/
def failsWith (x : EStateM ε σ α) (s : σ) (check : ε → σ → Bool) : Bool :=
  match x s with
  | .ok _ _ => false
  | .error e s' => check e s'

/-- So it is with a run that was evaluated to a failure. -/
theorem exists_of_failsWith {x : EStateM ε σ α} {s : σ} {check : ε → σ → Bool}
    (h : failsWith x s check = true) : ∃ e s', x s = .error e s' ∧ check e s' = true := by
  rw [failsWith] at h
  split at h
  · cases h
  · rename_i e s' hx
    exact ⟨e, s', hx, h⟩

end PartitionStore.Action

namespace PartitionStore

variable {α : Type}

namespace Files

/-- What is asked of the tree leaves it as it is. -/
theorem ask_of_ok {question : FileTree → Except IoError α} {t : FileTree} {a : α}
    (h : question t = .ok a) : ask question t = .ok a t := by
  simp only [ask, h]

/-- A change that succeeds leaves the changed tree. -/
theorem change_of_ok {step : FileTree → Except IoError FileTree} {t t' : FileTree}
    (h : step t = .ok t') : change step t = .ok () t' := by
  simp only [change, h]

/-- A change that fails leaves the tree of before. -/
theorem change_of_error {step : FileTree → Except IoError FileTree} {t : FileTree} {e : IoError}
    (h : step t = .error e) : change step t = .error e t := by
  simp only [change, h]

/-- There is no other way for a change to succeed. -/
theorem change_eq_ok_iff {step : FileTree → Except IoError FileTree} {t t' : FileTree} :
    change step t = .ok () t' ↔ step t = .ok t' := by
  cases h : step t with
  | ok u => simp [change_of_ok h]
  | error e => simp [change_of_error h]

/-- There is no other tree that a failed change could leave. -/
theorem eq_of_change_error {step : FileTree → Except IoError FileTree} {t t' : FileTree}
    {e : IoError} (h : change step t = .error e t') : t' = t := by
  cases hstep : step t with
  | ok u => cases (change_of_ok hstep).symm.trans h
  | error cause =>
      cases (change_of_error hstep).symm.trans h
      rfl

/-! A file is replaced by writing the scratch file and moving it to its place. -/

variable {t u v : FileTree} {p scratch : Path} {data : Bytes} {e : IoError}

/-- Where nothing stops it, a file is replaced by a write and a rename. -/
theorem replace_eq (p scratch : Path) (data : Bytes) : replace p scratch data = (do
    change (·.write scratch data)
    change (·.rename scratch p)) := rfl

/-- Once the scratch file is written what remains is to move it. -/
theorem replace_of_write (h : t.write scratch data = .ok v) :
    replace p scratch data t = change (·.rename scratch p) v := by
  rw [replace_eq, Action.bind_of_ok (change_of_ok h)]

/-- Where the scratch file cannot be written nothing has changed. -/
theorem replace_of_write_error (h : t.write scratch data = .error e) :
    replace p scratch data t = .error e t := by
  rw [replace_eq, Action.bind_of_error (change_of_error h)]

/-- A file that was replaced was written beside its place and then moved there. -/
theorem exists_of_replace_ok (h : replace p scratch data t = .ok () u) :
    ∃ v, t.write scratch data = .ok v ∧ v.rename scratch p = .ok u := by
  cases hwrite : t.write scratch data with
  | error e => cases (replace_of_write_error hwrite).symm.trans h
  | ok v => exact ⟨v, rfl, change_eq_ok_iff.1 ((replace_of_write hwrite).symm.trans h)⟩

/-- Neither the writing nor the moving changes anything where it fails. -/
theorem cases_of_replace_error (h : replace p scratch data t = .error e u) :
    u = t ∨ t.write scratch data = .ok u := by
  cases hwrite : t.write scratch data with
  | error cause =>
      cases (replace_of_write_error hwrite).symm.trans h
      exact .inl rfl
  | ok v =>
      obtain rfl := eq_of_change_error ((replace_of_write hwrite).symm.trans h)
      exact .inr rfl

end Files

namespace StoreAction

/-- An action on files that succeeds does so for the store. -/
theorem ofFiles_of_ok {meaning : IoError → StoreError} {action : Files α} {t t' : FileTree} {a : α}
    (h : action t = .ok a t') : ofFiles meaning action t = .ok a t' := by
  simp only [ofFiles, h]

/-- An action on files that fails leaves its tree, and what it fails with is told as the store means
it. -/
theorem ofFiles_of_error {meaning : IoError → StoreError} {action : Files α} {t t' : FileTree}
    {e : IoError} (h : action t = .error e t') :
    ofFiles meaning action t = .error (meaning e) t' := by
  simp only [ofFiles, h]

/-- How a failure is reported makes no difference to what succeeds. -/
theorem ofFiles_eq_ok_iff {meaning : IoError → StoreError} {action : Files α} {t t' : FileTree}
    {a : α} : ofFiles meaning action t = .ok a t' ↔ action t = .ok a t' := by
  cases hrun : action t with
  | ok b u => simp [ofFiles_of_ok hrun]
  | error e u => simp [ofFiles_of_error hrun]

/-- A failure that is told as the store means it has the failure of the files for its cause. -/
theorem exists_of_ofFiles_error {meaning : IoError → StoreError} {action : Files α}
    {t t' : FileTree} {e : StoreError} (h : ofFiles meaning action t = .error e t') :
    ∃ cause, action t = .error cause t' ∧ e = meaning cause := by
  cases hrun : action t with
  | ok a u => cases (ofFiles_of_ok hrun).symm.trans h
  | error cause u =>
      cases (ofFiles_of_error hrun).symm.trans h
      exact ⟨cause, rfl, rfl⟩

/-- An action on files that succeeds does so for the store. -/
theorem io_of_ok {action : Files α} {t t' : FileTree} {a : α} (h : action t = .ok a t') :
    io action t = .ok a t' := ofFiles_of_ok h

/-- Without a meaning of its own a failure of the files is told as it is. -/
theorem io_of_error {action : Files α} {t t' : FileTree} {e : IoError}
    (h : action t = .error e t') : io action t = .error (.io e) t' := ofFiles_of_error h

end StoreAction

end PartitionStore
