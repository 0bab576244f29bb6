import PartitionStore.Proofs.FileTree.Existing

/-!
# `PartitionStore.Proofs.FileTree.Passage`: walks through symbolic links

Where links may be anywhere, what a walk comes to hangs on how many of them it may follow. A
walk that succeeds does so with any more of them, and leads to the same spot
(`walkWithin_mono`, `walkWithin_unique`). `Passage` says of a walk to a directory how many it has
left when it arrives, which is what any walk that goes on from there has
(`Passage.walkWithin_append`).

Links are also why a change in one directory can reach far. A walk is the same in two trees if it
goes nowhere where they differ, or gets nowhere from there.

* `walkWithin_frame_of_dead`, `Passage.frame`: so it is if from there it would not get to its end.
* `Passage.not_of_leads`: an entry that leads to no directory is not passed.
* `walkWithin_arrives`: a walk to a place that takes a file does not hang on what is there.
-/

set_option autoImplicit false

namespace PartitionStore.FileTree

/-- The steps lead from the directory at `start` to the one at `loc`, and of the `links` symbolic
links that may be followed `left` are not. -/
inductive Passage (t : FileTree) : (links : Nat) → (start : Location) → List Step →
    (left : Nat) → (loc : Location) → Prop
  | done {links : Nat} {loc : Location} : Passage t links loc [] links loc
  | here {links left : Nat} {start loc : Location} {steps : List Step}
      (rest : Passage t links start steps left loc) :
      Passage t links start (.here :: steps) left loc
  | up {links left : Nat} {start loc : Location} {steps : List Step}
      (rest : Passage t links start.tail steps left loc) :
      Passage t links start (.up :: steps) left loc
  | down {links left : Nat} {start loc : Location} {steps : List Step} {name : String}
      (usable : isEntryName name = true) (isDir : t.node? (name :: start) = some .dir)
      (rest : Passage t links (name :: start) steps left loc) :
      Passage t links start (.down name :: steps) left loc
  | link {links left : Nat} {start loc : Location} {steps : List Step} {name : String}
      {target : Path} (usable : isEntryName name = true)
      (isLink : t.node? (name :: start) = some (.link target))
      (rest : Passage t links (if target.isAbsolute then [] else start)
        (target.demandingSteps ++ steps) left loc) :
      Passage t (links + 1) start (.down name :: steps) left loc

variable {t u : FileTree} {S : Location → Prop} {last last' : LastLink} {start loc : Location}
  {steps more : List Step} {spot spot' : Spot} {links links' left : Nat} {name : String}
  {jump jump' : Location → List Step → Except IoError Spot}

/-! ### More links -/

/-- A walk that succeeds does so with more links to follow. -/
theorem walkWithin_mono (h : t.walkWithin last links start steps = .ok spot)
    (hle : links ≤ links') : t.walkWithin last links' start steps = .ok spot := by
  induction links generalizing links' start steps with
  | zero =>
      cases links' with
      | zero => exact h
      | succ links' =>
          exact walk_frame (S := fun _ => False) (fun _ => False.elim) (fun _ _ => rfl)
            (fun _ _ h => by simp at h) h not_false
  | succ links ih =>
      cases links' with
      | zero => exact absurd hle (Nat.not_succ_le_zero links)
      | succ links' =>
          exact walk_frame (S := fun _ => False) (fun _ => False.elim) (fun _ _ => rfl)
            (fun _ _ h => ih h (Nat.le_of_succ_le_succ hle)) h not_false

/-- However many links two walks may follow, they lead to the same spot. -/
theorem walkWithin_unique (h : t.walkWithin last links start steps = .ok spot)
    (h' : t.walkWithin last links' start steps = .ok spot') : spot = spot' := by
  rcases Nat.le_total links links' with hle | hle
  · exact Except.ok.inj ((walkWithin_mono h hle).symm.trans h')
  · exact Except.ok.inj (h.symm.trans (walkWithin_mono h' hle))

/-! ### Passages -/

theorem exists_passage_of_walk (hjump : ∀ start steps, jump start steps = .ok (.occupied loc .dir) →
      ∃ fewer left, links = fewer + 1 ∧ t.Passage fewer start steps left loc)
    (h : t.walk .followed jump start steps = .ok (.occupied loc .dir)) :
    ∃ left, t.Passage links start steps left loc := by
  -- Every step of the walk is one of the passage; a link takes one of those that are left.
  induction steps generalizing start with
  | nil =>
      cases h
      exact ⟨links, .done⟩
  | cons step rest ih =>
      cases step with
      | here =>
          obtain ⟨left, hrest⟩ := ih h
          exact ⟨left, .here hrest⟩
      | up =>
          obtain ⟨left, hrest⟩ := ih h
          exact ⟨left, .up hrest⟩
      | down name =>
          obtain ⟨usable, down⟩ := walk_down_eq_ok_iff.1 h
          cases down with
          | vacant _ _ here | file _ _ here | itself _ _ here => cases here
          | dir isDir goesOn =>
              obtain ⟨left, hrest⟩ := ih goesOn
              exact ⟨left, .down usable isDir hrest⟩
          | link isLink _ _ follows =>
              obtain ⟨fewer, left, rfl, hrest⟩ := hjump _ _ follows
              exact ⟨left, .link usable isLink hrest⟩

/-- A walk that leads to a directory is a passage. -/
theorem exists_passage (h : t.walkWithin .followed links start steps = .ok (.occupied loc .dir)) :
    ∃ left, t.Passage links start steps left loc := by
  induction links generalizing start steps with
  | zero => exact exists_passage_of_walk (fun _ _ h => by simp at h) h
  | succ links ih =>
      refine exists_passage_of_walk (fun start steps h => ?_) h
      obtain ⟨left, hrest⟩ := ih h
      exact ⟨links, left, rfl, hrest⟩

namespace Passage

/-- A passage leads to its end. -/
theorem walkWithin (h : t.Passage links start steps left loc) :
    t.walkWithin .followed links start steps = .ok (.occupied loc .dir) := by
  induction h with
  | @done links loc => cases links <;> rfl
  | @here links _ _ _ _ _ ih => cases links <;> exact ih
  | @up links _ _ _ _ _ ih => cases links <;> exact ih
  | @down links _ _ _ _ name usable isDir _ ih =>
      cases links <;> simpa [FileTree.walkWithin, walk, usable, isDir] using ih
  | @link links _ _ _ _ name target usable isLink _ ih =>
      simpa [FileTree.walkWithin, walk, usable, isLink] using ih

/-- A walk goes on from where a passage ends, with the links that are left. -/
theorem walkWithin_append (h : t.Passage links start steps left loc) (hmore : more ≠ [])
    (last : LastLink) :
    t.walkWithin last links start (steps ++ more) = t.walkWithin last left loc more := by
  induction h with
  | done => rfl
  | @here links _ _ _ _ _ ih => cases links <;> exact ih
  | @up links _ _ _ _ _ ih => cases links <;> exact ih
  | @down links _ _ _ _ name usable isDir _ ih =>
      cases links <;> simpa [FileTree.walkWithin, walk, usable, isDir] using ih
  | @link links _ _ _ _ name target usable isLink _ ih =>
      simpa [FileTree.walkWithin, walk, usable, isLink, hmore] using ih

/-- A passage is the same in a tree that differs where it does not pass. -/
theorem frame (same : ∀ l, ¬S l → u.node? l = t.node? l)
    (dead : ∀ links start name rest left, S (name :: start) →
      ¬t.Passage links start (.down name :: rest) left loc)
    (h : t.Passage links start steps left loc) : u.Passage links start steps left loc := by
  induction h with
  | done => exact .done
  | here _ ih => exact .here (ih dead)
  | up _ ih => exact .up (ih dead)
  | @down _ _ start _ _ name usable isDir rest ih =>
      by_cases hS : S (name :: start)
      · exact absurd (.down usable isDir rest) (dead _ _ _ _ _ hS)
      · exact .down usable ((same _ hS).trans isDir) (ih dead)
  | @link _ _ start _ _ name _ usable isLink rest ih =>
      by_cases hS : S (name :: start)
      · exact absurd (.link usable isLink rest) (dead _ _ _ _ _ hS)
      · exact .link usable ((same _ hS).trans isLink) (ih dead)

/-- Where a place takes a file nothing passes. -/
theorem not_of_takesFile (free : t.TakesFile (name :: start)) :
    ¬t.Passage links start (.down name :: steps) left loc := by
  intro passage
  cases passage with
  | down _ isDir _ => exact free.ne_dir isDir
  | link _ isLink _ => exact free.ne_link _ isLink

/-- An entry that leads to no directory is not passed. -/
theorem not_of_leads (h : t.walkWithin .followed links' start [.down name] = .ok spot)
    (hspot : ∀ loc, spot ≠ .occupied loc .dir) :
    ¬t.Passage links start (.down name :: steps) left loc := by
  intro passage
  cases passage with
  | down usable isDir rest =>
      rw [walkWithin_down usable (by simp [isDir]), isDir] at h
      exact hspot _ (Except.ok.inj h).symm
  | @link _ _ _ _ _ _ target usable isLink rest =>
      -- What the link leads to is what the entry leads to, and the passage goes on from there.
      cases links' with
      | zero => simp [FileTree.walkWithin, walk, usable, isLink] at h
      | succ links' =>
          simp only [FileTree.walkWithin, walk, usable, isLink, Bool.true_eq_false, if_false,
            reduceCtorEq, and_false, false_and, List.append_nil] at h
          by_cases hsteps : steps = []
          · rw [hsteps, List.append_nil] at rest
            exact hspot _ (walkWithin_unique h rest.walkWithin)
          · obtain ⟨loc', hfront⟩ := exists_walkWithin_of_append hsteps rest.walkWithin
            exact hspot _ (walkWithin_unique h hfront)

end Passage

/-! ### Places where nothing hangs on the tree -/

/-- A walk leads to the same spot where the tree differs only at places from which no walk leads
to it. -/
theorem walkWithin_frame_of_dead
    (dead : ∀ fewer start name rest, fewer ≤ links → S (name :: start) →
      t.walkWithin last fewer start (.down name :: rest) ≠ .ok spot)
    (same : ∀ l, ¬S l → u.node? l = t.node? l)
    (h : t.walkWithin last links start steps = .ok spot) :
    u.walkWithin last links start steps = .ok spot := by
  induction links generalizing start steps with
  | zero =>
      exact walk_frame_of_dead (fun start name rest hS => dead 0 start name rest (Nat.le_refl 0) hS)
        same (fun _ _ h => by simp at h) h
  | succ links ih =>
      refine walk_frame_of_dead (fun start name rest hS => dead _ start name rest (Nat.le_refl _) hS)
        same (fun _ _ h => ih (fun fewer start name rest hle hS => ?_) h) h
      exact dead fewer start name rest (Nat.le_succ_of_le hle) hS

/-- Where a place takes a file a walk ends, if it gets there. -/
theorem walk_of_takesFile (free : t.TakesFile (name :: start)) (usable : isEntryName name = true) :
    ∃ spot, t.walk last jump start [.down name] = .ok spot ∧ spot.loc = name :: start := by
  rcases free with hnone | ⟨data, hfile⟩
  · exact ⟨.vacant start name, by simp [walk, usable, hnone], rfl⟩
  · exact ⟨.occupied (name :: start) (.file data), by simp [walk, usable, hfile], rfl⟩

theorem walk_arrives {w : Location} (beside : Beside w t u) (hlast : last ≠ .itself)
    (hjump : ∀ start steps, jump start steps = .ok spot →
      ∃ spot', jump' start steps = .ok spot' ∧ spot'.loc = w)
    (hspot : spot.loc = w) (h : t.walk last jump start steps = .ok spot) :
    ∃ spot', u.walk .followed jump' start steps = .ok spot' ∧ spot'.loc = w := by
  induction steps generalizing start with
  | nil => exact ⟨spot, h, hspot⟩
  | cons step rest ih =>
      cases step with
      | here => exact ih h
      | up => exact ih h
      | down name =>
          obtain ⟨usable, down⟩ := walk_down_eq_ok_iff.1 h
          by_cases hw : name :: start = w
          · -- This is the place, so the walk is at its end.
            subst hw
            have hrest : rest = [] := by
              cases down with
              | vacant _ atEnd | file _ atEnd => exact atEnd
              | dir isDir => exact absurd isDir beside.takes.ne_dir
              | itself isLink | link isLink => exact absurd isLink (beside.takes.ne_link _)
            rw [hrest]
            exact walk_of_takesFile beside.takes' usable
          · have hsame := beside.same _ hw
            cases down with
            | vacant _ _ here | file _ _ here => exact absurd (by rw [← hspot, here]; rfl) hw
            | dir isDir goesOn =>
                obtain ⟨spot', hspot', hloc⟩ := ih goesOn
                exact ⟨spot', walk_down_eq_ok_iff.2 ⟨usable, .dir (hsame.trans isDir) hspot'⟩, hloc⟩
            | itself _ atEnd => exact absurd atEnd.2 hlast
            | link isLink _ _ follows =>
                obtain ⟨spot', hspot', hloc⟩ := hjump _ _ follows
                exact ⟨spot', walk_down_eq_ok_iff.2
                  ⟨usable, .link (hsame.trans isLink) (by simp) (by simp) hspot'⟩, hloc⟩

/-- A walk that follows links to a place that takes a file leads there, whatever is there. -/
theorem walkWithin_arrives {w : Location} (beside : Beside w t u) (hlast : last ≠ .itself)
    (h : t.walkWithin last links start steps = .ok spot) (hspot : spot.loc = w) :
    ∃ spot', u.walkWithin .followed links start steps = .ok spot' ∧ spot'.loc = w := by
  induction links generalizing start steps with
  | zero => exact walk_arrives beside hlast (fun _ _ h => by simp at h) hspot h
  | succ links ih => exact walk_arrives beside hlast (fun _ _ h => ih h) hspot h

end PartitionStore.FileTree
