import PartitionStore.Proofs.FileTree.LinkedReplacing

/-!
# `PartitionStore.Proofs.FileTree.AfterReplacing`: the entry that a replacing leaves behind

Once a file was replaced by way of a scratch file, its directory has an entry of its name: what the
scratch file was, the file that was written or a link to it. So a regular file in that place holds
what was written (`file_of_replaced`). Nothing is asked of the tree for that, not even that the two
paths do not lead to one place.

There may be links on the way to the directory, and the replacing may change what they lead to. But
the way that is there afterwards was there before (`resolveSteps_of_renamed`): what was moved leads
to a file by its new name as it did by its old one, and so to no directory
(`not_dir_through_moved`).
-/

set_option autoImplicit false

namespace PartitionStore.FileTree

variable {t u v : FileTree} {dir : Path} {loc parent : Location} {node : Node}
  {name other : String} {data data' : Bytes} {spot : Spot} {left links : Nat}

section

variable (usable : isEntryName name = true) (usable' : isEntryName other = true) (hne : other ≠ name)
  (hsource : u.node? (other :: parent) = some node)
  (hmoved : ∀ l, v.node? l = if l = name :: parent then some node
    else if l = other :: parent then none else u.node? l)

include hne hmoved in
/-- A walk to a directory goes as it did before something was moved, if none goes there through
the new name. -/
theorem walkWithin_of_renamed {start : Location} {steps : List Step}
    (hname : ∀ fewer rest, fewer ≤ links →
      v.walkWithin .followed fewer parent (.down name :: rest) ≠ .ok (.occupied loc .dir))
    (h : v.walkWithin .followed links start steps = .ok (.occupied loc .dir)) :
    u.walkWithin .followed links start steps = .ok (.occupied loc .dir) := by
  refine walkWithin_frame_of_dead (S := fun l => l = name :: parent ∨ l = other :: parent) ?_
    (fun l hl => ?_) h
  · rintro fewer start first rest hle (hat | hat) hthrough
    · cases hat
      exact hname fewer rest hle hthrough
    · -- Nothing is left by the old name.
      have hgone : v.node? (first :: start) = none := by
        rw [hat, hmoved, if_neg fun e => hne (List.cons.inj e).1, if_pos rfl]
      obtain ⟨_, passage⟩ := exists_passage hthrough
      exact Passage.not_of_takesFile (.inl hgone) passage
  · rw [hmoved, if_neg fun e => hl (.inl e), if_neg fun e => hl (.inr e)]

include usable usable' hne hsource hmoved

/-- What leads to no directory by one name does not do so after it was given another. -/
theorem not_dir_through_moved
    (hscratch : u.walkWithin .followed left parent [.down other] = .ok spot)
    (hspot : ∀ loc, spot ≠ .occupied loc .dir) (rest : List Step) (loc : Location) :
    v.walkWithin .followed links parent (.down name :: rest) ≠ .ok (.occupied loc .dir) := by
  have hthere : v.node? (name :: parent) = some node := by rw [hmoved, if_pos rfl]
  -- Behind a link there are fewer links left to follow, so that the way there does not go through
  -- it again is known by induction.
  induction links using Nat.strongRecOn generalizing rest loc with
  | ind links ih =>
      intro h
      cases node with
      | dir =>
          rw [walkWithin_down usable' (by simp [hsource]), hsource] at hscratch
          exact hspot _ (Except.ok.inj hscratch).symm
      | file data =>
          obtain ⟨_, passage⟩ := exists_passage h
          exact Passage.not_of_takesFile (.inr ⟨data, hthere⟩) passage
      | link target =>
          cases links with
          | zero => simp [walkWithin, walk, usable, hthere] at h
          | succ links =>
              simp only [walkWithin, walk, usable, hthere, Bool.true_eq_false, if_false,
                reduceCtorEq, and_false, false_and] at h
              -- The target by itself leads to a directory then, and did so before.
              obtain ⟨loc', hafter⟩ : ∃ loc', v.walkWithin .followed links
                  (if target.isAbsolute then [] else parent) target.demandingSteps =
                    .ok (.occupied loc' .dir) := by
                by_cases hrest : rest = []
                · exact ⟨loc, by rwa [hrest, List.append_nil] at h⟩
                · exact exists_walkWithin_of_append hrest h
              have hbefore := walkWithin_of_renamed hne hmoved
                (fun fewer rest hle => ih fewer (Nat.lt_succ_of_le hle) rest loc') hafter
              cases left with
              | zero => simp [walkWithin, walk, usable', hsource] at hscratch
              | succ left =>
                  simp only [walkWithin, walk, usable', hsource, Bool.true_eq_false, if_false,
                    reduceCtorEq, and_false, false_and, List.append_nil] at hscratch
                  exact hspot _ (walkWithin_unique hscratch hbefore)

/-- The way to a directory that is there after a move within a directory was there before. -/
theorem resolveSteps_of_renamed {steps : List Step}
    (hscratch : u.walkWithin .followed left parent [.down other] = .ok spot)
    (hspot : ∀ loc, spot ≠ .occupied loc .dir)
    (h : v.resolveSteps .followed steps = .ok (.occupied loc .dir)) :
    u.resolveSteps .followed steps = .ok (.occupied loc .dir) := by
  rw [resolveSteps_eq] at h ⊢
  exact walkWithin_of_renamed hne hmoved (fun _ rest _ => not_dir_through_moved usable usable' hne
    hsource hmoved hscratch hspot rest loc) h

end

/-- A regular file in the place of one that was replaced holds what was written. -/
theorem file_of_replaced (hname : Path.isPlainName name = true)
    (hother : Path.isPlainName other = true) (hne : other ≠ name)
    (hwrite : t.write (dir.join other) data = .ok u)
    (hrename : u.rename (dir.join other) (dir.join name) = .ok v)
    (hfront : v.resolveSteps .followed dir.steps = .ok (.occupied loc .dir))
    (hfile : v.node? (name :: loc) = some (.file data')) :
    checkText (dir.join name) = .ok () ∧ data' = data := by
  obtain ⟨written, -, -, -, -, hscratch⟩ :=
    exists_of_write (Path.endsWithSlash_join dir hother) hwrite
  rw [Path.steps_join hother] at hscratch
  obtain ⟨htext, parent, node, hfront', hsource, hmoved⟩ :=
    exists_of_rename hname hother hne (fun _ => ne_dir_of_leads hscratch (by simp)) hrename
  have hthere : v.node? (name :: parent) = some node := by rw [hmoved, if_pos rfl]
  have usable := isEntryName_of_node? hthere
  have usable' := isEntryName_of_node? hsource
  obtain ⟨left, passage⟩ := exists_passage (resolveSteps_eq .. ▸ hfront')
  rw [resolveSteps_eq, passage.walkWithin_append (by simp)] at hscratch
  -- The directory is the one in which the scratch file was moved.
  have hbefore := resolveSteps_of_renamed usable usable' hne hsource hmoved hscratch (by simp) hfront
  obtain rfl : loc = parent := (Spot.occupied.inj (Except.ok.inj (hbefore.symm.trans hfront'))).1
  obtain rfl : node = .file data' := Option.some.inj (hthere.symm.trans hfile)
  rw [walkWithin_down usable' (by simp [hsource]), hsource] at hscratch
  cases hscratch
  exact ⟨htext, rfl⟩

end PartitionStore.FileTree
