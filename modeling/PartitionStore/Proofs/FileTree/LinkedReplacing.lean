import PartitionStore.Proofs.FileTree.Outcomes
import PartitionStore.Proofs.FileTree.Passage

/-!
# `PartitionStore.Proofs.FileTree.LinkedReplacing`: replacing a file where links may be

A file is replaced by way of a scratch file beside it. Either may be a symbolic link: what is
written goes to where the scratch file leads, and then it is the link that takes the file's place.
The file reads as what was written all the same, and until then as what it was. Two things are
asked of the tree:

* The two paths do not lead to one place (`Apart`). If they do, the file is written over at once,
  and where the one is a link to the other a link is left that leads to itself.
* The way to the directory does not go through the file's own name (`Around`). It may do so where a
  link is there, which the replacing takes away. It does not once the file can be read
  (`around_of_read`).

`read_of_write` says the one of a file that is not replaced yet, `read_of_replace` the other of one
that is.
-/

set_option autoImplicit false

namespace PartitionStore.FileTree

/-- The location that the steps of the path lead to. -/
def place? (t : FileTree) (last : LastLink) (p : Path) : Option Location :=
  match t.resolveSteps last p.steps with
  | .ok spot => some spot.loc
  | .error _ => none

/-- What is written to `q` does not go to where `p` leads. -/
def Apart (t : FileTree) (p q : Path) : Prop :=
  ∀ loc ∈ t.place? .written q, t.place? .followed p ≠ some loc

instance (t : FileTree) (p q : Path) : Decidable (t.Apart p q) :=
  inferInstanceAs (Decidable (∀ loc ∈ t.place? .written q, t.place? .followed p ≠ some loc))

/-- The path leads to its directory also without the entry `name` that is there. -/
def Around (t : FileTree) (dir : Path) (name : String) : Prop :=
  ∀ loc, t.resolveSteps .followed dir.steps = .ok (.occupied loc .dir) →
    (t.prune (name :: loc)).resolveSteps .followed dir.steps = .ok (.occupied loc .dir)

variable {t u v : FileTree} {p q dir : Path} {loc parent : Location} {name other : String}
  {data old : Bytes} {spot : Spot} {left : Nat}

/-- The place of a path is where its steps lead. -/
theorem place?_of_ok {last : LastLink} (h : t.resolveSteps last p.steps = .ok spot) :
    t.place? last p = some spot.loc := by rw [place?, h]

/-! ### What success tells -/

/-- A file that is read is no directory. -/
theorem isDir_of_read (h : t.read p = .ok data) : t.isDir p = false := by
  rw [FileTree.read] at h
  rw [FileTree.isDir]
  cases hfind : t.find .followed p with
  | error e => rfl
  | ok found =>
      obtain ⟨loc, node⟩ := found
      cases node with
      | dir => simp [hfind, bind, Except.bind] at h
      | _ => rfl

/-- Where nothing is found there is no directory. -/
theorem isDir_of_not_exists (h : t.exists p = false) : t.isDir p = false := by
  rw [FileTree.exists] at h
  rw [FileTree.isDir]
  cases hfind : t.find .followed p with
  | error e => rfl
  | ok found =>
      rw [hfind] at h
      cases h

/-- So the steps of such a path do not lead to one. -/
theorem ne_dir_of_isDir (htext : checkText p = .ok ()) (hslash : p.endsWithSlash = false)
    (h : t.isDir p = false) (loc : Location) :
    t.resolveSteps .followed p.steps ≠ .ok (.occupied loc .dir) := by
  intro hloc
  simp [FileTree.isDir, FileTree.find, FileTree.resolve, htext, Path.demandingSteps, hslash, hloc,
    bind, Except.bind] at h

/-- A path that leads to a place for writing leads to the file there once it was written. -/
theorem resolveSteps_place (hspot : t.resolveSteps .written p.steps = .ok spot)
    (hloc : spot.loc = name :: parent) (usable : isEntryName name = true)
    (isDir : t.node? parent = some .dir) (takes : t.TakesFile (name :: parent)) (data : Bytes) :
    (t.place parent name (.file data)).resolveSteps .followed p.steps =
      .ok (.occupied (name :: parent) (.file data)) := by
  have beside := beside_place_file usable isDir takes data
  have hthere : (t.place parent name (.file data)).node? (name :: parent) = some (.file data) :=
    node?_place_self usable isDir takes.ne_dir
  rw [resolveSteps_eq] at hspot
  obtain ⟨spot', hled, hloc'⟩ := walkWithin_arrives beside (by simp) hspot hloc
  rw [resolveSteps_eq, hled]
  have hin := walkWithin_isIn (node?_nil _) hled
  cases spot' with
  | vacant parent' name' =>
      have hnone : (t.place parent name (.file data)).node? (name :: parent) = none :=
        hloc' ▸ hin.2.2
      cases hnone.symm.trans hthere
  | occupied loc node =>
      obtain rfl : loc = name :: parent := hloc'
      cases hin.symm.trans hthere
      rfl

/-- What is written is written to a place that takes a file, and nothing else changes. The path
leads there afterwards. -/
theorem exists_of_write (hslash : p.endsWithSlash = false) (h : t.write p data = .ok u) :
    ∃ loc spot, t.resolveSteps .written p.steps = .ok spot ∧ spot.loc = loc ∧ Beside loc t u ∧
      u.resolveSteps .followed p.steps = .ok (.occupied loc (.file data)) := by
  rw [FileTree.write, hslash] at h
  cases htext : checkText p with
  | error e => simp [htext, bind, Except.bind] at h
  | ok _ =>
      cases hspot : t.resolveSteps .written p.steps with
      | error e => simp [htext, hspot, bind, Except.bind] at h
      | ok spot =>
          have hin := resolveSteps_isIn hspot
          -- A file is made where there was nothing, or its data replaced; anything else is refused.
          cases spot with
          | vacant parent name =>
              simp only [htext, hspot, bind, Except.bind, Except.ok.injEq, Bool.false_eq_true,
                if_false] at h
              have takes := takesFile_of_none hin.2.2
              exact h ▸ ⟨_, _, rfl, rfl, beside_place_file hin.1 hin.2.1 takes data,
                resolveSteps_place hspot rfl hin.1 hin.2.1 takes data⟩
          | occupied loc node =>
              cases node with
              | file before =>
                  cases loc with
                  | nil => simp [htext, hspot, bind, Except.bind] at h
                  | cons name parent =>
                      simp only [htext, hspot, bind, Except.bind, Except.ok.injEq,
                        Bool.false_eq_true, if_false] at h
                      have usable := isEntryName_of_node? hin
                      have isDir := node?_parent_of_node? hin
                      have takes : t.TakesFile (name :: parent) := .inr ⟨before, hin⟩
                      exact h ▸ ⟨_, _, rfl, rfl, beside_place_file usable isDir takes data,
                        resolveSteps_place hspot rfl usable isDir takes data⟩
              | _ => simp [htext, hspot, bind, Except.bind] at h

/-- A name below a path is looked up in the directory that the path leads to. -/
theorem exists_of_resolveEntry_join (hname : Path.isPlainName name = true)
    (h : t.resolveEntry (dir.join name) = .ok spot) :
    ∃ parent, t.resolveSteps .followed dir.steps = .ok (.occupied parent .dir) ∧
      isEntryName name = true ∧ spot = match t.node? (name :: parent) with
        | none => .vacant parent name
        | some node => .occupied (name :: parent) node := by
  obtain ⟨-, hspot⟩ := resolveSteps_of_resolveEntry h
  rw [Path.steps_join hname] at hspot
  obtain ⟨parent, hfront⟩ := exists_resolveSteps_of_append (by simp) hspot
  cases usable : isEntryName name with
  | false =>
      rw [resolveSteps_down_of_unusable .itself hfront usable] at hspot
      cases hspot
  | true =>
      rw [resolveSteps_down .itself hfront usable fun hne => absurd rfl hne] at hspot
      exact ⟨parent, hfront, rfl, (Except.ok.inj hspot).symm⟩

/-- What is composed with a plain name ends in it. -/
theorem endsInName_join (dir : Path) (hname : Path.isPlainName name = true) :
    (dir.join name).endsInName = true := by
  simp [Path.endsInName, Path.steps_join hname]

/-- What is moved within a directory, and is no directory, has its new name afterwards and not its
old one, and nothing else changes. -/
theorem exists_of_rename (hname : Path.isPlainName name = true)
    (hother : Path.isPlainName other = true) (hne : other ≠ name)
    (hleaf : ∀ parent, t.resolveSteps .followed dir.steps = .ok (.occupied parent .dir) →
      t.node? (other :: parent) ≠ some .dir)
    (h : t.rename (dir.join other) (dir.join name) = .ok u) :
    checkText (dir.join name) = .ok () ∧ ∃ parent node,
      t.resolveSteps .followed dir.steps = .ok (.occupied parent .dir) ∧
        t.node? (other :: parent) = some node ∧
        ∀ l, u.node? l = if l = name :: parent then some node
          else if l = other :: parent then none else t.node? l := by
  rw [FileTree.rename] at h
  cases hold : t.resolveEntry (dir.join other) with
  | error e => simp [hold, bind, Except.bind] at h
  | ok spotOld =>
      cases hnew : t.resolveEntry (dir.join name) with
      | error e => simp [hold, hnew, bind, Except.bind] at h
      | ok spotNew =>
          obtain ⟨parent, hfront, -, rfl⟩ := exists_of_resolveEntry_join hother hold
          obtain ⟨parent', hfront', usable, rfl⟩ := exists_of_resolveEntry_join hname hnew
          obtain rfl : parent = parent' :=
            (Spot.occupied.inj (Except.ok.inj (hfront.symm.trans hfront'))).1
          have hloc : ¬name :: parent = other :: parent := fun e => hne (List.cons.inj e).1.symm
          simp only [hold, hnew, bind, Except.bind, endsInName_join dir hother,
            endsInName_join dir hname, Path.endsWithSlash_join dir hother,
            Path.endsWithSlash_join dir hname, Bool.not_true, Bool.or_self, Bool.false_eq_true,
            if_false, or_self, and_false] at h
          cases hsource : t.node? (other :: parent) with
          | none => simp [hsource] at h
          | some node =>
              have leaf : node ≠ .dir := fun e => hleaf parent hfront (e ▸ hsource)
              -- Only a directory could be in the way of what is moved.
              have moved : t.node? (name :: parent) ≠ some .dir ∧
                  t.move (other :: parent) parent name = u := by
                rw [hsource] at h
                cases htaken : t.node? (name :: parent) with
                | none => simpa [htaken, not_cons_suffix] using h
                | some taken => cases node <;> cases taken <;> simp_all
              refine ⟨(resolveSteps_of_resolveEntry hnew).1, parent, node, hfront, hsource,
                fun l => ?_⟩
              exact moved.2 ▸ node?_move_leaf usable (resolveSteps_isIn hfront) hsource leaf
                moved.1 l

/-- An entry that leads to no directory is none. -/
theorem ne_dir_of_leads (hscratch : u.resolveSteps .followed (dir.steps ++ [.down other]) = .ok spot)
    (hspot : ∀ loc, spot ≠ .occupied loc .dir)
    (hfront : u.resolveSteps .followed dir.steps = .ok (.occupied parent .dir)) :
    u.node? (other :: parent) ≠ some .dir := by
  intro hnode
  have hdown := resolveSteps_down .followed hfront (isEntryName_of_node? hnode)
    fun _ target e => by cases hnode.symm.trans e
  rw [hnode, hscratch] at hdown
  exact hspot _ (Except.ok.inj hdown)

/-! ### The way to the directory -/

/-- The way to a directory does not go through a name in it that leads to something else than a
directory. -/
theorem around_of_leads (hname : Path.isPlainName name = true)
    (h : t.resolveSteps .followed (dir.join name).steps = .ok spot)
    (hspot : ∀ loc, spot ≠ .occupied loc .dir) : t.Around dir name := by
  intro loc hfront
  rw [resolveSteps_eq] at hfront ⊢
  rw [resolveSteps_eq, Path.steps_join hname] at h
  obtain ⟨left, passage⟩ := exists_passage hfront
  rw [passage.walkWithin_append (by simp)] at h
  have hnode : t.node? (name :: loc) ≠ some .dir := by
    intro hdir
    rw [walkWithin_down (isEntryName_of_node? hdir) (by simp [hdir]), hdir] at h
    exact hspot _ (Except.ok.inj h).symm
  refine (passage.frame (S := (· = name :: loc)) (fun l hl => ?_) ?_).walkWithin
  · -- Below the name there was nothing that could have been taken away with it.
    cases l with
    | nil => rfl
    | cons first rest =>
        rw [node?_prune _ _ _ (List.cons_ne_nil _ _)]
        split
        · rename_i hbelow
          obtain ⟨inner, hinner⟩ := hbelow
          rw [← hinner]
          exact (node?_below hnode fun e => hl (by rw [← hinner, e]; rfl)).symm
        · rfl
  · intro links start first rest left hat
    cases hat
    exact Passage.not_of_leads h hspot

/-- The directory around a file that is read is there, by whichever links. -/
theorem around_of_read (hname : Path.isPlainName name = true)
    (h : t.read (dir.join name) = .ok data) : t.Around dir name := by
  obtain ⟨-, loc, hspot⟩ := (read_eq_ok_iff (Path.endsWithSlash_join dir hname)).1 h
  exact around_of_leads hname hspot (by simp)

/-- A way that goes around a name is there after something was written, and also after an entry of
the directory that leads to no directory itself was given that name. -/
theorem Around.passages {w : Location} (around : t.Around dir name) (beside : Beside w t u)
    (hfront : u.resolveSteps .followed dir.steps = .ok (.occupied parent .dir))
    (hspot : ∀ loc, spot ≠ .occupied loc .dir)
    (hsteps : u.resolveSteps .followed (dir.steps ++ [.down other]) = .ok spot)
    (same : ∀ l, l ≠ name :: parent → l ≠ other :: parent → v.node? l = u.node? l) :
    ∃ left, u.Passage maxLinks [] dir.steps left parent ∧
      v.Passage maxLinks [] dir.steps left parent := by
  have hbefore : t.resolveSteps .followed dir.steps = .ok (.occupied parent .dir) :=
    resolveSteps_frame (S := (· = w)) (fun _ hl => hl ▸ beside.takes')
      (fun l hl => (beside.same l hl).symm) hfront
      fun e => (e ▸ beside.takes').ne_dir (resolveSteps_isIn hfront)
  have hpruned := around parent hbefore
  rw [resolveSteps_eq] at hpruned hsteps
  obtain ⟨left, passage⟩ := exists_passage hpruned
  -- Without the name the place that was written to takes a file as well, if it is not gone.
  have pruned (l : Location) : (t.prune (name :: parent)).node? l =
      if name :: parent <:+ l then none else t.node? l := by
    cases l with
    | nil => simp [node?_nil]
    | cons first rest => exact node?_prune _ _ _ (List.cons_ne_nil _ _)
  have stuck (l : Location) (hl : name :: parent <:+ l ∨ l = w) :
      (t.prune (name :: parent)).TakesFile l := by
    by_cases hbelow : name :: parent <:+ l
    · exact .inl (by rw [pruned, if_pos hbelow])
    · obtain rfl := hl.resolve_left hbelow
      rw [TakesFile, pruned, if_neg hbelow]
      exact beside.takes
  have written {start : Location} {steps : List Step} {links left : Nat}
      (passage : (t.prune (name :: parent)).Passage links start steps left parent) :
      u.Passage links start steps left parent := by
    refine passage.frame (S := fun l => name :: parent <:+ l ∨ l = w) (fun l hl => ?_)
      fun _ _ _ _ _ hl => Passage.not_of_takesFile (stuck _ hl)
    rw [beside.same l fun e => hl (.inr e), pruned, if_neg fun e => hl (.inl e)]
  refine ⟨left, written passage, ?_⟩
  rw [(written passage).walkWithin_append (by simp)] at hsteps
  refine passage.frame
    (S := fun l => (name :: parent <:+ l ∨ l = w) ∨ l = other :: parent) (fun l hl => ?_) ?_
  · obtain ⟨hstuck, hother⟩ := not_or.1 hl
    obtain ⟨hbelow, hw⟩ := not_or.1 hstuck
    rw [same l (fun e => hbelow (e ▸ List.suffix_refl _)) hother, beside.same l hw, pruned,
      if_neg hbelow]
  · rintro links start first rest left (hl | hother) through
    · exact Passage.not_of_takesFile (stuck _ hl) through
    · cases hother
      exact Passage.not_of_leads hsteps hspot (written through)

/-! ### The file that is moved -/

/-- Where a link of a directory is given another name in it the link leads to what it led to, if it
does not lead there through that name. -/
theorem walkWithin_of_moved {links : Nat} {start : Location} {target : Path}
    (usable : isEntryName other = true) (hlink : u.node? (other :: parent) = some (.link target))
    (hstart : start = if target.isAbsolute then [] else parent)
    (same : ∀ l, l ≠ name :: parent → l ≠ other :: parent → v.node? l = u.node? l)
    (hspot : ∀ loc, spot ≠ .occupied loc .dir)
    (hname : ∀ fewer rest, fewer ≤ links →
      u.walkWithin .followed fewer parent (.down name :: rest) ≠ .ok spot)
    (h : u.walkWithin .followed links start target.demandingSteps = .ok spot) :
    v.walkWithin .followed links start target.demandingSteps = .ok spot := by
  -- If fewer links are enough, they are. So it may be assumed that the link is not on its own way.
  induction links using Nat.strongRecOn with
  | ind links ih =>
      by_cases hfewer : ∃ fewer < links,
          u.walkWithin .followed fewer start target.demandingSteps = .ok spot
      · obtain ⟨fewer, hlt, hspot'⟩ := hfewer
        have hle := Nat.le_of_lt hlt
        have hfewer := ih fewer hlt (fun n rest hn => hname n rest (Nat.le_trans hn hle)) hspot'
        exact walkWithin_mono hfewer hle
      refine walkWithin_frame_of_dead (S := fun l => l = name :: parent ∨ l = other :: parent)
        ?_ (fun l hl => same l (fun e => hl (.inl e)) fun e => hl (.inr e)) h
      rintro fewer at' first rest hle (hat | hat) hthrough
      · cases hat
        exact hname fewer rest hle hthrough
      · cases hat
        cases fewer with
        | zero => simp [walkWithin, walk, usable, hlink] at hthrough
        | succ fewer =>
            simp only [walkWithin, walk, usable, hlink, Bool.true_eq_false, if_false,
              reduceCtorEq, and_false, false_and, ← hstart] at hthrough
            by_cases hrest : rest = []
            · rw [hrest, List.append_nil] at hthrough
              exact hfewer ⟨fewer, hle, hthrough⟩
            · obtain ⟨loc', hdir⟩ := exists_walkWithin_of_append hrest hthrough
              exact hspot _ (walkWithin_unique h hdir)

/-- No way through the file's own name leads to what was written beside it. -/
theorem Apart.not_through (hname : Path.isPlainName name = true)
    (apart : t.Apart (dir.join name) q)
    (hdir : ∀ loc, t.resolveSteps .followed (dir.join name).steps ≠ .ok (.occupied loc .dir))
    (hspot : t.resolveSteps .written q.steps = .ok spot) (hloc : spot.loc = loc)
    (beside : Beside loc t u) (passage : u.Passage maxLinks [] dir.steps left parent)
    {fewer : Nat} (rest : List Step) (hle : fewer ≤ left) (node : Node) :
    u.walkWithin .followed fewer parent (.down name :: rest) ≠ .ok (.occupied loc node) := by
  intro hthrough
  have hpath {spot' : Spot} (h : u.walkWithin .followed fewer parent [.down name] = .ok spot') :
      u.resolveSteps .followed (dir.join name).steps = .ok spot' := by
    rw [resolveSteps_eq, Path.steps_join hname, passage.walkWithin_append (by simp)]
    exact walkWithin_mono h hle
  by_cases hrest : rest = []
  · -- The two paths would lead to one place, and did so before.
    subst hrest
    have hled := hpath hthrough
    rw [resolveSteps_eq] at hled
    obtain ⟨spot', hbefore, hloc'⟩ := walkWithin_arrives beside.symm (by simp) hled rfl
    exact apart loc (by rw [place?_of_ok hspot, hloc]; rfl)
      (by rw [place?_of_ok ((resolveSteps_eq ..).trans hbefore), hloc'])
  · have hthrough : u.walkWithin .followed fewer parent ([.down name] ++ rest) =
        .ok (.occupied loc node) := hthrough
    obtain ⟨loc', hfront⟩ := exists_walkWithin_of_append hrest hthrough
    have hled := hpath hfront
    refine hdir loc' (resolveSteps_frame (S := (· = loc)) (fun _ hl => hl ▸ beside.takes')
      beside.symm.same hled fun e => ?_)
    exact beside.takes'.ne_dir (e ▸ resolveSteps_isIn hled)

/-! ### What is read -/

section

variable (hname : Path.isPlainName name = true) (hother : Path.isPlainName other = true)
include hname hother

/-- What is written beside a file leaves it as it was. -/
theorem read_of_write (apart : t.Apart (dir.join name) (dir.join other))
    (hread : t.read (dir.join name) = .ok old) (h : t.write (dir.join other) data = .ok u) :
    u.read (dir.join name) = .ok old := by
  have hslash := Path.endsWithSlash_join dir hname
  obtain ⟨htext, loc, hloc⟩ := (read_eq_ok_iff hslash).1 hread
  obtain ⟨written, spot, hspot, rfl, beside, -⟩ :=
    exists_of_write (Path.endsWithSlash_join dir hother) h
  have hne : loc ≠ spot.loc := by
    rintro rfl
    exact apart spot.loc (place?_of_ok hspot) (by rw [place?_of_ok hloc]; rfl)
  refine (read_eq_ok_iff hslash).2 ⟨htext, loc, ?_⟩
  exact resolveSteps_frame (S := (· = spot.loc)) (fun _ hl => hl ▸ beside.takes) beside.same hloc hne

/-- What is written beside a file and then moved to its place is what the file reads as. -/
theorem read_of_replaced (hne : other ≠ name) (apart : t.Apart (dir.join name) (dir.join other))
    (around : t.Around dir name) (hdir : t.isDir (dir.join name) = false)
    (hwrite : t.write (dir.join other) data = .ok u)
    (hrename : u.rename (dir.join other) (dir.join name) = .ok v) :
    v.read (dir.join name) = .ok data := by
  obtain ⟨written, spot, hspot, hloc, beside, hscratch⟩ :=
    exists_of_write (Path.endsWithSlash_join dir hother) hwrite
  rw [Path.steps_join hother] at hscratch
  have hleaf (parent : Location)
      (hfront : u.resolveSteps .followed dir.steps = .ok (.occupied parent .dir)) :=
    ne_dir_of_leads hscratch (by simp) hfront
  obtain ⟨htext, parent, node, hfront, hsource, hmoved⟩ :=
    exists_of_rename hname hother hne hleaf hrename
  have same (l : Location) (h₁ : l ≠ name :: parent) (h₂ : l ≠ other :: parent) :
      v.node? l = u.node? l := by rw [hmoved, if_neg h₁, if_neg h₂]
  have hthere : v.node? (name :: parent) = some node := by rw [hmoved, if_pos rfl]
  have usable := isEntryName_of_node? hthere
  have usable' := isEntryName_of_node? hsource
  -- So both paths are looked up in one directory, before and after, with as many links left.
  obtain ⟨left, before, after⟩ := around.passages beside hfront (by simp) hscratch same
  have hdir := ne_dir_of_isDir htext (Path.endsWithSlash_join dir hname) hdir
  rw [resolveSteps_eq, before.walkWithin_append (by simp)] at hscratch
  refine (read_eq_ok_iff (Path.endsWithSlash_join dir hname)).2 ⟨htext, ?_⟩
  rw [resolveSteps_eq, Path.steps_join hname, after.walkWithin_append (by simp)]
  cases node with
  | dir => exact absurd hsource (hleaf parent hfront)
  | file data' =>
      -- The scratch file was no link, so it is the file itself that was moved.
      rw [walkWithin_down usable' (fun _ target e => by cases hsource.symm.trans e), hsource]
        at hscratch
      cases hscratch
      refine ⟨name :: parent, ?_⟩
      rw [walkWithin_down usable (fun _ target e => by cases hthere.symm.trans e), hthere]
  | link target =>
      cases left with
      | zero => simp [walkWithin, walk, usable', hsource] at hscratch
      | succ left =>
          simp only [walkWithin, walk, usable', hsource, Bool.true_eq_false, if_false,
            reduceCtorEq, and_false, false_and, List.append_nil] at hscratch
          refine ⟨written, ?_⟩
          simp only [walkWithin, walk, usable, hthere, Bool.true_eq_false, if_false,
            reduceCtorEq, and_false, false_and, List.append_nil]
          exact walkWithin_of_moved usable' hsource rfl same (by simp) (fun fewer rest hle =>
            apart.not_through hname hdir hspot hloc beside before rest (Nat.le_succ_of_le hle) _)
            hscratch

end

end PartitionStore.FileTree
