import PartitionStore.Proofs.FileTree.Existing

/-!
# `PartitionStore.Proofs.FileTree.Course`: where a path can lead

Which directories there are decides whether a path leads anywhere. Where it leads
then is up to the symbolic links alone. The course of a path is the way that it
takes if whatever is no link is a directory, and `PointsTo t p loc` says that this
way ends at `loc`. So a path points to one location as long as the links are what
they are (`PointsTo.congr`), be the location occupied or not, and leads there if it
leads anywhere (`PointsTo.loc_eq`).

* `LinkFree t loc`: there is no link at the location or below it.
* `PointsTo.join`: a name below a path points to the entry of that name.
* `PointsTo.namesEntry`: if a name below a path can be looked up, it names that entry.
-/

set_option autoImplicit false

namespace PartitionStore.FileTree

/-! ### Links -/

/-- The two trees have the same symbolic links. -/
def SameLinks (t u : FileTree) : Prop :=
  ∀ loc target, u.node? loc = some (.link target) ↔ t.node? loc = some (.link target)

/-- There is no symbolic link at the location or below it. -/
def LinkFree (t : FileTree) (loc : Location) : Prop :=
  ∀ l target, loc <:+ l → t.node? l ≠ some (.link target)

variable {t u v : FileTree} {p dir : Path} {loc start : Location} {steps : List Step}
  {links : Nat} {spot : Spot} {name : String}

/-- A tree has its own links. -/
theorem SameLinks.refl (t : FileTree) : SameLinks t t := fun _ _ => Iff.rfl

/-- What has the same links as a third one has those of the first. -/
theorem SameLinks.trans (h : SameLinks t u) (h' : SameLinks u v) : SameLinks t v :=
  fun loc target => (h' loc target).trans (h loc target)

/-- The other tree has the same links, too. -/
theorem SameLinks.symm (h : SameLinks t u) : SameLinks u t := fun loc target => (h loc target).symm

/-- Where what changed is no link, neither before nor after, the links are the same. -/
theorem SameLinks.of_changed (h : ∀ l, u.node? l ≠ t.node? l →
    ∀ target, u.node? l ≠ some (.link target) ∧ t.node? l ≠ some (.link target)) :
    SameLinks t u := by
  intro l target
  by_cases hl : u.node? l = t.node? l
  · rw [hl]
  · exact iff_of_false (h l hl target).1 (h l hl target).2

/-- A place that takes a file before and after is no link. -/
theorem Beside.sameLinks {w : Location} (h : Beside w t u) : SameLinks t u := by
  refine .of_changed fun l hl target => ?_
  obtain rfl : l = w := Classical.not_not.1 (mt (h.same l) hl)
  exact ⟨h.takes'.ne_link target, h.takes.ne_link target⟩

/-- Where there are no links is the same in trees with the same links. -/
theorem LinkFree.congr (h : t.LinkFree loc) (same : SameLinks t u) : u.LinkFree loc :=
  fun l target hl => mt (same l target).1 (h l target hl)

/-- There are no links below an entry either. -/
theorem LinkFree.cons (h : t.LinkFree loc) (name : String) : t.LinkFree (name :: loc) :=
  fun l target hl => h l target ((List.suffix_cons ..).trans hl)

/-- An entry of a directory without links is none. -/
theorem LinkFree.entry (h : t.LinkFree loc) (name : String) (target : Path) :
    t.node? (name :: loc) ≠ some (.link target) := h _ _ (List.suffix_cons ..)

/-- An entry that is looked up is listed, and so is all that is below it. -/
theorem mem_nodesBelow_of_lookup {es inside : Entries} {node : Node} {entry : Location × Node}
    (h : es.lookup name = some (node, inside))
    (hentry : entry ∈ (name :: loc, node) :: inside.nodesBelow (name :: loc)) :
    entry ∈ es.nodesBelow loc := by
  induction es with
  | none => cases h
  | entry n m i rest _ ih =>
      rw [Entries.lookup] at h
      rw [Entries.nodesBelow, ← List.cons_append, List.mem_append]
      split at h
      · rename_i hname
        cases h
        exact .inl (hname ▸ hentry)
      · exact .inr (ih h)

/-- Whatever is in a tree is listed. -/
theorem mem_toList_of_at? {es : Entries} {node : Node} (h : t.at? loc = some (node, es)) :
    (loc ≠ [] → (loc, node) ∈ t.toList) ∧ ∀ entry ∈ es.nodesBelow loc, entry ∈ t.toList := by
  induction loc generalizing es node with
  | nil =>
      cases h
      exact ⟨fun hne => absurd rfl hne, fun entry hentry => hentry⟩
  | cons name parent ih =>
      obtain ⟨above, hparent, hlookup⟩ := Entries.at?_parent h
      have hin (entry : Location × Node)
          (hentry : entry ∈ (name :: parent, node) :: es.nodesBelow (name :: parent)) :
          entry ∈ t.toList := (ih hparent).2 entry (mem_nodesBelow_of_lookup hlookup hentry)
      exact ⟨fun _ => hin _ (List.mem_cons_self ..),
        fun entry hentry => hin entry (List.mem_cons_of_mem _ hentry)⟩

/-- No link is listed among the nodes of the tree. -/
def listsNoLink (t : FileTree) : Bool :=
  t.toList.all fun (_, node) => match node with
    | .link _ => false
    | _ => true

/-- Then there is none, and that can be evaluated. -/
theorem linkFree_of_listsNoLink (h : t.listsNoLink = true) (loc : Location) : t.LinkFree loc := by
  intro l target _ hnode
  obtain ⟨⟨node, es⟩, hat, hlink⟩ := Option.map_eq_some_iff.1 hnode
  obtain rfl : node = .link target := hlink
  cases l with
  | nil => cases hat
  | cons name parent =>
      have hlisted := (mem_toList_of_at? hat).1 (List.cons_ne_nil _ _)
      have hfalse := List.all_eq_true.1 h _ hlisted
      cases hfalse

/-- The empty tree has no links. -/
theorem linkFree_empty (loc : Location) : FileTree.empty.LinkFree loc :=
  linkFree_of_listsNoLink rfl loc

/-! ### Courses -/

/-- Where steps lead if everything on the way that is no link is a directory. `jump` goes on
behind a link. -/
def course (t : FileTree) (jump : Location → List Step → Option Location) :
    Location → List Step → Option Location
  | loc, [] => some loc
  | loc, .here :: rest => course t jump loc rest
  | loc, .up :: rest => course t jump loc.tail rest
  | loc, .down name :: rest =>
    match t.node? (name :: loc) with
    | some (.link target) =>
      jump (if target.isAbsolute then [] else loc) (target.demandingSteps ++ rest)
    | _ => course t jump (name :: loc) rest

/-- The course of steps through up to `links` symbolic links. -/
def courseWithin (t : FileTree) : (links : Nat) → Location → List Step → Option Location
  | 0 => t.course fun _ _ => none
  | links + 1 => t.course (courseWithin t links)

/-- The path leads to `loc` if it leads anywhere. -/
def PointsTo (t : FileTree) (p : Path) (loc : Location) : Prop :=
  t.courseWithin maxLinks [] p.steps = some loc

/-- A walk that succeeds keeps to the course. -/
theorem course_of_walk {jump : Location → List Step → Except IoError Spot}
    {jump' : Location → List Step → Option Location}
    (hjump : ∀ loc steps, jump loc steps = .ok spot → jump' loc steps = some spot.loc)
    (h : t.walk .followed jump start steps = .ok spot) :
    t.course jump' start steps = some spot.loc := by
  induction steps generalizing start with
  | nil =>
      cases h
      rfl
  | cons step rest ih =>
      cases step with
      | here => exact ih h
      | up => exact ih h
      | down name =>
          rw [course]
          -- A walk that ends at the name, at a file or a free place, is at the end of its steps.
          cases (walk_down_eq_ok_iff.1 h).2 with
          | vacant free atEnd here =>
              rw [free, atEnd, here]
              rfl
          | dir isDir goesOn =>
              rw [isDir]
              exact ih goesOn
          | file isFile atEnd here =>
              rw [isFile, atEnd, here]
              rfl
          | itself _ atEnd => cases atEnd.2
          | link isLink _ _ follows =>
              rw [isLink]
              exact hjump _ _ follows

/-- A walk that leads anywhere follows the course of its steps. -/
theorem courseWithin_of_walkWithin (h : t.walkWithin .followed links start steps = .ok spot) :
    t.courseWithin links start steps = some spot.loc := by
  induction links generalizing start steps with
  | zero => exact course_of_walk (fun _ _ h => by simp at h) h
  | succ links ih => exact course_of_walk (fun _ _ h => ih h) h

/-- Nothing but the links decides on a course. -/
theorem course_congr (same : SameLinks t u)
    {jump jump' : Location → List Step → Option Location}
    (hjump : ∀ loc steps, jump' loc steps = jump loc steps) :
    u.course jump' start steps = t.course jump start steps := by
  induction steps generalizing start with
  | nil => rfl
  | cons step rest ih =>
      cases step with
      | here => exact ih
      | up => exact ih
      | down name =>
          rw [course, course]
          by_cases hlink : ∃ target, t.node? (name :: start) = some (.link target)
          · obtain ⟨target, hlink⟩ := hlink
            rw [hlink, (same _ _).2 hlink]
            exact hjump _ _
          · -- No link in the one tree, and so none in the other.
            have hlink' : ¬∃ target, u.node? (name :: start) = some (.link target) :=
              fun ⟨target, h⟩ => hlink ⟨target, (same _ _).1 h⟩
            split
            · rename_i target h
              exact absurd ⟨target, h⟩ hlink'
            split
            · rename_i target h
              exact absurd ⟨target, h⟩ hlink
            exact ih

/-- The course of steps is a matter of the links, by induction on how many are left. -/
theorem courseWithin_congr (same : SameLinks t u) :
    u.courseWithin links start steps = t.courseWithin links start steps := by
  induction links generalizing start steps with
  | zero => exact course_congr same fun _ _ => rfl
  | succ links ih => exact course_congr same fun _ _ => ih

/-- What holds of a course from where another one ended holds of the two together, if it does so
behind a link. -/
theorem course_append {jump : Location → List Step → Option Location} {more : List Step}
    {P : Option Location → Prop} (hend : P (t.course jump loc more))
    (hjump : ∀ start steps, jump start steps = some loc → P (jump start (steps ++ more)))
    (h : t.course jump start steps = some loc) : P (t.course jump start (steps ++ more)) := by
  induction steps generalizing start with
  | nil =>
      cases h
      exact hend
  | cons step rest ih =>
      cases step with
      | here => exact ih h
      | up => exact ih h
      | down name =>
          rw [course] at h
          rw [List.cons_append, course]
          split at h
          · rename_i target hlink
            rw [← List.append_assoc]
            exact hjump _ _ h
          · exact ih h

/-- A course goes on from where it ended, with the links that it has left. -/
theorem courseWithin_append (h : t.courseWithin links start steps = some loc) (more : List Step) :
    ∃ left, t.courseWithin links start (steps ++ more) = t.courseWithin left loc more := by
  induction links generalizing start steps with
  | zero =>
      refine @course_append t loc start steps (fun _ _ => none) more
        (fun found => ∃ left, found = t.courseWithin left loc more) ⟨0, rfl⟩ ?_ h
      exact fun _ _ h => by simp at h
  | succ links ih =>
      refine @course_append t loc start steps (t.courseWithin links) more
        (fun found => ∃ left, found = t.courseWithin left loc more) ⟨links + 1, rfl⟩ ?_ h
      exact fun _ _ h => ih h

/-! ### Where paths point -/

/-- So a path points to the same place in trees with the same links. -/
theorem PointsTo.congr (h : t.PointsTo p loc) (same : SameLinks t u) : u.PointsTo p loc :=
  (courseWithin_congr same).trans h

/-- A path that leads anywhere leads to where it points. -/
theorem PointsTo.loc_eq (h : t.PointsTo p loc)
    (hspot : t.resolveSteps .followed p.steps = .ok spot) : spot.loc = loc := by
  rw [resolveSteps_eq] at hspot
  exact Option.some.inj ((courseWithin_of_walkWithin hspot).symm.trans h)

/-- A path that leads to something points there. -/
theorem pointsTo_of_resolveSteps (h : t.resolveSteps .followed p.steps = .ok spot) :
    t.PointsTo p spot.loc := by
  rw [resolveSteps_eq] at h
  exact courseWithin_of_walkWithin h

/-- A name below a path points to the entry of that name, if that is no link. -/
theorem PointsTo.join (h : t.PointsTo dir loc) (hname : Path.isPlainName name = true)
    (hlink : ∀ target, t.node? (name :: loc) ≠ some (.link target)) :
    t.PointsTo (dir.join name) (name :: loc) := by
  obtain ⟨left, e⟩ := courseWithin_append h [.down name]
  have hdown (jump : Location → List Step → Option Location) :
      t.course jump loc [.down name] = some (name :: loc) := by
    rw [course]
    split
    · rename_i target h
      exact absurd h (hlink target)
    · rfl
  rw [PointsTo, Path.steps_join hname, e]
  cases left with
  | zero => exact hdown _
  | succ left => exact hdown _

/-- Where a name below a path can be looked up, it names the entry that it points to. -/
theorem PointsTo.namesEntry (h : t.PointsTo dir loc) (hname : Path.isPlainName name = true)
    (htext : checkText (dir.join name) = .ok ()) {last : LastLink}
    (hspot : t.resolveSteps last (dir.join name).steps = .ok spot) :
    t.NamesEntry (dir.join name) loc name := by
  rw [Path.steps_join hname] at hspot
  obtain ⟨loc', hfront⟩ := exists_resolveSteps_of_append (by simp) hspot
  obtain rfl : loc' = loc := h.loc_eq hfront
  refine ⟨htext, Path.endsWithSlash_join _ hname, ?_, dir.steps, Path.steps_join hname, hfront⟩
  -- A name that no entry can have would have been refused.
  cases hname' : isEntryName name with
  | true => rfl
  | false =>
      rw [resolveSteps_down_of_unusable last hfront hname'] at hspot
      cases hspot

end PartitionStore.FileTree
