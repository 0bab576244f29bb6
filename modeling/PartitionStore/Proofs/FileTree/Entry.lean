import PartitionStore.FileTree.Operations
import PartitionStore.Proofs.Action
import PartitionStore.Proofs.FileTree.Frame

/-!
# `PartitionStore.Proofs.FileTree.Entry`: a path that names an entry of a directory

`NamesEntry t p parent name` says that `p` is a way to the directory at
`parent` followed by `name`. What the operations on a single path do is said
once, for such paths: looking, reading, writing and replacing.

* `NamesEntry.resolve`: what the path leads to is what the directory has.
* `NamesEntry.write`: writing puts the file there.
* `replace_ok`: a file that is written beside its place and then moved there
  changes these two entries and nothing else.
-/

set_option autoImplicit false

namespace PartitionStore

namespace FileTree

/-- The path `p` leads to the directory at `parent` and then to its entry `name`. -/
structure NamesEntry (t : FileTree) (p : Path) (parent : Location) (name : String) : Prop where
  text : checkText p = .ok ()
  noSlash : p.endsWithSlash = false
  usable : isEntryName name = true
  way : ∃ front, p.steps = front ++ [.down name] ∧
    t.resolveSteps .followed front = .ok (.occupied parent .dir)

section

variable {t u : FileTree} {p q : Path} {parent : Location} {name other : String}

/-- The directory that the path goes through is there. -/
theorem NamesEntry.isDir (h : t.NamesEntry p parent name) : t.node? parent = some .dir := by
  obtain ⟨front, -, hfront⟩ := h.way
  exact resolveSteps_isIn hfront

/-- What happens at places where no walk goes on does not change what a path names. -/
theorem NamesEntry.frame {S : Location → Prop} (h : t.NamesEntry p parent name)
    (stuck : ∀ loc, S loc → t.TakesFile loc)
    (same : ∀ loc, ¬S loc → u.node? loc = t.node? loc) : u.NamesEntry p parent name := by
  refine ⟨h.text, h.noSlash, h.usable, ?_⟩
  obtain ⟨front, hsteps, hfront⟩ := h.way
  have hparent : ¬S parent := fun hS => (stuck parent hS).ne_dir h.isDir
  exact ⟨front, hsteps, resolveSteps_frame stuck same hfront hparent⟩

/-- A change beside it leaves a path naming the same entry, as its directory stays. -/
theorem NamesEntry.beside {w : Location} (h : t.NamesEntry p parent name) (beside : Beside w t u) :
    u.NamesEntry p parent name :=
  h.frame (S := (· = w)) (fun _ hl => hl ▸ beside.takes) beside.same

/-- The steps of a path that names an entry lead to it, or to its free place, unless it is a link
that is followed. -/
theorem NamesEntry.resolveSteps (h : t.NamesEntry p parent name) (last : LastLink)
    (hlink : last ≠ .itself → ∀ target, t.node? (name :: parent) ≠ some (.link target)) :
    t.resolveSteps last p.steps = .ok
      (match t.node? (name :: parent) with
        | none => .vacant parent name
        | some node => .occupied (name :: parent) node) := by
  obtain ⟨front, hsteps, hfront⟩ := h.way
  rw [hsteps]
  exact resolveSteps_down last hfront h.usable hlink

/-- The path leads to what its directory has under its name. -/
theorem NamesEntry.resolve (h : t.NamesEntry p parent name) (last : LastLink)
    (hlink : last ≠ .itself → ∀ target, t.node? (name :: parent) ≠ some (.link target)) :
    t.resolve last p = .ok
      (match t.node? (name :: parent) with
        | none => .vacant parent name
        | some node => .occupied (name :: parent) node) := by
  rw [FileTree.resolve, h.text, Path.demandingSteps, h.noSlash]
  exact h.resolveSteps last hlink

/-- So does the path itself, which takes a link for itself. -/
theorem NamesEntry.resolveEntry (h : t.NamesEntry p parent name) :
    t.resolveEntry p = .ok
      (match t.node? (name :: parent) with
        | none => .vacant parent name
        | some node => .occupied (name :: parent) node) := by
  rw [FileTree.resolveEntry, h.text]
  exact h.resolveSteps .itself (fun hne => absurd rfl hne)

/-- A path that names an entry is not empty. -/
theorem NamesEntry.text_ne (h : t.NamesEntry p parent name) : p.text ≠ "" := by
  intro e
  have hsteps : p.steps = [] := by
    rw [Path.steps, e]
    rfl
  obtain ⟨front, hfront, -⟩ := h.way
  simp [hsteps] at hfront

/-- A path that names an entry ends in a name. -/
theorem NamesEntry.endsInName (h : t.NamesEntry p parent name) : p.endsInName = true := by
  obtain ⟨front, hsteps, -⟩ := h.way
  simp [Path.endsInName, hsteps]

/-! ### Looking -/

/-- The node of the entry is found, unless it is a link that is followed. -/
theorem NamesEntry.find (h : t.NamesEntry p parent name) (last : LastLink) {node : Node}
    (hnode : t.node? (name :: parent) = some node)
    (hlink : last ≠ .itself → ∀ target, node ≠ .link target) :
    t.find last p = .ok (name :: parent, node) := by
  rw [FileTree.find, h.resolve last (by simpa [hnode] using hlink), hnode]
  rfl

/-- Where the place is free nothing is found. -/
theorem NamesEntry.find_of_none (h : t.NamesEntry p parent name) (last : LastLink)
    (hnode : t.node? (name :: parent) = none) : t.find last p = .error .notFound := by
  rw [FileTree.find, h.resolve last (by simp [hnode]), hnode]
  rfl

/-- An entry that is no link is there. -/
theorem NamesEntry.exists_of_some (h : t.NamesEntry p parent name) {node : Node}
    (hnode : t.node? (name :: parent) = some node) (hlink : ∀ target, node ≠ .link target) :
    t.exists p = true := by
  rw [FileTree.exists, h.find .followed hnode fun _ => hlink]
  rfl

/-- Where the place is free nothing is there. -/
theorem NamesEntry.exists_of_none (h : t.NamesEntry p parent name)
    (hnode : t.node? (name :: parent) = none) : t.exists p = false := by
  rw [FileTree.exists, h.find_of_none .followed hnode]
  rfl

/-- The bytes of the file are read. -/
theorem NamesEntry.read (h : t.NamesEntry p parent name) {data : Bytes}
    (hnode : t.node? (name :: parent) = some (.file data)) : t.read p = .ok data := by
  rw [FileTree.read, h.find .followed hnode (by simp)]
  rfl

/-! ### Writing -/

/-- A file is written where there is one already, or nothing. -/
theorem NamesEntry.write (h : t.NamesEntry p parent name) (free : t.TakesFile (name :: parent))
    (data : Bytes) : t.write p data = .ok (t.place parent name (.file data)) := by
  have hresolve := h.resolveSteps .written fun _ => free.ne_link
  rw [FileTree.write, h.text, h.noSlash]
  rcases free with hnone | ⟨old, hfile⟩
  · rw [hnone] at hresolve
    simp [bind, Except.bind, hresolve]
  · rw [hfile] at hresolve
    simp [bind, Except.bind, hresolve]

/-- The file that is written is there, and nothing else changed. -/
theorem node?_place_file {data : Bytes} (hname : isEntryName name = true)
    (hparent : t.node? parent = some .dir) (free : t.TakesFile (name :: parent)) (loc : Location) :
    (t.place parent name (.file data)).node? loc =
      if loc = name :: parent then some (.file data) else t.node? loc := by
  split
  · rename_i h
    rw [h]
    exact node?_place_self hname hparent free.ne_dir
  · rename_i h
    exact node?_place_of_ne t parent name _ h

/-- To put a file into a place that takes one is a change of that place alone. -/
theorem beside_place_file (hname : isEntryName name = true) (hparent : t.node? parent = some .dir)
    (free : t.TakesFile (name :: parent)) (data : Bytes) :
    Beside (name :: parent) t (t.place parent name (.file data)) := by
  have hnode := @node?_place_file t parent name data hname hparent free
  exact ⟨free, .inr ⟨data, by rw [hnode, if_pos rfl]⟩, fun l hl => by rw [hnode, if_neg hl]⟩

/-! ### Replacing -/

/-- A file that is moved over another one, or to a free name, in its directory. -/
theorem NamesEntry.rename (hp : t.NamesEntry p parent name) (hq : t.NamesEntry q parent other)
    (hne : other ≠ name) {data : Bytes} (hsource : t.node? (other :: parent) = some (.file data))
    (free : t.TakesFile (name :: parent)) :
    t.rename q p = .ok (t.move (other :: parent) parent name) := by
  have hloc : ¬name :: parent = other :: parent := fun e => hne (List.cons.inj e).1.symm
  have hsuffix := not_cons_suffix other parent
  have hold := hq.resolveEntry
  have hnew := hp.resolveEntry
  rw [hsource] at hold
  rw [FileTree.rename, hold]
  -- The new name is free or is another file's; a directory there would be in the way.
  rcases free with hnone | ⟨old, hfile⟩
  · rw [hnone] at hnew
    simp [bind, Except.bind, hnew, hp.endsInName, hq.endsInName, hp.noSlash, hq.noSlash, hsuffix]
  · rw [hfile] at hnew
    simp [bind, Except.bind, hnew, hp.endsInName, hq.endsInName, hp.noSlash, hq.noSlash, hloc]

/-- What moving a file or a link to another name in its directory, where no directory is in the
way, comes to. -/
theorem node?_move_leaf (hname : isEntryName name = true) (hparent : t.node? parent = some .dir)
    {node : Node} (hsource : t.node? (other :: parent) = some node) (hleaf : node ≠ .dir)
    (free : t.node? (name :: parent) ≠ some .dir) (loc : Location) :
    (t.move (other :: parent) parent name).node? loc =
      if loc = name :: parent then some node
      else if loc = other :: parent then none
      else t.node? loc := by
  have hsuffix := not_cons_suffix other parent
  have hthere : t.node? (other :: parent) ≠ none := by simp [hsource]
  have hsourceDir : t.node? (other :: parent) ≠ some .dir := by simp [hsource, hleaf]
  by_cases hbelow : name :: parent <:+ loc
  · -- At the new place there is the node, and below it there is nothing, as before.
    obtain ⟨inner, rfl⟩ := hbelow
    rw [node?_move hname hparent hsuffix hthere]
    by_cases hinner : inner = []
    · subst hinner
      simpa using hsource
    · -- Neither node had anything below it.
      have h₁ : ¬inner ++ name :: parent = name :: parent := by simpa using hinner
      rw [if_neg h₁, node?_below hsourceDir hinner, node?_below free hinner]
      simp
  · rw [node?_move_of_not_suffix hname hthere hbelow]
    have h₁ : ¬loc = name :: parent := fun e => hbelow (e ▸ List.suffix_refl _)
    rw [if_neg h₁]
    by_cases hnil : loc = []
    · subst hnil
      simp
    rw [node?_prune _ _ _ hnil]
    by_cases hold : other :: parent <:+ loc
    · obtain ⟨inner, rfl⟩ := hold
      rw [if_pos (List.suffix_append ..)]
      by_cases hinner : inner = []
      · simp [hinner]
      · have h₂ : ¬inner ++ other :: parent = other :: parent := by simpa using hinner
        rw [if_neg h₂, node?_below hsourceDir hinner]
    · have h₂ : ¬loc = other :: parent := fun e => hold (e ▸ List.suffix_refl _)
      rw [if_neg hold, if_neg h₂]

/-- A file is written beside its place and then moved there: the place has the data, the
name beside it is free, and nothing else changed. -/
theorem replace_ok (hp : t.NamesEntry p parent name) (hq : t.NamesEntry q parent other)
    (hne : other ≠ name) (free : t.TakesFile (name :: parent))
    (freeBeside : t.TakesFile (other :: parent)) (data : Bytes) :
    ∃ t', Files.replace p q data t = .ok () t' ∧
      ∀ loc, t'.node? loc =
        if loc = name :: parent then some (.file data)
        else if loc = other :: parent then none
        else t.node? loc := by
  obtain ⟨u, hu⟩ : ∃ u, t.place parent other (.file data) = u := ⟨_, rfl⟩
  have hwritten : ∀ loc, u.node? loc =
      if loc = other :: parent then some (.file data) else t.node? loc :=
    hu ▸ node?_place_file hq.usable hq.isDir freeBeside
  have hwrite : t.write q data = .ok u := hu ▸ hq.write freeBeside data
  have hloc : ¬name :: parent = other :: parent := by
    intro e
    exact hne (List.cons.inj e).1.symm
  -- The scratch file is in nobody's way, so both paths name what they named.
  have stuck : ∀ loc, loc = other :: parent → t.TakesFile loc := fun loc e => e ▸ freeBeside
  have same : ∀ loc, ¬loc = other :: parent → u.node? loc = t.node? loc := by
    intro loc h
    rw [hwritten, if_neg h]
  have hp' := hp.frame stuck same
  have hq' := hq.frame stuck same
  have hsource : u.node? (other :: parent) = some (.file data) := by rw [hwritten, if_pos rfl]
  have free' : u.TakesFile (name :: parent) := by
    rw [TakesFile, same _ hloc]
    exact free
  refine ⟨u.move (other :: parent) parent name, ?_, ?_⟩
  · rw [Files.replace_eq, Action.bind_of_ok (Files.change_of_ok hwrite)]
    exact Files.change_of_ok (hp'.rename hq' hne hsource free')
  · -- Moving clears the name beside again, and all else is as it was before the writing.
    intro loc
    rw [node?_move_leaf hp'.usable hp'.isDir hsource (by simp) free'.ne_dir]
    split
    · rfl
    split
    · rfl
    rename_i h
    exact same loc h

/-! ### What success tells of a path -/

/-- Where the path of the scratch file cannot be walked a file is not replaced. -/
theorem replace_of_checkText {e : IoError} (h : checkText q = .error e) (p : Path) (data : Bytes)
    (t : FileTree) : Files.replace p q data t = .error e t := by
  have hwrite : t.write q data = .error e := by
    rw [FileTree.write, h]
    rfl
  exact Files.replace_of_write_error hwrite

/-- Where a file was replaced the path of its scratch file could be walked. -/
theorem checkText_of_replace {data : Bytes} (h : Files.replace p q data t = .ok () u) :
    checkText q = .ok () := by
  cases htext : checkText q with
  | ok _ => rfl
  | error e => cases h.symm.trans (replace_of_checkText htext p data t)

/-- A path that leads to something can be walked. -/
theorem checkText_of_exists (h : t.exists p = true) : checkText p = .ok () := by
  cases htext : checkText p with
  | ok _ => rfl
  | error e =>
      have hfind : t.find .followed p = .error e := by
        rw [FileTree.find, FileTree.resolve, htext]
        rfl
      rw [FileTree.exists, hfind] at h
      cases h

/-- The steps of a path lead to what exists there. -/
theorem exists_resolveSteps_of_exists (hslash : p.endsWithSlash = false)
    (h : t.exists p = true) : ∃ spot, t.resolveSteps .followed p.steps = .ok spot := by
  have htext := checkText_of_exists h
  cases hspot : t.resolveSteps .followed p.steps with
  | ok spot => exact ⟨spot, rfl⟩
  | error e =>
      simp [FileTree.exists, FileTree.find, FileTree.resolve, htext, Path.demandingSteps, hslash,
        hspot, bind, Except.bind, Except.isOk, Except.toBool] at h

end

end FileTree

end PartitionStore
