import PartitionStore.Proofs.Engine.Sparing
import PartitionStore.Proofs.FileTree.Ways
import PartitionStore.Proofs.Respects

/-!
# `PartitionStore.Proofs.StoreFolder.Neighbours`: what a store can tell of others

Stores under one root share nothing but the way to it. What a store can tell of a tree is then what
is in its own folder, and how that way is: all there, or with something missing on it, or blocked
(`StoreFolder.Alike`). What it does to a tree is confined to the same (`StoreFolder.Confined`). It
changes its folder, and makes what is missing on the way.

`StoreFolder.InStep` puts the two together, for the operations of a store to respect: trees that are
alike give the same answers, stay alike, and are changed in no other place. This goes for paths that
lead to the folder or into it (`StoreFolder.Below`).

* `Alike.find`, `Alike.list`, `Alike.size`: what is found by a path of the store.
* `Rooted.changed`: changes in the folder, and of these `Rooted.clear`, `Rooted.prune`,
  `Rooted.place` and `Rooted.move`.
* `InStep.rooted_of_made`: the root is made.
* `Alike.of_confined`: what a store does makes no difference to another one.
-/

set_option autoImplicit false

namespace PartitionStore

open FileTree Naming PartitionStore.Action

/-! ### Two trees that are the same to a store -/

namespace StoreFolder

/-- The way to the root does not lead to the folder or into it. -/
def Apart (d : StoreFolder) : Prop := ∀ l, OnWay d.root l → ¬d.place <:+ l

/-- The path of the folder, or of something with these names below it. -/
structure Below (d : StoreFolder) (p : Path) (names : List String) : Prop where
  steps : p.steps = d.path.steps ++ names.map Step.down
  noSlash : p.endsWithSlash = false

/-- Wherever the steps pass is on the way to the root, or is the folder or in it. -/
def Covers (d : StoreFolder) (steps : List Step) : Prop :=
  ∀ front, front <+: steps →
    OnWay d.root (Location.follow front) ∨ d.place <:+ Location.follow front

/-- The way to the root is there in both trees, or open in both with no folder at its end, or it is
blocked in both. -/
inductive SameWay (d : StoreFolder) (t u : FileTree) : Prop
  | there (apart : d.Apart) (dirs : ∀ l, OnWay d.root l → t.node? l = some .dir)
      (dirs' : ∀ l, OnWay d.root l → u.node? l = some .dir)
  | missing (apart : d.Apart) (isOpen : t.OpenWay d.path.steps) (isOpen' : u.OpenWay d.path.steps)
      (absent : t.node? d.place = none) (absent' : u.node? d.place = none)
  | blocked (e : IoError) (blocked : t.BlockedWay d.root.steps e)
      (blocked' : u.BlockedWay d.root.steps e)

/-- Two trees without links that are the same to the store: its folder is the same in both, and so
is what becomes of the way there. -/
structure Alike (d : StoreFolder) (t u : FileTree) : Prop where
  free : t.LinkFree []
  free' : u.LinkFree []
  same : ∀ l, d.place <:+ l → u.node? l = t.node? l
  way : d.SameWay t u

/-- From `t` to `u` nothing changed but in the folder, and what was missing on the way to the root
may have been made, unless that way is blocked. -/
structure Confined (d : StoreFolder) (t u : FileTree) : Prop where
  outside : ∀ l, ¬d.place <:+ l →
    u.node? l = t.node? l ∨ OnWay d.root l ∧ t.node? l = none ∧ u.node? l = some .dir
  onWay : ∀ l, OnWay d.root l →
    u.node? l = t.node? l ∨ t.node? l = none ∧ u.node? l = some .dir
  blocked : ∀ e, t.BlockedWay d.root.steps e → u = t

/-- Two runs of a store are in step. The first one began with the tree `start`. -/
structure InStep (d : StoreFolder) (start t u : FileTree) : Prop where
  alike : d.Alike t u
  confined : d.Confined start t

/-- Two runs of a store are in step, and its root is there in both. -/
structure Rooted (d : StoreFolder) (start t u : FileTree) : Prop extends d.InStep start t u where
  apart : d.Apart
  dirs : ∀ l, OnWay d.root l → t.node? l = some .dir
  dirs' : ∀ l, OnWay d.root l → u.node? l = some .dir

variable {d o : StoreFolder} {start t t' u u' : FileTree} {p q : Path} {names others : List String}
  {l loc parent : Location} {steps : List Step} {last : LastLink} {name : String} {node : Node}
  {spot : Spot} {e : IoError} {id : Int32}

/-! ### Paths of a store -/

/-- The way to the folder is the way to the root, and one step down from there. -/
theorem path_steps (d : StoreFolder) : d.path.steps = d.root.steps ++ [.down d.store] :=
  Path.steps_join (isPlainName_of_isStoreName d.isStoreName)

/-- Where no link is in the way, the path of the folder ends in its place. -/
theorem follow_path (d : StoreFolder) : Location.follow d.path.steps = d.place := by
  rw [path_steps, Location.follow, List.foldl_append]
  rfl

/-- On the way to the folder are those on the way to the root, and the folder itself. -/
theorem onWay_path_iff : OnWay d.path l ↔ OnWay d.root l ∨ l = d.place := by
  constructor
  · rintro ⟨front, hfront, rfl⟩
    rw [path_steps, List.prefix_concat_iff, ← path_steps] at hfront
    rcases hfront with rfl | hfront
    · exact .inr d.follow_path
    · exact .inl ⟨front, hfront, rfl⟩
  · rintro (⟨front, hfront, rfl⟩ | rfl)
    · exact ⟨front, d.path_steps ▸ hfront.trans (List.prefix_append _ _), rfl⟩
    · exact ⟨_, List.prefix_refl _, d.follow_path.symm⟩

/-- The path of the folder has no names below it. -/
theorem below_path (d : StoreFolder) : d.Below d.path [] :=
  ⟨by simp, Path.endsWithSlash_join _ (isPlainName_of_isStoreName d.isStoreName)⟩

/-- One more name leads one step further down. -/
theorem Below.join (below : d.Below p names) (hname : Path.isPlainName name = true) :
    d.Below (p.join name) (names ++ [name]) :=
  ⟨by rw [Path.steps_join hname, below.steps]; simp, Path.endsWithSlash_join _ hname⟩

/-- The directory of a partition is one name below the folder. -/
theorem below_partitionPath (d : StoreFolder) (id : Int32) :
    d.Below (d.partitionPath id) [dirName d.store id] :=
  d.below_path.join (d.isPlainName_dir id)

/-- To go down by names is to put them before the location, the last one first. -/
theorem follow_downs (names : List String) (l : Location) :
    (names.map Step.down).foldl Location.step l = names.reverse ++ l := by
  induction names generalizing l with
  | nil => rfl
  | cons name rest ih =>
      rw [List.map_cons, List.foldl_cons, ih, List.reverse_cons, List.append_assoc]
      rfl

/-- What covers the way of some steps covers that of the first of them. -/
theorem Covers.of_front (covers : d.Covers steps) {front : List Step} (h : front <+: steps) :
    d.Covers front := fun front' hfront' => covers front' (hfront'.trans h)

/-- The steps that stay may be left out. -/
theorem Covers.proper (covers : d.Covers p.steps) : d.Covers p.properSteps := by
  intro front hfront
  obtain ⟨front', hfront', rfl⟩ := List.prefix_filter_iff.1 hfront
  rw [follow_filter]
  exact covers front' hfront'

namespace Below

variable (below : d.Below p names)
include below

/-- A path below the folder ends below its place, by its names. -/
theorem follow_eq : Location.follow p.steps = names.reverse ++ d.place := by
  rw [below.steps, Location.follow, List.foldl_append, follow_downs]
  exact congrArg (names.reverse ++ ·) d.follow_path

/-- So it ends in the folder. -/
theorem place_suffix : d.place <:+ Location.follow p.steps :=
  below.follow_eq ▸ List.suffix_append _ _

/-- A path below the folder has no closing slash, and so demands nothing at its end. -/
theorem demandingSteps : p.demandingSteps = p.steps := by
  rw [Path.demandingSteps, below.noSlash]
  rfl

/-- On its way such a path passes through the way to the root, then the folder and what is in it. -/
theorem covers : d.Covers p.steps := by
  rintro front ⟨rest, hrest⟩
  rw [below.steps, path_steps, List.append_assoc, List.singleton_append] at hrest
  rcases List.append_eq_append_iff.1 hrest with ⟨more, hroot, -⟩ | ⟨more, rfl, hmore⟩
  · exact .inl ⟨front, ⟨more, hroot.symm⟩, rfl⟩
  · -- The front goes beyond the root: to the folder first, if anywhere.
    cases more with
    | nil => exact .inl ⟨_, List.prefix_refl _, by rw [List.append_nil]⟩
    | cons step more =>
        rw [List.cons_append] at hmore
        obtain ⟨rfl, hnames⟩ := List.cons.inj hmore
        obtain ⟨front', _, rfl, rfl, -⟩ := List.map_eq_append_iff.1 hnames
        right
        rw [Location.follow, List.foldl_append, List.foldl_cons, follow_downs]
        exact List.suffix_append _ _

end Below

/-! ### Looking -/

/-- What is found by a path below the folder is where its steps lead. -/
theorem Below.find_eq (below : d.Below p names) (t : FileTree) (last : LastLink) :
    t.find last p = (do
      checkText p
      match ← t.resolveSteps last p.steps with
      | .occupied loc node => .ok (loc, node)
      | .vacant _ _ => .error .notFound) := by
  rw [find, FileTree.resolve, below.demandingSteps]
  cases checkText p <;> rfl

/-- Nothing is found in a folder that is not there, at the end of an open way. -/
theorem Below.find_of_missing (below : d.Below p names) (isOpen : t.OpenWay d.path.steps)
    (absent : t.node? d.place = none) (last : LastLink) :
    t.find last p = (checkText p >>= fun _ => .error .notFound) := by
  rw [← d.follow_path] at absent
  rw [below.find_eq]
  cases names with
  | nil =>
      rw [below.steps, List.map_nil, List.append_nil]
      rcases isOpen.resolveSteps_of_none absent last with hspot | ⟨parent, name, hspot⟩
      · rw [hspot]
        rfl
      · rw [hspot]
        rfl
  | cons name names =>
      rw [below.steps, isOpen.resolveSteps_append absent (by simp)]
      rfl

/-- Behind a blocked way nothing is found either. -/
theorem Below.resolveSteps_of_blocked (below : d.Below p names)
    (blocked : t.BlockedWay d.root.steps e) (last : LastLink) :
    t.resolveSteps last p.steps = .error e := by
  rw [below.steps, path_steps, List.append_assoc]
  exact blocked.refused last _ (by simp)

/-- So a path below the folder fails as the way to the root does. -/
theorem Below.find_of_blocked (below : d.Below p names) (blocked : t.BlockedWay d.root.steps e)
    (last : LastLink) : t.find last p = (checkText p >>= fun _ => .error e) := by
  rw [below.find_eq, below.resolveSteps_of_blocked blocked]
  rfl

/-- Where the root is there the steps to what is in the folder lead to the same. -/
theorem Covers.resolveSteps (covers : d.Covers steps) (free : t.LinkFree [])
    (dirs : ∀ l, OnWay d.root l → t.node? l = some .dir)
    (dirs' : ∀ l, OnWay d.root l → u.node? l = some .dir)
    (same : ∀ l, d.place <:+ l → u.node? l = t.node? l) (last : LastLink) :
    u.resolveSteps last steps = t.resolveSteps last steps := by
  refine resolveSteps_congr free (fun front hfront => ?_) last
  rcases covers front hfront with hway | hin
  · rw [dirs _ hway, dirs' _ hway]
  · exact same _ hin

namespace Alike

/-- What is below the folder is reached in the same way. -/
theorem resolveSteps (h : d.Alike t u) (below : d.Below p names) (hne : names ≠ [])
    (last : LastLink) : u.resolveSteps last p.steps = t.resolveSteps last p.steps := by
  cases h.way with
  | there _ dirs dirs' => exact below.covers.resolveSteps h.free dirs dirs' h.same last
  | missing _ isOpen isOpen' absent absent' =>
      rw [← d.follow_path] at absent absent'
      rw [below.steps, isOpen.resolveSteps_append absent (by simpa using hne),
        isOpen'.resolveSteps_append absent' (by simpa using hne)]
  | blocked e blocked blocked' =>
      rw [below.resolveSteps_of_blocked blocked, below.resolveSteps_of_blocked blocked']

/-- By a path of the store the same is found in both trees: where the root is there because the
folder is the same, and else because nothing is found for the same reason. -/
theorem find (h : d.Alike t u) (below : d.Below p names) (last : LastLink) :
    u.find last p = t.find last p := by
  cases h.way with
  | there _ dirs dirs' =>
      rw [below.find_eq, below.find_eq,
        below.covers.resolveSteps h.free dirs dirs' h.same last]
  | missing _ isOpen isOpen' absent absent' =>
      rw [below.find_of_missing isOpen absent, below.find_of_missing isOpen' absent']
  | blocked e blocked blocked' =>
      rw [below.find_of_blocked blocked, below.find_of_blocked blocked']

/-- What is found is in the folder. -/
theorem place_suffix_of_find (h : d.Alike t u) (below : d.Below p names)
    (hfind : t.find last p = .ok (loc, node)) : d.place <:+ loc := by
  have hspot := (find_eq_ok_iff.1 hfind).2
  rw [below.demandingSteps] at hspot
  rw [show loc = _ from loc_eq_follow h.free hspot]
  exact below.place_suffix

/-- Below a location in the folder the trees are the same. -/
theorem same_below (h : d.Alike t u) (hloc : d.place <:+ loc) (l : Location) (hl : loc <:+ l) :
    u.node? l = t.node? l := h.same l (hloc.trans hl)

/-- A path of the store leads to something in both trees or in neither. -/
theorem «exists» (h : d.Alike t u) (below : d.Below p names) : u.exists p = t.exists p := by
  rw [FileTree.exists, FileTree.exists, h.find below]

/-- A path of the store leads to a directory in both trees or in neither. -/
theorem isDir (h : d.Alike t u) (below : d.Below p names) : u.isDir p = t.isDir p := by
  rw [FileTree.isDir, FileTree.isDir, h.find below]

/-- The same bytes are read by a path of the store. -/
theorem read (h : d.Alike t u) (below : d.Below p names) : u.read p = t.read p := by
  rw [FileTree.read, FileTree.read, h.find below]

/-- A directory of the store has the same entries in both trees. -/
theorem list (h : d.Alike t u) (below : d.Below p names) : u.list p = t.list p := by
  rw [FileTree.list, FileTree.list, h.find below]
  cases hfind : t.find .followed p with
  | error e => rfl
  | ok found =>
      obtain ⟨loc, node⟩ := found
      have hloc := h.place_suffix_of_find below hfind
      cases node with
      | dir =>
          show Except.ok _ = Except.ok _
          rw [children_congr (h.same_below hloc)]
      | file | link => rfl

/-- What a path of the store leads to takes as many bytes in both trees: these are bytes of files
below it. -/
theorem size (h : d.Alike t u) (below : d.Below p names) : u.size p = t.size p := by
  rw [FileTree.size, FileTree.size, h.find below]
  cases hfind : t.find .itself p with
  | error e => rfl
  | ok found =>
      obtain ⟨loc, node⟩ := found
      exact totalSize_congr (h.same_below (h.place_suffix_of_find below hfind)) _

end Alike

/-! ### Changes in the folder -/

/-- Where nothing changed there is nothing outside the folder that did. -/
theorem Confined.refl (d : StoreFolder) (t : FileTree) : d.Confined t t :=
  ⟨fun _ _ => .inl rfl, fun _ _ => .inl rfl, fun _ _ => rfl⟩

namespace Rooted

/-- The runs stay in step if the same becomes of the folder in both trees, and nothing else
changes. -/
theorem changed (h : d.Rooted start t u)
    (only : ∀ l, ¬d.place <:+ l → t'.node? l = t.node? l)
    (only' : ∀ l, ¬d.place <:+ l → u'.node? l = u.node? l)
    (same : ∀ l, d.place <:+ l → u'.node? l = t'.node? l)
    (links : ∀ l target, d.place <:+ l → t'.node? l ≠ some (.link target)) :
    d.Rooted start t' u' := by
  have hdirs (l : Location) (hl : OnWay d.root l) : t'.node? l = some .dir :=
    (only l (h.apart l hl)).trans (h.dirs l hl)
  have hdirs' (l : Location) (hl : OnWay d.root l) : u'.node? l = some .dir :=
    (only' l (h.apart l hl)).trans (h.dirs' l hl)
  have alike : d.Alike t' u' := by
    refine ⟨fun l target _ => ?_, fun l target _ => ?_, same, .there h.apart hdirs hdirs'⟩
    · by_cases hl : d.place <:+ l
      · exact links l target hl
      · exact only l hl ▸ h.alike.free l target List.nil_suffix
    · by_cases hl : d.place <:+ l
      · exact same l hl ▸ links l target hl
      · exact only' l hl ▸ h.alike.free' l target List.nil_suffix
  refine ⟨⟨alike, fun l hl => ?_, fun l hl => ?_, fun e hblocked => ?_⟩, h.apart, hdirs, hdirs'⟩
  · rw [only l hl]
    exact h.confined.outside l hl
  · rw [only l (h.apart l hl)]
    exact h.confined.onWay l hl
  · rw [← h.confined.blocked e hblocked] at hblocked
    exact absurd (forall_onWay_iff.1 h.dirs) hblocked.not_dirs

/-- In the folder the trees are the same. -/
theorem same_of_in (h : d.Rooted start t u) (hloc : d.place <:+ loc) :
    u.node? loc = t.node? loc := h.alike.same loc hloc

/-- A directory of the store is cleared in both trees. -/
theorem clear (h : d.Rooted start t u) (hloc : d.place <:+ loc) :
    d.Rooted start (t.clear loc) (u.clear loc) := by
  have hout {l : Location} (hl : ¬d.place <:+ l) : ¬(loc <:+ l ∧ l ≠ loc) := fun hin =>
    hl (hloc.trans hin.1)
  refine h.changed (fun l hl => ?_) (fun l hl => ?_) (fun l hl => ?_) fun l target hl => ?_
  · rw [node?_clear, if_neg (hout hl)]
  · rw [node?_clear, if_neg (hout hl)]
  · rw [node?_clear, node?_clear, h.alike.same l hl]
  · rw [node?_clear]
    split
    · simp
    · exact h.alike.free l target List.nil_suffix

/-- A node of the store's folder is removed from both trees. -/
theorem prune (h : d.Rooted start t u) (hloc : d.place <:+ loc) :
    d.Rooted start (t.prune loc) (u.prune loc) := by
  obtain ⟨name, parent, rfl⟩ : ∃ name parent, loc = name :: parent :=
    List.exists_cons_of_ne_nil (List.ne_nil_of_length_pos
      (Nat.lt_of_lt_of_le (Nat.succ_pos _) hloc.length_le))
  have hout {l : Location} (hl : ¬d.place <:+ l) : ¬name :: parent <:+ l := fun hin =>
    hl (hloc.trans hin)
  refine h.changed (fun l hl => ?_) (fun l hl => ?_) (fun l hl => ?_) fun l target hl => ?_
  · rw [node?_prune_cons, if_neg (hout hl)]
  · rw [node?_prune_cons, if_neg (hout hl)]
  · rw [node?_prune_cons, node?_prune_cons, h.alike.same l hl]
  · rw [node?_prune_cons]
    split
    · simp
    · exact h.alike.free l target List.nil_suffix

/-- A file or directory is put into the folder in both trees. A link is not, as it might lead to
anywhere. -/
theorem place (h : d.Rooted start t u) (hloc : d.place <:+ name :: parent)
    (usable : isEntryName name = true) (hparent : t.node? parent = some .dir)
    (hparent' : u.node? parent = some .dir) (hfree : t.node? (name :: parent) ≠ some .dir)
    (hlink : ∀ target, node ≠ .link target) :
    d.Rooted start (t.place parent name node) (u.place parent name node) := by
  have hself : (t.place parent name node).node? (name :: parent) = some node :=
    node?_place_self usable hparent hfree
  have hself' : (u.place parent name node).node? (name :: parent) = some node :=
    node?_place_self usable hparent' (h.same_of_in hloc ▸ hfree)
  have hne {l : Location} (hl : ¬d.place <:+ l) : l ≠ name :: parent := fun e => hl (e ▸ hloc)
  refine h.changed (fun l hl => ?_) (fun l hl => ?_) (fun l hl => ?_) fun l target hl => ?_
  · exact node?_place_of_ne _ _ _ _ (hne hl)
  · exact node?_place_of_ne _ _ _ _ (hne hl)
  · by_cases hl' : l = name :: parent
    · rw [hl', hself, hself']
    · rw [node?_place_of_ne _ _ _ _ hl', node?_place_of_ne _ _ _ _ hl', h.same_of_in hl]
  · by_cases hl' : l = name :: parent
    · rw [hl', hself]
      simpa using hlink target
    · rw [node?_place_of_ne _ _ _ _ hl']
      exact h.alike.free l target List.nil_suffix

/-- A node of the folder is moved inside it in both trees. -/
theorem move (h : d.Rooted start t u) (hloc : d.place <:+ loc)
    (hnew : d.place <:+ name :: parent) (usable : isEntryName name = true)
    (hparent : t.node? parent = some .dir) (hparent' : u.node? parent = some .dir)
    (hold : ¬loc <:+ parent) (hthere : t.node? loc ≠ none) :
    d.Rooted start (t.move loc parent name) (u.move loc parent name) := by
  have hthere' : u.node? loc ≠ none := h.same_of_in hloc ▸ hthere
  have pruned := h.prune hloc
  have hout {l : Location} (hl : ¬d.place <:+ l) : ¬name :: parent <:+ l := fun hin =>
    hl (hnew.trans hin)
  -- Outside the new place the two trees are what they are after the old place was emptied.
  refine pruned.changed (fun l hl => ?_) (fun l hl => ?_) (fun l hl => ?_) fun l target hl => ?_
  · exact node?_move_of_not_suffix usable hthere (hout hl)
  · exact node?_move_of_not_suffix usable hthere' (hout hl)
  · by_cases hl' : name :: parent <:+ l
    · obtain ⟨inner, rfl⟩ := hl'
      rw [node?_move usable hparent hold hthere, node?_move usable hparent' hold hthere']
      exact h.same_of_in (hloc.trans (List.suffix_append _ _))
    · rw [node?_move_of_not_suffix usable hthere hl', node?_move_of_not_suffix usable hthere' hl']
      exact pruned.same_of_in hl
  · by_cases hl' : name :: parent <:+ l
    · obtain ⟨inner, rfl⟩ := hl'
      rw [node?_move usable hparent hold hthere]
      exact h.alike.free _ target List.nil_suffix
    · rw [node?_move_of_not_suffix usable hthere hl']
      exact pruned.alike.free _ target List.nil_suffix

end Rooted

/-! ### The way to the root -/

/-- Below a folder that is not there is nothing. -/
theorem node?_of_absent (absent : t.node? d.place = none) (hl : d.place <:+ l) :
    t.node? l = none := by
  obtain ⟨inner, rfl⟩ := hl
  by_cases hinner : inner = []
  · rw [hinner]
    exact absent
  · exact node?_below (by simp [absent]) hinner

/-- What of the folder was made is the folder itself. -/
theorem node?_of_made (apart : d.Apart) (grown : GrownAt (OnWay d.path) t t')
    (absent : t.node? d.place = none) (dirs : ∀ l, OnWay d.path l → t'.node? l = some .dir)
    (hl : d.place <:+ l) : t'.node? l = if l = d.place then some .dir else none := by
  split
  · rename_i hplace
    exact dirs l (onWay_path_iff.2 (.inr hplace))
  · rename_i hne
    rcases grown l with hsame | ⟨-, -, hway⟩
    · exact hsame.trans (node?_of_absent absent hl)
    · rcases onWay_path_iff.1 hway with hroot | hplace
      · exact absurd hl (apart l hroot)
      · exact absurd hplace hne

/-- Once the way to the folder was made in both trees, the root is there. -/
theorem InStep.rooted_of_made (h : d.InStep start t u) (apart : d.Apart)
    (isOpen : t.OpenWay d.path.steps) (absent : t.node? d.place = none)
    (absent' : u.node? d.place = none) (grown : GrownAt (OnWay d.path) t t')
    (grown' : GrownAt (OnWay d.path) u u')
    (dirs : ∀ l, OnWay d.path l → t'.node? l = some .dir)
    (dirs' : ∀ l, OnWay d.path l → u'.node? l = some .dir) : d.Rooted start t' u' := by
  have hroot (l : Location) (hl : OnWay d.root l) : OnWay d.path l := onWay_path_iff.2 (.inl hl)
  have alike : d.Alike t' u' := by
    refine ⟨h.alike.free.congr grown.grown.sameLinks, h.alike.free'.congr grown'.grown.sameLinks,
      fun l hl => ?_, .there apart (fun l hl => dirs l (hroot l hl))
        fun l hl => dirs' l (hroot l hl)⟩
    rw [node?_of_made apart grown absent dirs hl, node?_of_made apart grown' absent' dirs' hl]
  refine ⟨⟨alike, fun l hl => ?_, fun l hl => ?_, fun e hblocked => ?_⟩, apart,
    fun l hl => dirs l (hroot l hl), fun l hl => dirs' l (hroot l hl)⟩
  · rcases grown l with hsame | ⟨hnone, hdir, hway⟩
    · exact hsame ▸ h.confined.outside l hl
    · have hway' := (onWay_path_iff.1 hway).resolve_right fun e => hl (e ▸ List.suffix_refl _)
      rcases h.confined.outside l hl with hsame | ⟨-, -, hdir'⟩
      · exact .inr ⟨hway', hsame ▸ hnone, hdir⟩
      · cases hnone.symm.trans hdir'
  · rcases grown l with hsame | ⟨hnone, hdir, -⟩
    · exact hsame ▸ h.confined.onWay l hl
    · rcases h.confined.onWay l hl with hsame | ⟨-, hdir'⟩
      · exact .inr ⟨hsame ▸ hnone, hdir⟩
      · cases hnone.symm.trans hdir'
  · rw [← h.confined.blocked e hblocked] at hblocked
    exact absurd (d.path_steps ▸ isOpen) (hblocked.not_openWay _)

/-! ### What another store does -/

/-- The folders of two stores are not one in the other. -/
theorem not_place_suffix (hroot : o.root = d.root) (hstore : o.store ≠ d.store)
    (hl : d.place <:+ l) : ¬o.place <:+ l := by
  intro hl'
  rw [StoreFolder.place, hroot] at hl'
  rcases List.suffix_or_suffix_of_suffix hl hl' with h | h
  · exact hstore (List.cons.inj (h.eq_of_length rfl)).1.symm
  · exact hstore (List.cons.inj (h.eq_of_length rfl)).1

/-- What a store does makes no difference to another one under the same root. -/
theorem Alike.of_confined (h : d.Alike t u) (hroot : o.root = d.root) (hstore : o.store ≠ d.store)
    (confined : o.Confined t t') (free : t'.LinkFree []) : d.Alike t' u := by
  -- What the other one made on the way is not in this folder, since the way does not lead there.
  have hin (apart : d.Apart) (l : Location) (hl : d.place <:+ l) : t'.node? l = t.node? l :=
    (confined.outside l (not_place_suffix hroot hstore hl)).resolve_right fun hmade =>
      apart l (hroot ▸ hmade.1) hl
  have hsame (apart : d.Apart) (l : Location) (hl : d.place <:+ l) : u.node? l = t'.node? l :=
    (h.same l hl).trans (hin apart l hl).symm
  have hway (l : Location) (hl : OnWay d.root l) := confined.onWay l (hroot.symm ▸ hl)
  cases h.way with
  | there apart dirs dirs' =>
      refine ⟨free, h.free', hsame apart, .there apart (fun l hl => ?_) dirs'⟩
      rcases hway l hl with hsame | ⟨-, hdir⟩
      · exact hsame.trans (dirs l hl)
      · exact hdir
  | missing apart isOpen isOpen' absent absent' =>
      refine ⟨free, h.free', hsame apart, .missing apart ⟨isOpen.usable, fun front hfront => ?_⟩
        isOpen' ((hin apart _ (List.suffix_refl _)).trans absent) absent'⟩
      rcases onWay_path_iff.1 ⟨front, hfront, rfl⟩ with hroot | hplace
      · rcases hway _ hroot with hsame | ⟨-, hdir⟩
        · exact hsame ▸ isOpen.clear front hfront
        · exact .inr hdir
      · rw [hplace, hin apart _ (List.suffix_refl _)]
        exact .inl absent
  | blocked e blocked blocked' =>
      -- The way of the other one is the same, so that it could not do anything.
      rw [confined.blocked e (hroot.symm ▸ blocked)]
      exact h

end StoreFolder

end PartitionStore
