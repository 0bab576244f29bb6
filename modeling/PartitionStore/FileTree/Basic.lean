import PartitionStore.FileTree.Entries

/-!
# `PartitionStore.FileTree.Basic`: directories, files and symbolic links

A file tree is what its top directory holds, in good order. The top itself is
always there, at the location `[]`.

An operation on a tree fails for what the tree holds and for how long names and
paths are. What else a disk may refuse an operation for is left out: there are
no owners and permissions, no limits on open files, space or entries, and no
failing device. There are no files of other kinds either, and no hard links: a
file is at one location. Names are strings of bytes, also those in the targets
of links, and need not be texts (`FileTree.FileName`); a path that an operation
is given is a text.

Four changes generate all others: `place` puts a node into a directory,
`prune` removes a node with everything below it, `clear` removes what is
below a directory, and `move` gives a node, with everything below it, another
place. Each is described by what it does to `node?`, and `ext_node?` says that
nothing else is to be known of a tree.

* `node?_place_self`, `node?_place_of_ne`, `node?_prune`, `node?_clear`,
  `node?_move`, `node?_move_of_not_suffix`: what each change does.
* `node?_parent_of_node?`: a node hangs in a directory.
* `mem_children_iff`: exactly the entries of a directory are listed.
-/

set_option autoImplicit false

namespace PartitionStore

/-- A file tree: the entries of its top directory. -/
structure FileTree where
  top : Entries
  /-- Names are usable and in order, and only directories hold anything. -/
  wellFormed : top.WellFormed

namespace FileTree

/-- The tree with nothing in it. -/
def empty : FileTree := ⟨.none, trivial⟩

instance : Inhabited FileTree := ⟨empty⟩

/-! ### Look-up -/

/-- What is at a location: the node, with what is below it. -/
def at? (t : FileTree) (loc : Location) : Option (Node × Entries) := Entries.at? (.dir, t.top) loc

/-- The node at a location. -/
def node? (t : FileTree) (loc : Location) : Option Node := (t.at? loc).map Prod.fst

/-- The entries of the directory at a location, in the order of their names. -/
def children (t : FileTree) (loc : Location) : List (String × Node) :=
  match t.at? loc with
  | some (_, es) => es.toList
  | none => []

/-- All nodes, except the top, with their locations. -/
def toList (t : FileTree) : List (Location × Node) := t.top.nodesBelow []

/-- The bytes of the file at a location, or of all files below it as far as the
names that lead to them take no more than `room` bytes, a slash before each
included. Links are not followed and hold nothing. -/
def totalSize (t : FileTree) (room : Nat) (loc : Location) : Nat :=
  match t.at? loc with
  | some (node, es) => node.size + es.sizeWithin room
  | none => 0

/-- At the top is a directory with the tree's entries. -/
@[simp] theorem at?_nil (t : FileTree) : t.at? [] = some (.dir, t.top) := rfl

/-- The top is a directory. -/
@[simp] theorem node?_nil (t : FileTree) : t.node? [] = some .dir := rfl

/-- An entry is looked up in the directory above. -/
theorem at?_cons (t : FileTree) (name : String) (parent : Location) :
    t.at? (name :: parent) =
      match t.at? parent with
      | some (.dir, es) => es.lookup name
      | _ => none := rfl

/-- The entry `name` of a directory is looked up among the directory's entries. -/
theorem node?_cons_of_at? {t : FileTree} {parent : Location} {es : Entries}
    (h : t.at? parent = some (.dir, es)) (name : String) :
    t.node? (name :: parent) = (es.lookup name).map Prod.fst := by
  rw [node?, at?_cons, h]

/-- A directory has entries, if only none. -/
theorem at?_of_node?_dir {t : FileTree} {loc : Location} (h : t.node? loc = some .dir) :
    ∃ es, t.at? loc = some (.dir, es) := by
  obtain ⟨⟨node, es⟩, hat, hnode⟩ := Option.map_eq_some_iff.1 h
  cases hnode
  exact ⟨es, hat⟩

/-- Look-ups determine the tree. -/
theorem ext_node? {t u : FileTree} (h : ∀ loc, t.node? loc = u.node? loc) : t = u := by
  have : t.top = u.top := Entries.eq_of_node_at? t.wellFormed u.wellFormed h
  cases t
  cases u
  simpa using this

/-- A node hangs in a directory. -/
theorem node?_parent_of_node? {t : FileTree} {name : String} {parent : Location} {node : Node}
    (h : t.node? (name :: parent) = some node) : t.node? parent = some .dir := by
  obtain ⟨there, hat, -⟩ := Option.map_eq_some_iff.1 h
  obtain ⟨es, hparent, -⟩ := Entries.at?_parent hat
  exact Option.map_eq_some_iff.2 ⟨_, hparent, rfl⟩

/-- What is there has a name that an entry can have. -/
theorem isEntryName_of_node? {t : FileTree} {name : String} {parent : Location} {node : Node}
    (h : t.node? (name :: parent) = some node) : isEntryName name = true := by
  obtain ⟨there, hat, -⟩ := Option.map_eq_some_iff.1 h
  obtain ⟨es, hparent, hname⟩ := Entries.at?_parent hat
  exact ((t.wellFormed.at? hparent).2.lookup hname).1

/-- Exactly the entries of a directory are listed. -/
theorem mem_children_iff {t : FileTree} {loc : Location} (h : t.node? loc = some .dir)
    {name : String} {node : Node} :
    (name, node) ∈ t.children loc ↔ t.node? (name :: loc) = some node := by
  obtain ⟨es, hat⟩ := at?_of_node?_dir h
  rw [children, hat, node?_cons_of_at? hat]
  exact (t.wellFormed.at? hat).2.mem_toList_iff

/-! ### Changes -/

/-- Puts `node` into the directory at `parent` under `name`, in the place of a
file or link of that name. Where that makes no sense (no directory there, an
unusable name, a directory in the way) the tree stays as it is. -/
def place (t : FileTree) (parent : Location) (name : String) (node : Node) : FileTree :=
  if h : isEntryName name = true ∧ t.node? (name :: parent) ≠ some .dir then
    ⟨t.top.changeAt (·.insert name node .none) parent,
      t.wellFormed.changeAt fun _ hes => hes.insert h.1 (fun _ => rfl) trivial⟩
  else t

/-- Removes everything below `loc`. -/
def clear (t : FileTree) (loc : Location) : FileTree :=
  ⟨t.top.changeAt (fun _ => .none) loc, t.wellFormed.changeAt fun _ _ => trivial⟩

/-- Removes the node at `loc` and everything below it. The top stays and is cleared. -/
def prune (t : FileTree) : Location → FileTree
  | [] => t.clear []
  | name :: parent =>
    ⟨t.top.changeAt (·.erase name) parent, t.wellFormed.changeAt fun _ hes => hes.erase⟩

/-- Moves the node at `old`, with everything below it, to `name` in the
directory at `parent`, in the place of what is there. -/
def move (t : FileTree) (old parent : Location) (name : String) : FileTree :=
  match h : t.at? old with
  | none => t
  | some there =>
    if hname : isEntryName name = true then
      ⟨(t.prune old).top.changeAt (·.insert name there.1 there.2) parent,
        (t.prune old).wellFormed.changeAt fun _ hes =>
          hes.insert hname (t.wellFormed.at? h).1 (t.wellFormed.at? h).2⟩
    else t

/-! ### What the changes do to look-ups -/

/-- What inserting an entry into a directory does to look-ups elsewhere. -/
theorem node_insert_of_not_suffix {es : Entries} {parent : Location} {name : String}
    {node : Node} {inside : Entries} {loc : Location} (h : ¬name :: parent <:+ loc) :
    (Entries.at? (.dir, es.changeAt (·.insert name node inside) parent) loc).map Prod.fst =
      (Entries.at? (.dir, es) loc).map Prod.fst := by
  by_cases hp : parent <:+ loc
  · obtain ⟨inner, rfl⟩ := hp
    rcases List.eq_nil_or_concat inner with rfl | ⟨inner, x, rfl⟩
    · simp [Entries.at?_changeAt_self, Function.comp_def]
    · have hx : x ≠ name := by
        rintro rfl
        exact h ⟨inner, by simp⟩
      rw [Entries.at?_changeAt_below, Entries.at?_append, List.concat_eq_append]
      cases Entries.at? (.dir, es) parent with
      | none => rfl
      | some there =>
        obtain ⟨m, i⟩ := there
        cases m <;>
          simp [Entries.applyInside, Entries.at?_append, Entries.at?_cons,
            Entries.lookup_insert_of_ne hx]
  · exact Entries.node_changeAt_of_not_suffix _ hp es

/-- Placing changes no other location. -/
theorem node?_place_of_ne (t : FileTree) (parent : Location) (name : String) (node : Node)
    {loc : Location} (h : loc ≠ name :: parent) :
    (t.place parent name node).node? loc = t.node? loc := by
  unfold place
  split
  · rename_i hplace
    by_cases hs : name :: parent <:+ loc
    · -- Below the new node there is nothing, and there was nothing before.
      obtain ⟨inner, rfl⟩ := hs
      have hinner : inner ≠ [] := by
        rintro rfl
        exact h rfl
      have before : t.node? (inner ++ name :: parent) = none := by
        rw [node?, at?, Entries.at?_append]
        cases hat : Entries.at? (.dir, t.top) (name :: parent) with
        | none => rfl
        | some there =>
          have hdir : there.1 ≠ .dir := fun e => hplace.2 (by simp [node?, at?, hat, e])
          simp [Entries.at?_of_ne_dir hdir there.2 hinner]
      have after : ∀ here : Node, Entries.at? (here, .none) inner = none := fun here => by
        rcases List.eq_nil_or_concat inner with rfl | ⟨inner, x, rfl⟩
        · exact absurd rfl hinner
        · rw [List.concat_eq_append, Entries.at?_append]
          cases here <;> rfl
      rw [before, node?, at?, Entries.at?_append, Entries.at?_cons, Entries.at?_changeAt_self]
      cases hat : Entries.at? (.dir, t.top) parent with
      | none => rfl
      | some there =>
        obtain ⟨m, i⟩ := there
        cases m <;> simp [Entries.applyInside, Entries.lookup_insert_self, after]
    · exact node_insert_of_not_suffix hs
  · rfl

/-- Where placing makes sense the node is there afterwards. -/
theorem node?_place_self {t : FileTree} {parent : Location} {name : String} {node : Node}
    (hname : isEntryName name = true) (hparent : t.node? parent = some .dir)
    (hold : t.node? (name :: parent) ≠ some .dir) :
    (t.place parent name node).node? (name :: parent) = some node := by
  obtain ⟨es, hat⟩ := at?_of_node?_dir hparent
  rw [place, dif_pos ⟨hname, hold⟩, node?, at?, Entries.at?_cons, Entries.at?_changeAt_self]
  rw [at?] at hat
  simp [hat, Entries.applyInside, Entries.lookup_insert_self]

/-- Clearing removes exactly what is strictly below the location. -/
theorem node?_clear (t : FileTree) (loc l : Location) :
    (t.clear loc).node? l = if loc <:+ l ∧ l ≠ loc then none else t.node? l := by
  rw [node?, at?, clear]
  by_cases hs : loc <:+ l
  · obtain ⟨inner, rfl⟩ := hs
    rw [Entries.at?_changeAt_below, node?, at?, Entries.at?_append]
    rcases List.eq_nil_or_concat inner with rfl | ⟨inner, x, rfl⟩
    · cases Entries.at? (.dir, t.top) loc <;> simp
    · have hne : inner.concat x ++ loc ≠ loc := fun e => by
        have := congrArg List.length e
        rw [List.length_append, List.length_concat] at this
        omega
      rw [if_pos ⟨List.suffix_append .., hne⟩, List.concat_eq_append]
      cases Entries.at? (.dir, t.top) loc with
      | none => rfl
      | some there =>
        obtain ⟨m, i⟩ := there
        cases m <;> simp [Entries.applyInside, Entries.at?_append, Entries.at?_cons]
  · rw [if_neg fun h => hs h.1]
    exact Entries.node_changeAt_of_not_suffix _ hs _

/-- Pruning removes exactly what is at or below the location. -/
theorem node?_prune (t : FileTree) (loc l : Location) (h : l ≠ []) :
    (t.prune loc).node? l = if loc <:+ l then none else t.node? l := by
  cases loc with
  | nil => rw [prune, node?_clear, if_pos ⟨List.nil_suffix .., h⟩, if_pos (List.nil_suffix ..)]
  | cons name parent =>
    rw [node?, at?, prune]
    by_cases hp : parent <:+ l
    · -- Only what lies inside `parent` can change: there the name decides.
      obtain ⟨inner, rfl⟩ := hp
      rw [Entries.at?_changeAt_below, node?, at?, Entries.at?_append]
      rcases List.eq_nil_or_concat inner with rfl | ⟨inner, x, rfl⟩
      · have : ¬name :: parent <:+ [] ++ parent := fun hs => by
          have := hs.length_le
          rw [List.nil_append, List.length_cons] at this
          omega
        rw [if_neg this]
        cases Entries.at? (.dir, t.top) parent <;> simp
      · have split : inner.concat x ++ parent = inner ++ (x :: parent) := by simp
        by_cases hx : x = name
        · subst hx
          rw [if_pos (split ▸ List.suffix_append ..), List.concat_eq_append]
          cases Entries.at? (.dir, t.top) parent with
          | none => rfl
          | some there =>
            obtain ⟨m, i⟩ := there
            cases m <;> simp [Entries.applyInside, Entries.at?_append, Entries.at?_cons,
              Entries.lookup_erase_self]
        · have : ¬name :: parent <:+ inner.concat x ++ parent := by
            rw [split]
            rintro ⟨front, e⟩
            exact hx (List.cons.inj (List.append_inj_right' e rfl)).1.symm
          rw [if_neg this, List.concat_eq_append]
          cases Entries.at? (.dir, t.top) parent with
          | none => rfl
          | some there =>
            obtain ⟨m, i⟩ := there
            cases m <;> simp [Entries.applyInside, Entries.at?_append, Entries.at?_cons,
              Entries.lookup_erase_of_ne hx]
    · have : ¬name :: parent <:+ l := fun hs => hp ((List.suffix_cons ..).trans hs)
      rw [if_neg this]
      exact Entries.node_changeAt_of_not_suffix _ hp _

/-- What was at and below the old location is at and below the new one. -/
theorem node?_move {t : FileTree} {old parent : Location} {name : String}
    (hname : isEntryName name = true) (hparent : t.node? parent = some .dir)
    (hold : ¬old <:+ parent) (hthere : t.node? old ≠ none) (inner : Location) :
    (t.move old parent name).node? (inner ++ name :: parent) = t.node? (inner ++ old) := by
  unfold move
  split
  · rename_i h
    exact absurd (by simp [node?, h]) hthere
  · rename_i there h
    have dir : (t.prune old).node? parent = some .dir := by
      by_cases hnil : parent = []
      · rw [hnil, node?_nil]
      · rw [node?_prune _ _ _ hnil, if_neg hold, hparent]
    obtain ⟨es, hes⟩ := at?_of_node?_dir dir
    rw [at?] at hes h
    rw [dif_pos hname, node?, at?, Entries.at?_append, Entries.at?_cons,
      Entries.at?_changeAt_self, hes, node?, at?, Entries.at?_append, h]
    simp [Entries.applyInside, Entries.lookup_insert_self]

/-- Moving changes nothing else than that the old place is empty. -/
theorem node?_move_of_not_suffix {t : FileTree} {old parent : Location} {name : String}
    (hname : isEntryName name = true) (hthere : t.node? old ≠ none) {l : Location}
    (h : ¬name :: parent <:+ l) : (t.move old parent name).node? l = (t.prune old).node? l := by
  unfold move
  split
  · rename_i hnone
    exact absurd (by simp [node?, hnone]) hthere
  · rw [dif_pos hname]
    exact node_insert_of_not_suffix h

end FileTree

end PartitionStore
