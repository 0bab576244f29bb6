import Mathlib.Algebra.GroupWithZero.Nat
import Mathlib.Data.List.Nodup
import PartitionStore.Proofs.FileTree.Existing
import PartitionStore.Proofs.FileTree.FileName

/-!
# `PartitionStore.Proofs.FileTree.FlatSize`: sizes are sums over files

The size at a path is found by going down through the directories there. It is the sum of the
lengths of the regular files at and below the path, each counted once (`IsTotal`). A link is not
followed and counts for nothing, so it makes no difference what it leads to. A file counts as far
as a path that long can be walked: the names that lead to a file have to fit into the room that is
left behind the path (`NamesFit`), which is the same as that the whole path is not too long
(`byteLength_below_le_iff`). Names that are no text count with the bytes that they have.

* `Entries.mem_filesWithin_iff`: the files that are gone through are those that look-ups find.
* `FileBelow.find`: such a file is the one at its path.
* `isTotal_size`: the sum.
-/

set_option autoImplicit false

namespace PartitionStore

/-- The path of the entry that the names, outermost first, lead to below `p`. -/
def Path.below (p : Path) (names : List String) : Path := names.foldl Path.join p

/-- The size is the sum of the lengths of the files that count, each of them counted once. -/
def IsTotal (size : Nat) (counts : List String × Bytes → Prop) : Prop :=
  ∃ files : List (List String × Bytes), files.Nodup ∧ (∀ file, file ∈ files ↔ counts file) ∧
    size = (files.map fun file => file.2.length).sum

/-- The names, outermost first, lead from what is at `p` through directories to a regular file with
these contents. No names lead to `p` itself. Links are not followed, neither one at `p` nor one
behind it. -/
def FileTree.FileBelow (t : FileTree) (p : Path) (file : List String × Bytes) : Prop :=
  ∃ loc node, t.find .itself p = .ok (loc, node) ∧
    t.node? (file.1.reverse ++ loc) = some (.file file.2)

/-- The bytes of the names, a slash before each included. -/
def namesLength (names : List String) : Nat :=
  (names.map fun name => FileName.byteLength name + 1).sum

/-- The names take no more than `room` bytes, a slash before each included. -/
def NamesFit (room : Nat) (names : List String) : Prop := namesLength names ≤ room

/-- The file that a node is. -/
def Node.ownFile : Node → List (List String × Bytes)
  | file data => [([], data)]
  | _ => []

/-- The files in the tree, each with the names that lead to it, as far as these fit. -/
def Entries.filesWithin : Entries → Nat → List (List String × Bytes)
  | none, _ => []
  | entry name node inside rest, room =>
    (if FileName.byteLength name < room then
      (node.ownFile ++ inside.filesWithin (room - (FileName.byteLength name + 1))).map
        fun file => (name :: file.1, file.2)
    else []) ++ rest.filesWithin room

variable {t : FileTree} {p : Path} {loc : Location} {node : Node} {es inside : Entries}
  {name : String} {names : List String} {room : Nat} {data : Bytes}

/-! ### Files in a directory -/

/-- Where there are no names there is nothing that would not fit. -/
theorem namesFit_nil (room : Nat) : NamesFit room [] := Nat.zero_le _

/-- What the first name leaves is for the others. -/
theorem namesFit_cons_iff : NamesFit room (name :: names) ↔ FileName.byteLength name < room ∧
    NamesFit (room - (FileName.byteLength name + 1)) names := by
  simp only [NamesFit, namesLength, List.map_cons, List.sum_cons]
  omega

/-- The bytes of a node are those of its own file, if it is one. -/
theorem Node.size_eq_sum (node : Node) :
    node.size = (node.ownFile.map fun file => file.2.length).sum := by
  cases node <;> simp [Node.size, Node.ownFile]

namespace Entries

/-- The bytes of entries are the sum over their files, by induction on the entries. -/
theorem sizeWithin_eq_sum (es : Entries) (room : Nat) :
    es.sizeWithin room = ((es.filesWithin room).map fun file => file.2.length).sum := by
  induction es generalizing room with
  | none => rfl
  | entry name node inside rest ihInside ihRest =>
      rw [sizeWithin, filesWithin, ihRest, List.map_append, List.sum_append_nat]
      congr 1
      split
      · rw [node.size_eq_sum, ihInside, List.map_map, List.map_append, List.sum_append_nat]
        simp [Function.comp_def]
      · rfl

/-- What is true of the files inside an entry is true of the entry with them. -/
theorem mem_ownFile_append_iff (leaf : node ≠ .dir → inside = none)
    (hinside : (names, data) ∈ inside.filesWithin room ↔
      NamesFit room names ∧ (at? (.dir, inside) names.reverse).map Prod.fst = some (.file data)) :
    (names, data) ∈ node.ownFile ++ inside.filesWithin room ↔
      NamesFit room names ∧ (at? (node, inside) names.reverse).map Prod.fst = some (.file data) := by
  by_cases hdir : node = .dir
  · subst hdir
    simpa [Node.ownFile] using hinside
  · obtain rfl := leaf hdir
    cases names with
    | nil => cases node <;> simp_all [Node.ownFile, filesWithin, namesFit_nil, eq_comm]
    | cons name rest =>
        rw [at?_of_ne_dir hdir none (by simp)]
        cases node <;> simp [Node.ownFile, filesWithin]

/-- The files that are gone through are those that look-ups find, as far as their names fit. -/
theorem mem_filesWithin_iff (wf : es.WellFormed) :
    (names, data) ∈ es.filesWithin room ↔
      NamesFit room names ∧ (at? (.dir, es) names.reverse).map Prod.fst = some (.file data) := by
  induction es generalizing room names with
  | none =>
      cases names with
      | nil => simp [filesWithin]
      | cons name rest => simp [filesWithin, at?_append_singleton]
  | entry name node inside others ihInside ihOthers =>
      obtain ⟨-, after, leaf, hinside, hothers⟩ := wf
      rw [filesWithin, List.mem_append, ihOthers hothers]
      cases names with
      | nil => split <;> simp
      | cons first rest =>
          rw [List.reverse_cons, at?_append_singleton, at?_append_singleton, lookup]
          by_cases hname : name = first
          · -- The names go through this entry, and through none of the others.
            subst hname
            have own := mem_ownFile_append_iff leaf
              (@ihInside rest (room - (FileName.byteLength name + 1)) hinside)
            rw [lookup_of_comeAfter after, if_pos rfl]
            by_cases hroom : FileName.byteLength name < room
            · simp only [namesFit_cons_iff, hroom, true_and]
              simpa using own
            · simp [hroom, namesFit_cons_iff]
          · have hne (file : List String × Bytes) : name :: file.1 ≠ first :: rest :=
              fun e => hname (List.cons.inj e).1
            rw [if_neg hname]
            split <;> simp [hne]

/-- A file has nothing below it, so no file is counted twice for a node. -/
theorem nodup_ownFile_append (leaf : node ≠ .dir → inside = none)
    (h : (inside.filesWithin room).Nodup) : (node.ownFile ++ inside.filesWithin room).Nodup := by
  by_cases hdir : node = .dir
  · subst hdir
    exact h
  · obtain rfl := leaf hdir
    cases node <;> simp [Node.ownFile, filesWithin]

/-- No file is gone through twice. -/
theorem nodup_filesWithin (wf : es.WellFormed) (room : Nat) : (es.filesWithin room).Nodup := by
  induction es generalizing room with
  | none => exact List.nodup_nil
  | entry name node inside others ihInside ihOthers =>
      obtain ⟨-, after, leaf, hinside, hothers⟩ := wf
      have injective : Function.Injective
          fun file : List String × Bytes => (name :: file.1, file.2) := by
        rintro ⟨_, _⟩ ⟨_, _⟩ e
        simpa using e
      rw [filesWithin, List.nodup_append]
      refine ⟨?_, ihOthers hothers room, ?_⟩
      · split
        · exact (nodup_ownFile_append leaf (ihInside hinside _)).map injective
        · exact List.nodup_nil
      · -- The names of the other files start otherwise.
        rintro ⟨names, data⟩ hthis other hother rfl
        obtain ⟨-, hfound⟩ := (mem_filesWithin_iff hothers).1 hother
        split at hthis
        · obtain ⟨file, -, e⟩ := List.mem_map.1 hthis
          obtain ⟨rfl, rfl⟩ := Prod.mk.inj e
          rw [List.reverse_cons, at?_append_singleton, lookup_of_comeAfter after] at hfound
          cases hfound
        · cases hthis

end Entries

/-! ### The paths of files -/

namespace Path

/-- Between a path and a name below it comes a slash, if the path does not end with one. -/
theorem exists_text_join (hp : p.text ≠ "") (hname : isPlainName name = true) :
    ∃ slash, (p.join name).text = p.text ++ slash ++ name ∧ Char.ofNat 0 ∉ slash.toList ∧
      slash.utf8ByteSize + (if p.endsWithSlash then 1 else 0) = 1 := by
  have hempty : p.text.isEmpty = false := by simpa [String.isEmpty_iff] using hp
  rw [join, not_isAbsolute_of_isPlainName hname, if_neg Bool.false_ne_true]
  cases hslash : p.endsWithSlash with
  | true => exact ⟨"", by simp [hempty], by decide, rfl⟩
  | false => exact ⟨"/", by simp [hempty], by decide, rfl⟩

/-- A text below a path leaves a path again if there is room for it, and takes up that room. -/
theorem checkText_join_iff (htext : FileTree.checkText p = .ok ())
    (hplain : isPlainName name = true) (hnul : FileName.mark ∉ name.toList) :
    (FileTree.checkText (p.join name) = .ok () ↔ name.utf8ByteSize < p.room) ∧
      (p.join name).room = p.room - (name.utf8ByteSize + 1) := by
  obtain ⟨hnulPath, hp, hshort⟩ := checkText_eq_ok_iff.1 htext
  obtain ⟨slash, hjoin, hnulSlash, hslash⟩ := exists_text_join hp hplain
  have hsize : (p.join name).text.utf8ByteSize =
      p.text.utf8ByteSize + slash.utf8ByteSize + name.utf8ByteSize := by
    rw [hjoin, String.utf8ByteSize_append, String.utf8ByteSize_append]
  have hnulJoin : Char.ofNat 0 ∉ (p.join name).text.toList := by
    rw [hjoin, String.toList_append, String.toList_append]
    simp only [List.mem_append, hnulPath, hnulSlash, false_or]
    exact hnul
  rw [checkText_eq_ok_iff, room, room, hsize, endsWithSlash_join p hplain]
  refine ⟨?_, by simp only [Bool.false_eq_true, if_false]; omega⟩
  simp only [hnulJoin, text_join_ne p hplain, not_false_eq_true, ne_eq, true_and]
  omega

/-- A name below a path takes its bytes and one for a slash, if the path does not end with one. -/
theorem byteLength_join (whole : FileName.IsWhole p.text) (hp : p.text ≠ "")
    (hname : isEntryName name = true) : FileName.IsWhole (p.join name).text ∧
      FileName.byteLength (p.join name).text + (if p.endsWithSlash then 1 else 0) =
        FileName.byteLength p.text + (FileName.byteLength name + 1) := by
  obtain ⟨slash, hjoin, hnul, hslash⟩ :=
    exists_text_join hp (FileTree.isPlainName_of_isEntryName hname)
  simp only [isEntryName, Bool.and_eq_true] at hname
  have front := whole.append (FileName.isWhole_of_text hnul)
  rw [hjoin]
  refine ⟨front.append (FileName.isWhole_of_isWritten hname.1.2), ?_⟩
  rw [front.byteLength_append, whole.byteLength_append, FileName.byteLength_of_text hnul]
  omega

/-- Names below a path take their bytes and a slash before each. -/
theorem byteLength_below (whole : FileName.IsWhole p.text) (hp : p.text ≠ "")
    (hslash : p.endsWithSlash = false) (hnames : ∀ name ∈ names, isEntryName name = true) :
    FileName.byteLength (p.below names).text =
      FileName.byteLength p.text + namesLength names := by
  induction names generalizing p with
  | nil => rfl
  | cons name rest ih =>
      obtain ⟨hname, hrest⟩ := List.forall_mem_cons.1 hnames
      have hplain := FileTree.isPlainName_of_isEntryName hname
      obtain ⟨whole', hlength⟩ := byteLength_join whole hp hname
      have hbelow := ih whole' (text_join_ne p hplain) (endsWithSlash_join p hplain) hrest
      show FileName.byteLength ((p.join name).below rest).text = _
      simp only [hslash, Bool.false_eq_true, if_false] at hlength
      simp only [namesLength, List.map_cons, List.sum_cons] at hbelow ⊢
      omega

/-- Names fit into the room behind a path if they make no path that is too long. -/
theorem byteLength_below_le_iff (htext : FileTree.checkText p = .ok ())
    (hnames : ∀ name ∈ names, isEntryName name = true) :
    FileName.byteLength (p.below names).text ≤ maxBytes ↔ NamesFit p.room names := by
  obtain ⟨hnul, hp, hshort⟩ := checkText_eq_ok_iff.1 htext
  have hbytes : FileName.byteLength p.text = p.text.utf8ByteSize := FileName.byteLength_of_text hnul
  cases names with
  | nil => exact iff_of_true (hbytes ▸ hshort) (namesFit_nil _)
  | cons name rest =>
      -- The path may end with a slash, and with a name behind it it does not.
      obtain ⟨hname, hrest⟩ := List.forall_mem_cons.1 hnames
      have hplain := FileTree.isPlainName_of_isEntryName hname
      obtain ⟨whole, hlength⟩ := byteLength_join (FileName.isWhole_of_text hnul) hp hname
      have hbelow := byteLength_below whole (text_join_ne p hplain) (endsWithSlash_join p hplain)
        hrest
      show FileName.byteLength ((p.join name).below rest).text ≤ _ ↔ _
      simp only [NamesFit, namesLength, room, List.map_cons, List.sum_cons] at hbelow ⊢
      omega

/-- What is no path is none with names behind it. -/
theorem checkText_of_below (hp : p.text ≠ "") (hnames : ∀ name ∈ names, isEntryName name = true)
    (h : FileTree.checkText (p.below names) = .ok ()) : FileTree.checkText p = .ok () := by
  induction names generalizing p with
  | nil => exact h
  | cons name rest ih =>
      obtain ⟨hname, hrest⟩ := List.forall_mem_cons.1 hnames
      have hplain := FileTree.isPlainName_of_isEntryName hname
      exact checkText_of_join hplain hp (ih (text_join_ne p hplain) hrest h)

end Path

/-! ### Files below a path -/

namespace FileTree

/-- An entry of a directory is found at the path of its name below that of the directory. -/
theorem find_join_entry (hfront : t.resolveSteps .followed p.steps = .ok (.occupied loc .dir))
    (hnode : t.node? (name :: loc) = some node) (htext : checkText (p.join name) = .ok ()) :
    t.find .itself (p.join name) = .ok (name :: loc, node) := by
  have hname := isEntryName_of_node? hnode
  rw [find_join (isPlainName_of_isEntryName hname) htext,
    resolveSteps_down .itself hfront hname fun hne => absurd rfl hne, hnode]
  rfl

/-- What is below something is below a directory, or is that. -/
theorem exists_node?_of_below {inner : Location} (h : t.node? (inner ++ loc) = some node) :
    ∃ node', t.node? loc = some node' ∧ (inner ≠ [] → node' = .dir) := by
  by_cases hinner : inner = []
  · exact ⟨node, by simpa [hinner] using h, fun hne => absurd hinner hne⟩
  · refine ⟨.dir, ?_, fun _ => rfl⟩
    by_contra hdir
    cases (node?_below hdir hinner).symm.trans h

/-- The names that lead to a node are names that entries can have. -/
theorem isEntryName_of_node?_reverse (h : t.node? (names.reverse ++ loc) = some node) :
    ∀ name ∈ names, isEntryName name = true := by
  induction names generalizing loc with
  | nil => simp
  | cons name rest ih =>
      rw [List.reverse_cons, List.append_assoc] at h
      obtain ⟨_, hname, -⟩ := exists_node?_of_below h
      exact List.forall_mem_cons.2 ⟨isEntryName_of_node? hname, ih h⟩

/-- What names lead to below a path is what their path leads to. -/
theorem find_names {node' : Node} (hfind : t.find .itself p = .ok (loc, node))
    (hnode : t.node? (names.reverse ++ loc) = some node')
    (htext : checkText (p.below names) = .ok ()) :
    t.find .itself (p.below names) = .ok (names.reverse ++ loc, node') := by
  induction names generalizing p loc node with
  | nil =>
      cases (node?_of_find hfind).symm.trans hnode
      exact hfind
  | cons name rest ih =>
      have hnames := isEntryName_of_node?_reverse hnode
      obtain ⟨hname, hrest⟩ := List.forall_mem_cons.1 hnames
      obtain ⟨_, hloc, hdir⟩ := exists_node?_of_below hnode
      cases (node?_of_find hfind).symm.trans hloc
      obtain rfl := hdir (by simp)
      rw [List.reverse_cons, List.append_assoc] at hnode ⊢
      obtain ⟨_, hentry, -⟩ := exists_node?_of_below hnode
      have hjoin := Path.checkText_of_below
        (Path.text_join_ne p (isPlainName_of_isEntryName hname)) hrest htext
      exact ih (find_join_entry (resolveSteps_of_find hfind) hentry hjoin) hnode htext

/-- A file below a path is what its own path leads to. -/
theorem FileBelow.find {file : List String × Bytes} (h : t.FileBelow p file)
    (htext : checkText (p.below file.1) = .ok ()) :
    ∃ loc, t.find .itself (p.below file.1) = .ok (loc, .file file.2) := by
  obtain ⟨loc, node, hfind, hnode⟩ := h
  exact ⟨_, find_names hfind hnode htext⟩

/-- Where there is nothing, or a link, there is no size. -/
theorem size_eq_zero_of_link
    (h : ∀ loc node, t.find .itself p = .ok (loc, node) → ∃ target, node = .link target) :
    t.size p = 0 := by
  rw [FileTree.size]
  cases hfind : t.find .itself p with
  | error e => rfl
  | ok found =>
      obtain ⟨loc, node⟩ := found
      obtain ⟨target, rfl⟩ := h loc node hfind
      obtain ⟨⟨node, inside⟩, hat, hnode⟩ := Option.map_eq_some_iff.1 (node?_of_find hfind)
      obtain rfl : node = .link target := hnode
      obtain rfl : inside = .none := (t.wellFormed.at? hat).1 (by simp)
      show t.totalSize p.room loc = 0
      rw [totalSize, hat]
      rfl

/-- The total at a location is the sum over the files there and below whose names fit. -/
theorem isTotal_totalSize (hnode : t.node? loc = some node) (room : Nat) :
    IsTotal (t.totalSize room loc) fun file =>
      NamesFit room file.1 ∧ t.node? (file.1.reverse ++ loc) = some (.file file.2) := by
  obtain ⟨⟨node, inside⟩, hat, -⟩ := Option.map_eq_some_iff.1 hnode
  obtain ⟨leaf, wf⟩ := t.wellFormed.at? hat
  refine ⟨node.ownFile ++ inside.filesWithin room,
    Entries.nodup_ownFile_append leaf (Entries.nodup_filesWithin wf room), ?_, ?_⟩
  · rintro ⟨names, data⟩
    have hbelow : t.node? (names.reverse ++ loc) =
        (Entries.at? (node, inside) names.reverse).map Prod.fst := by
      rw [at?] at hat
      rw [node?, at?, Entries.at?_append, hat]
      rfl
    rw [Entries.mem_ownFile_append_iff leaf (Entries.mem_filesWithin_iff wf), ← hbelow]
  · rw [totalSize, hat, List.map_append, List.sum_append_nat, ← Node.size_eq_sum,
      ← Entries.sizeWithin_eq_sum]

/-- The size at a path is the sum over the files below it whose paths are not too long. -/
theorem isTotal_size (t : FileTree) (p : Path) :
    IsTotal (t.size p) fun file =>
      t.FileBelow p file ∧ FileName.byteLength (p.below file.1).text ≤ Path.maxBytes := by
  rw [FileTree.size]
  cases hfind : t.find .itself p with
  | error e => exact ⟨[], List.nodup_nil, by simp [FileBelow, hfind], rfl⟩
  | ok found =>
      obtain ⟨loc, node⟩ := found
      have htext := (find_eq_ok_iff.1 hfind).1
      obtain ⟨files, nodup, hmem, hsum⟩ := isTotal_totalSize (node?_of_find hfind) p.room
      refine ⟨files, nodup, fun file => (hmem file).trans ?_, hsum⟩
      -- What is below the path is below the location, and names that fit are those of a path.
      constructor
      · rintro ⟨hfits, hfile⟩
        exact ⟨⟨loc, node, hfind, hfile⟩,
          (Path.byteLength_below_le_iff htext (isEntryName_of_node?_reverse hfile)).2 hfits⟩
      · rintro ⟨⟨loc', node', hfind', hfile⟩, hshort⟩
        cases hfind.symm.trans hfind'
        exact ⟨(Path.byteLength_below_le_iff htext (isEntryName_of_node?_reverse hfile)).1 hshort,
          hfile⟩

end FileTree

end PartitionStore
