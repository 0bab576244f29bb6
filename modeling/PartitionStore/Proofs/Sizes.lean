import PartitionStore.Proofs.FileTree.AfterReplacing
import PartitionStore.Proofs.FileTree.FlatSize
import PartitionStore.Proofs.Partition

/-!
# `PartitionStore.Proofs.Sizes`: how large stores and partitions are

What is told as a size is the sum of the lengths of files. Of a store's folder it is the sum over
all regular files below its path (`FileTree.FlatSize`), and of a partition's directory with nothing
in it but the table file it is a sum over the entries: eight bytes for each beside its key and its
value, and twenty-three for header and footer.

The first holds as far as the files have paths that can be walked. The second holds of what a sync
wrote. A sync writes nothing if the partition is not dirty, and the table file may then hold a
record that a later one of the same key overrides, which no sync would have written. So it is asked
of such a file that it has no repeated keys (`Table.IsImageWithoutRepeats`).

* `Table.IsImageWithoutRepeats.length_eq`: how long an image is, whatever the order of its records.
* `isImage_of_sync`: what a sync leaves in the table file.
* `sizes_are_sums`: both sums.
-/

set_option autoImplicit false

namespace PartitionStore

open FileTree PartitionStore.Partition

/-! ### How long an image is -/

/-- Bindings whose keys differ are those of the map made from them, in some order. -/
theorem SortedMap.toList_ofList_perm {κ α : Type} [Ord κ] [Std.TransOrd κ] [Std.LawfulEqOrd κ]
    {bindings : List (κ × α)} (h : bindings.Pairwise fun a b => a.1 ≠ b.1) :
    (ofList bindings).toList.Perm bindings := by
  classical
  have distinct {l : List (κ × α)} (h : l.Pairwise fun a b => a.1 ≠ b.1) : l.Nodup :=
    h.imp fun hne e => hne (congrArg Prod.fst e)
  refine (List.perm_ext_iff_of_nodup (distinct (ofList bindings).keys_ne) (distinct h)).2 ?_
  rintro ⟨key, value⟩
  have hreverse : bindings.reverse.Pairwise fun a b => a.1 ≠ b.1 :=
    List.pairwise_reverse.2 (h.imp fun hne e => hne e.symm)
  rw [mem_toList_iff, get?_ofList, lookup_eq_some_iff hreverse, List.mem_reverse]

namespace Table

/-- The bytes are an image of the table, and no key has two records in it. -/
def IsImageWithoutRepeats (bytes : Bytes) (table : Table) : Prop :=
  ∃ block entries padding,
    bytes = header table.format table.entries.size ++
        (block ++ LittleEndian.toBytes 4 (Checksum.crc32 block).toNat) ++ padding ∧
      IsBlock block entries ∧ (entries.Pairwise fun a b => a.1 ≠ b.1) ∧
      table.entries = SortedMap.ofList entries ∧ padding.length = 4

/-- The bytes of an image that has one record for each of the entries. -/
def imageSize (entries : SortedMap Bytes Bytes) : Nat :=
  23 + (entries.toList.map fun entry => 8 + entry.1.length + entry.2.length).sum

variable {table : Table} {bytes : Bytes}

/-- Such an image has the bytes of the table's keys and values, eight more for each entry, and
those of header and footer. -/
theorem IsImageWithoutRepeats.length_eq (h : IsImageWithoutRepeats bytes table) :
    bytes.length = imageSize table.entries := by
  obtain ⟨block, entries, padding, rfl, isBlock, distinct, hentries, fourBytes⟩ := h
  obtain ⟨rfl, -⟩ := isBlock_iff.1 isBlock
  have hsum : (block entries).length =
      (entries.map fun entry => 8 + entry.1.length + entry.2.length).sum := by
    rw [length_block, List.sum_eq_foldr, List.foldr_map]
  rw [imageSize, hentries, ((SortedMap.toList_ofList_perm distinct).map _).sum_nat, ← hsum]
  simp only [List.length_append, length_header, LittleEndian.length_toBytes, fourBytes]
  omega

/-- So has what is written for the table. -/
theorem isImageWithoutRepeats_image (fits : ∀ entry ∈ table.entries.toList, Fits entry) :
    IsImageWithoutRepeats table.image table :=
  ⟨block table.entries.toList, table.entries.toList, [0, 0, 0, 0], by simp [image, footer],
    isBlock_block fits, table.entries.keys_ne, (SortedMap.ofList_toList _).symm, rfl⟩

end Table

variable {t u : FileTree} {dir : Path} {loc : Location} {name : String} {data : Bytes}
  {part part' : Partition} {dirty : Bool}

/-! ### Directories with one file -/

/-- A directory with nothing in it but a file is as large as the file. -/
theorem size_of_children_eq (hdir : t.find .itself dir = .ok (loc, .dir))
    (only : t.children loc = [(name, .file data)]) (htext : checkText (dir.join name) = .ok ()) :
    t.size dir = data.length := by
  obtain ⟨es, hat⟩ := at?_of_node?_dir (node?_of_find hdir)
  have hname : isEntryName name = true :=
    isEntryName_of_node?
      ((mem_children_iff (node?_of_find hdir)).1 (only ▸ List.mem_singleton_self _))
  have hplain := isPlainName_of_isEntryName hname
  have hnul : FileName.mark ∉ name.toList := by
    obtain ⟨slash, hjoin, -⟩ := Path.exists_text_join
      (Path.checkText_eq_ok_iff.1 (find_eq_ok_iff.1 hdir).1).2.1 hplain
    have hpath := (Path.checkText_eq_ok_iff.1 htext).1
    rw [hjoin, String.toList_append] at hpath
    exact fun hmem => hpath (List.mem_append_right _ hmem)
  have hroom := (Path.checkText_join_iff (find_eq_ok_iff.1 hdir).1 hplain hnul).1.1 htext
  rw [← FileName.byteLength_of_text hnul] at hroom
  rw [FileTree.size, hdir]
  show t.totalSize dir.room loc = _
  rw [FileTree.children, hat] at only
  rw [totalSize, hat]
  -- The entries of the directory are those of the list, and nothing is below a file.
  cases es with
  | none => cases only
  | entry n node inside rest =>
      obtain ⟨-, -, leaf, -⟩ := (t.wellFormed.at? hat).2
      obtain ⟨hentry, hrest⟩ := List.cons.inj only
      cases hentry
      obtain rfl := leaf (by simp)
      cases rest with
      | none => simp [Entries.sizeWithin, Node.size, hroom]
      | entry => cases hrest

/-! ### Partitions after a sync -/

/-- A sync that succeeds writes the table if the partition is dirty, and otherwise nothing. -/
theorem sync_cases (hstorage : part.storage = .table dir dirty)
    (hsync : part.sync t = .ok part' u) :
    (∃ dirty', part'.storage = .table dir dirty') ∧
      if dirty = true then ∃ size, part.table.write (tableFile dir) t = .ok size u else u = t := by
  rw [Partition.sync_eq] at hsync
  split at hsync
  · cases hsync
  rw [Partition.flush_eq, hstorage] at hsync
  cases dirty with
  | false =>
      cases hsync
      exact ⟨⟨false, hstorage⟩, by simp⟩
  | true =>
      obtain ⟨size, v, hwrite, hpure⟩ := Action.bind_eq_ok_iff.1 hsync
      cases hpure
      exact ⟨⟨false, rfl⟩, by simpa using ⟨size, hwrite⟩⟩

/-- The table file is an image of the partition's table after a sync, if it is a regular file. -/
theorem isImage_of_sync (hstorage : part.storage = .table dir dirty)
    (clean : dirty = false → ∃ bytes, t.read (tableFile dir) = .ok bytes ∧
      Table.IsImageWithoutRepeats bytes part.table)
    (hsync : part.sync t = .ok part' u) (hdir : u.find .itself dir = .ok (loc, .dir))
    (hfile : u.node? (tableFileName :: loc) = some (.file data)) :
    checkText (tableFile dir) = .ok () ∧ Table.IsImageWithoutRepeats data part.table := by
  have hfront := resolveSteps_of_find hdir
  obtain ⟨-, hdone⟩ := sync_cases hstorage hsync
  cases dirty with
  | true =>
      obtain ⟨size, hwrite⟩ := by simpa using hdone
      obtain ⟨fits, v, hscratch, hrename⟩ := Table.exists_of_write_ok hwrite
      rw [scratchFile_tableFile] at hscratch hrename
      obtain ⟨htext, rfl⟩ := file_of_replaced (by decide) (by decide) (by decide) hscratch hrename
        hfront hfile
      exact ⟨htext, Table.isImageWithoutRepeats_image fits⟩
  | false =>
      obtain rfl : u = t := by simpa using hdone
      obtain ⟨bytes, hread, himage⟩ := clean rfl
      obtain ⟨htext, loc', hled⟩ :=
        (read_eq_ok_iff (Path.endsWithSlash_join dir (by decide))).1 hread
      have hdown := resolveSteps_down .followed hfront (isEntryName_of_node? hfile)
        fun _ target => by simp [hfile]
      rw [Path.steps_join (by decide), hdown, hfile] at hled
      cases hled
      exact ⟨htext, himage⟩

theorem size_of_sync (hstorage : part.storage = .table dir dirty)
    (clean : dirty = false → ∃ bytes, t.read (tableFile dir) = .ok bytes ∧
      Table.IsImageWithoutRepeats bytes part.table)
    (hsync : part.sync t = .ok part' u) (hdir : u.find .itself dir = .ok (loc, .dir))
    (only : u.children loc = [(tableFileName, .file data)]) :
    part'.size u = Table.imageSize part.entries := by
  have hfile := (mem_children_iff (node?_of_find hdir)).1 (only ▸ List.mem_singleton_self _)
  obtain ⟨htext, himage⟩ := isImage_of_sync hstorage clean hsync hdir hfile
  obtain ⟨⟨_, hstorage'⟩, -⟩ := sync_cases hstorage hsync
  rw [Partition.size, hstorage']
  exact (size_of_children_eq hdir only htext).trans himage.length_eq

/-! ### Sizes are sums -/

/-- The size of a folder is the sum of the lengths of the regular files below its path, as far as
their paths are not too long. The size of a partition whose directory has nothing in it but a table
file is, after a sync, what its entries take in one, if they were written or the table file was an
image of them without repeated keys. -/
theorem sizes_are_sums :
    (∀ (t : FileTree) (d : StoreFolder),
      (IsTotal (d.size t) fun file =>
        t.FileBelow d.path file ∧
          FileName.byteLength (d.path.below file.1).text ≤ Path.maxBytes) ∧
      ((∀ loc node, t.find .itself d.path = .ok (loc, node) → ∃ target, node = .link target) →
        d.size t = 0)) ∧
    ∀ (t u : FileTree) (part part' : Partition) (dir : Path) (dirty : Bool) (loc : Location)
      (data : Bytes), part.storage = .table dir dirty →
      (dirty = false → ∃ bytes, t.read (tableFile dir) = .ok bytes ∧
        Table.IsImageWithoutRepeats bytes part.table) →
      part.sync t = .ok part' u → u.find .itself dir = .ok (loc, .dir) →
      u.children loc = [(tableFileName, .file data)] →
      part'.size u = Table.imageSize part.entries := by
  exact ⟨fun t d => ⟨isTotal_size t d.path, size_eq_zero_of_link⟩,
    fun t u part part' dir dirty loc data => size_of_sync⟩

/-- A directory with nothing in it but a table file with these bytes. -/
def tableTree (bytes : Bytes) : FileTree :=
  (FileTree.empty.place [] "p" .dir).place ["p"] tableFileName (.file bytes)

/-- A partition in that directory with one entry. -/
def smallPartition (dirty : Bool) : Partition :=
  ⟨0, .blockBased, SortedMap.ofList [([97], [98, 99])], .table ⟨"p"⟩ dirty, false⟩

/-- The table of one entry takes 34 bytes once it was written over another one, and so it does
where there is nothing to write. -/
theorem sizes_of_small :
    (∃ part u data, (smallPartition true).sync (tableTree []) = .ok part u ∧
      u.find .itself ⟨"p"⟩ = .ok (["p"], .dir) ∧
      u.children ["p"] = [(tableFileName, .file data)] ∧ part.size u = 34) ∧
    ∃ t data, (smallPartition false).sync t = .ok (smallPartition false) t ∧
      t.find .itself ⟨"p"⟩ = .ok (["p"], .dir) ∧
      t.children ["p"] = [(tableFileName, .file data)] ∧ (smallPartition false).size t = 34 := by
  have hsize (dirty : Bool) : Table.imageSize (smallPartition dirty).entries = 34 := by
    cases dirty <;> decide +kernel
  constructor
  · have hrun : Action.succeedsWith (smallPartition true).sync (tableTree []) (fun _ u =>
        decide (u.find .itself ⟨"p"⟩ = .ok (["p"], .dir) ∧
          u.children ["p"] = [(tableFileName, .file (smallPartition true).table.image)])) = true := by
      decide +kernel
    obtain ⟨part, u, hsync, hcheck⟩ := Action.exists_of_succeedsWith hrun
    obtain ⟨hdir, only⟩ := of_decide_eq_true hcheck
    exact ⟨part, u, _, hsync, hdir, only, (sizes_are_sums.2 _ u (smallPartition true) part ⟨"p"⟩
      true ["p"] _ rfl (by simp) hsync hdir only).trans (hsize true)⟩
  · let t := tableTree (smallPartition false).table.image
    have hread : t.read (tableFile ⟨"p"⟩) = .ok (smallPartition false).table.image := by
      decide +kernel
    have himage := @Table.isImageWithoutRepeats_image (smallPartition false).table (by decide)
    have hdir : t.find .itself ⟨"p"⟩ = .ok (["p"], .dir) := by decide +kernel
    have only : t.children ["p"] = [(tableFileName, .file (smallPartition false).table.image)] := by
      decide +kernel
    exact ⟨t, _, rfl, hdir, only, (sizes_are_sums.2 t t (smallPartition false) (smallPartition false)
      ⟨"p"⟩ false ["p"] _ rfl (fun _ => ⟨_, hread, himage⟩) rfl hdir only).trans (hsize false)⟩

/-- A file whose path is two bytes too long. -/
def remoteTree : FileTree := (FileTree.empty.place [] "s" .dir).place ["s"] "f" (.file [120])

/-- A table file with two records of one key. -/
def repeatedImage : Bytes :=
  let block := Table.block [([97], [98]), ([97], [99])]
  Table.header .blockBased 1 ++ block ++ Table.footer block

/-- Neither do files count whose paths are too long, nor does a sync that has nothing to write
make the table file any shorter. -/
theorem not_sizes_are_all_sums :
    (∃ d, StoreFolder.named (Path.dots 2046) "s" = .ok d ∧
      ¬IsTotal (d.size remoteTree) (remoteTree.FileBelow d.path)) ∧
    ∃ part, openTable ⟨"p"⟩ ⟨"s", 0, .blockBased⟩ (tableTree repeatedImage) =
        .ok part (tableTree repeatedImage) ∧
      part.sync (tableTree repeatedImage) = .ok part (tableTree repeatedImage) ∧
      (tableTree repeatedImage).find .itself ⟨"p"⟩ = .ok (["p"], .dir) ∧
      (tableTree repeatedImage).children ["p"] = [(tableFileName, .file repeatedImage)] ∧
      part.size (tableTree repeatedImage) ≠ Table.imageSize part.entries := by
  constructor
  · have lead := remoteTree.leadsTo_dots (n := 2046) (by decide)
    have htext := Path.checkText_of_hasRoom lead.room
    -- There is room for a slash and the store's name, and for nothing else.
    obtain ⟨hfits, hroom⟩ :=
      Path.checkText_join_iff htext (by decide : Path.isPlainName "s" = true) (by decide)
    have htwo : (Path.dots 2046).room = 2 := by
      rw [Path.room, lead.room.noSlash, Path.size_dots]
      rfl
    rw [htwo] at hfits hroom
    have hfind := find_join_entry lead.resolveSteps
      (by decide : remoteTree.node? ["s"] = some .dir) (hfits.2 (by decide))
    refine ⟨⟨Path.dots 2046, "s", by decide⟩, rfl, ?_⟩
    have hsize : remoteTree.size ((Path.dots 2046).join "s") = 0 := by
      rw [FileTree.size, hfind]
      show remoteTree.totalSize ((Path.dots 2046).join "s").room ["s"] = 0
      rw [hroom]
      decide
    rintro ⟨files, -, hmem, hsum⟩
    have hfile : (["f"], [120]) ∈ files := (hmem _).2 ⟨["s"], .dir, hfind, by decide⟩
    have hpos : 0 < (files.map fun file => file.2.length).sum :=
      List.sum_pos_iff_exists_pos_nat.2 ⟨1, List.mem_map.2 ⟨_, hfile, rfl⟩, by decide⟩
    exact Nat.ne_of_gt hpos (hsum.symm.trans hsize)
  · have hread : (tableTree repeatedImage).read (tableFile ⟨"p"⟩) = .ok repeatedImage := by
      decide +kernel
    have himage : Table.ofImage repeatedImage =
        .ok ⟨.blockBased, SortedMap.ofList [([97], [98]), ([97], [99])]⟩ := by decide +kernel
    have hopen := openTable_of_read ⟨"s", 0, .blockBased⟩ hread
    rw [himage] at hopen
    exact ⟨_, hopen, rfl, by decide +kernel, by decide +kernel, by decide +kernel⟩

end PartitionStore
