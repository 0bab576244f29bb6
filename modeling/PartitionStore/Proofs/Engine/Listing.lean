import PartitionStore.Proofs.Engine.Again
import PartitionStore.Proofs.StoreFolder.ReachedAt

/-!
# `PartitionStore.Proofs.Engine.Listing`: an opening leaves on disk what it opened

An engine that opens all partitions opens those that are listed, and it makes the directories that
are missing: that of the metadata partition, and those of partitions that were misread. So a listing
of the folder afterwards finds just the partitions that the engine has open. That the record is kept
then makes no difference to it, nor that the engine is closed: it has nothing to be written.

Each partition that is opened is entered into the registry, and has its directory in the folder by
then (`Enrolled`).

* `Enrolled.attach`: one partition.
* `enrolled_of_openAll`: all of them.
* `idsOnDisk_of_open`: what is on disk after an opening is what was opened.
-/

set_option autoImplicit false

namespace PartitionStore

open FileTree Naming PartitionStore.Partition StoreFolder

/-- The partitions of the registry were opened in a folder that was as in `t`. They have directories
now, and are listed besides those that were listed before. They have nothing to be written. -/
structure Enrolled (d : StoreFolder) (loc : Location) (t : FileTree) (host : Host)
    (registry : List (Int32 × Handle)) : Prop where
  reached : d.ReachedAt loc host.tree
  dirs : ∀ id ∈ registry.map Prod.fst, host.tree.node? (dirName d.store id :: loc) = some .dir
  lists : ∀ id, d.Lists host.tree loc id ↔ d.Lists t loc id ∨ id ∈ registry.map Prod.fst
  clean : ∀ entry ∈ registry, ∃ part, host.partitions[entry.2]? = some part ∧ part.Clean

variable {d : StoreFolder} {c : EngineSettings} {loc : Location} {t u : FileTree}
  {host host' : Host} {registry : List (Int32 × Handle)} {id : Int32} {handle : Handle} {e : Engine}

/-! ### Opening partitions -/

/-- A folder is left where it is by what is done in a slot. -/
theorem StoreFolder.ReachedAt.of_filled {s : Slot} (reached : d.ReachedAt loc t)
    (filled : s.Filled (dirName d.store id :: loc) t u)
    (grows : (Slot.of t (dirName d.store id :: loc)).Grows s) : d.ReachedAt loc u := by
  have hlinks (l : Location) (hl : u.node? l ≠ t.node? l) (target : Path) :
      t.node? l ≠ some (.link target) :=
    reached.free l target ((List.suffix_cons ..).trans (filled.of_changed grows hl).1)
  exact reached.frame
    (.of_changed fun l hl target => ⟨(filled.of_changed grows hl).2.2 target, hlinks l hl target⟩)
    fun l hl => takesFile_of_ne (filled.of_changed grows hl).2.1 (hlinks l hl)

/-- With a directory in its slot one more partition is listed, and no other one. -/
theorem StoreFolder.lists_of_filled {s : Slot} {i : Int32}
    (filled : s.Filled (dirName d.store id :: loc) t u)
    (hdir : u.node? (dirName d.store id :: loc) = some .dir) :
    d.Lists u loc i ↔ d.Lists t loc i ∨ i = id := by
  have hsame {name : String} (hne : name ≠ dirName d.store id) :
      u.node? (name :: loc) = t.node? (name :: loc) := by
    refine filled.same _ fun hhas => ?_
    rcases hhas with e | e | e
    · exact hne (List.cons.inj e).1
    · exact absurd (congrArg List.length e) (by simp)
    · exact absurd (congrArg List.length e) (by simp)
  constructor
  · rintro ⟨name, hread, hname⟩
    by_cases hne : name = dirName d.store id
    · rw [hne, FileName.reading_of_text (d.mark_not_mem_dirName id)] at hread
      exact .inr (dirName_injective hread).symm
    · exact .inl ⟨name, hread, hsame hne ▸ hname⟩
  · rintro (⟨name, hread, hname⟩ | rfl)
    · by_cases hne : name = dirName d.store id
      · exact ⟨name, hread, hne ▸ hdir⟩
      · exact ⟨name, hread, (hsame hne).trans hname⟩
    · exact lists_of_dir hdir

/-- One more partition was opened. It has a directory now, whether it had one before or not. -/
theorem Enrolled.attach (enrolled : Enrolled d loc t host registry) (hstore : c.store = d.store)
    (h : Backend.table.attach d (c.spec id) host = .ok handle host') :
    Enrolled d loc t host' (registry ++ [(id, handle)]) := by
  obtain ⟨reached, dirs, lists, clean⟩ := enrolled
  obtain ⟨v, filled, hanswer⟩ := opensTo_openIn reached.way (d.isPlainName_dir id)
    (reached.free.cons _) (c.spec id)
  rw [Backend.attach_table hstore] at h
  cases hopening : ((Slot.of host.tree (dirName d.store id :: loc)).openIn
      (d.path.join (dirName d.store id)) (dirName d.store id) (c.spec id)).1 with
  | error e =>
      rw [hopening] at hanswer
      cases h.symm.trans (HostAction.register_of_error hanswer)
  | ok entries =>
      rw [hopening] at hanswer
      cases h.symm.trans (HostAction.register_of_ok hanswer)
      have hdir : v.node? (dirName d.store id :: loc) = some .dir :=
        (congrArg Slot.dir filled.slot).trans (Slot.dir_openIn hopening)
      refine ⟨reached.of_filled filled (Slot.grows_openIn ..), fun i hi => ?_, fun i => ?_,
        fun entry hentry => ?_⟩
      · by_cases hid : i = id
        · exact hid ▸ hdir
        · -- The directories of the others are in no place of this slot.
          refine (filled.same _ fun hhas => hid (eq_of_has (.inl rfl) hhas)).trans (dirs i ?_)
          simpa [hid] using hi
      · rw [List.map_append, List.mem_append, ← or_assoc, ← lists i, lists_of_filled filled hdir]
        simp
      · rcases List.mem_append.1 hentry with hold | hnew
        · obtain ⟨part, hpart, hclean⟩ := clean entry hold
          obtain ⟨hlt, -⟩ := List.getElem?_eq_some_iff.1 hpart
          exact ⟨part, (List.getElem?_append_left hlt).trans hpart, hclean⟩
        · rw [List.mem_singleton.1 hnew]
          exact ⟨_, List.getElem?_concat_length, fun dir => by simp⟩

/-- What the opening of each partition keeps, if it succeeds, the opening of all of them keeps. -/
theorem inv_of_openAll {b : Backend} (inv : Host → List (Int32 × Handle) → Prop)
    {found : List Int32} (hids : b.idsOnDisk d host = .ok found host)
    (step : ∀ id ∈ c.restored found, ∀ host h host' before, inv host before →
      b.attach d (c.spec id) host = .ok h host' → inv host' (before ++ [(id, h)]))
    (start : inv host []) (h : Restore.openAll b d c host = .ok registry host') :
    inv host' registry ∧ registry.map Prod.fst = c.restored found := by
  rw [Restore.openAll_of_idsOnDisk hids] at h
  obtain ⟨first, host₁, hfirst, h⟩ := Action.bind_eq_ok_iff.1 h
  obtain ⟨second, host₂, hsecond, hlast⟩ := Action.bind_eq_ok_iff.1 h
  cases hlast
  rw [EngineSettings.restored] at step ⊢
  -- The metadata partition is opened first, and the data partitions go on from there.
  have hmetadata : inv host₁ first ∧
      first.map Prod.fst = if c.withMetadata then [metadataId] else [] := by
    split at hfirst
    · rename_i hset
      rw [if_pos hset] at step ⊢
      exact inv_of_openStretch inv (fun id hid => step id (List.mem_append_left _ hid)) start hfirst
    · rename_i hset
      cases hfirst
      rw [if_neg hset]
      exact ⟨start, rfl⟩
  rw [List.map_append, hmetadata.2]
  split at hsecond
  · rename_i hset
    rw [if_pos hset] at step ⊢
    have hall := inv_of_openStretches inv (fun id hid => by
      rw [flatten_stretches] at hid
      exact step id (List.mem_append_right _ hid)) hmetadata.1 hsecond
    rw [flatten_stretches] at hall
    exact ⟨hall.1, by rw [hall.2]⟩
  · rename_i hset
    cases hsecond
    rw [if_neg hset, List.append_nil]
    exact ⟨hmetadata.1, rfl⟩

/-- All partitions of a folder are opened: the metadata partition, and those that are found. -/
theorem enrolled_of_openAll (reached : d.ReachedAt loc host.tree) (hstore : c.store = d.store)
    (h : Restore.openAll Backend.table d c host = .ok registry host') :
    Enrolled d loc host.tree host' registry ∧
      ∀ id, id ∈ registry.map Prod.fst ↔ c.Restores id ∧
        (id = metadataId ∨ d.Lists host.tree loc id) := by
  obtain ⟨found, hfound, -, hmem⟩ := idsOnDisk_of_find reached.find reached.isDir
  have hids : Backend.table.idsOnDisk d host = .ok found host := HostAction.onTree_of_ok hfound
  have start : Enrolled d loc host.tree host [] := ⟨reached, by simp, by simp, by simp⟩
  obtain ⟨enrolled, hregistry⟩ := inv_of_openAll (Enrolled d loc host.tree) hids
    (fun _ _ _ _ _ _ enrolled => enrolled.attach hstore) start h
  exact ⟨enrolled, fun id => by rw [hregistry, EngineSettings.mem_restored_iff, hmem]⟩

/-! ### The whole opening -/

/-- The ids of the open partitions are those of the registry, in ascending order. -/
theorem Engine.openIds_eq {ids : List Int32} (hascending : ids.Pairwise (compare · · = .lt))
    (hmem : ∀ id, id ∈ e.registry.map Prod.fst ↔ id ∈ ids) : e.openIds = ids :=
  SortedMap.keys_eq_of_mem_iff (SortedMap.keys_ascending _) hascending fun id =>
    Engine.mem_openIds_iff.trans (hmem id)

/-- An engine that is to open all partitions comes up with those that are on disk then. To close it
changes nothing. -/
theorem idsOnDisk_of_open (hkind : c.backend = .table) (hmetadata : c.withMetadata = true)
    (hdata : c.withData = true)
    (clear : ∀ d, StoreFolder.named c.root c.store = .ok d → d.ClearOfLinks host.tree)
    (h : Engine.open c host = .ok e host') :
    e.folder.idsOnDisk host'.tree = .ok e.openIds host'.tree ∧
      ∃ closed, EngineAction.close ⟨e, host'⟩ = .ok () closed ∧ closed.host.tree = host'.tree := by
  obtain ⟨d, t, registry, host₁, u, hnamed, hprepare, hall, hkeep, rfl, rfl⟩ := exists_of_open h
  obtain ⟨loc, reached⟩ := (clear d hnamed).reachedAt_of_prepare hprepare
  rw [hkind] at hall
  obtain ⟨⟨reached', dirs, lists, clean⟩, hregistry⟩ :=
    @enrolled_of_openAll _ _ _ ⟨t, host.partitions⟩ _ _ reached (store_of_named hnamed).2 hall
  have hmem (id : Int32) : id ∈ registry.map Prod.fst ↔ d.Lists host₁.tree loc id := by
    have hrestores : c.Restores id := by
      rw [EngineSettings.Restores]
      split
      · exact hmetadata
      · exact hdata
    rw [lists, hregistry, and_iff_right hrestores, or_left_comm, or_self]
  -- The directory for the record is there by now.
  obtain ⟨wrote, hrecord⟩ := exists_of_keepRecord hmetadata hkeep
  have hthere := dirs metadataId ((hregistry metadataId).2 ⟨hmetadata, .inl rfl⟩)
  obtain ⟨reached'', hsame⟩ := reached'.of_recordOnce hthere hrecord
  obtain ⟨ids, hids, hascending, hondisk⟩ := idsOnDisk_of_find reached''.find reached''.isDir
  refine ⟨?_, close_of_opened fun entry hentry => ?_⟩
  · rw [Engine.openIds_eq hascending fun id => ?_]
    · exact hids
    · -- The record is no entry of the folder itself.
      rw [hmem, hondisk, StoreFolder.Lists, StoreFolder.Lists]
      refine exists_congr fun name => and_congr_right fun _ => ?_
      rw [hsame _ (Beside.record.ne_dir name).1.symm (Beside.record.ne_dir name).2.symm]
  · obtain ⟨part, hpart, hclean⟩ := clean entry hentry
    have hsame : ({ host₁ with tree := u } : Host).partition entry.2 = part := by
      rw [Host.partition, List.getD_eq_getElem?_getD, hpart]
      rfl
    rw [hsame]
    exact hclean

end PartitionStore
