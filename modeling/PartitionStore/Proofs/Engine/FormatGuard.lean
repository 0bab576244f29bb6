import PartitionStore.Proofs.Engine.Fresh
import PartitionStore.Proofs.Engine.Requests

/-!
# `PartitionStore.Proofs.Engine.FormatGuard`: the format guard on a restart

An engine that came up on a new store leaves its record in the folder, and
closing it adds nothing, since there is nothing to be flushed (`close_of_clean`).
So what the guard finds on the next opening is the record that the engine wrote,
and its verdict is a matter of reading that text back.

* `record_of_open`: the record is there, with either backend.
* `format_kept_iff`: the guard is content exactly with settings that keep their format.
-/

set_option autoImplicit false

namespace PartitionStore

open FileTree Naming PartitionStore.Partition StoreFolder

/-! ### Closing where there is nothing to be written -/

/-- The partition is not dirty. -/
def Partition.Clean (part : Partition) : Prop := ∀ dir, part.storage ≠ .table dir true

theorem Partition.Clean.flush {part : Partition} (h : part.Clean) : part.flush = pure part := by
  rw [Partition.flush_eq]
  split
  · rename_i dir hstorage
    exact absurd hstorage (h dir)
  · rfl

theorem Partition.Clean.close {part : Partition} (h : part.Clean) (t : FileTree) :
    ∃ part', part.close t = .ok part' t ∧ part'.Clean := by
  rw [Partition.close_eq]
  by_cases hclosed : part.closed = true
  · rw [if_pos hclosed]
    exact ⟨part, rfl, h⟩
  · rw [if_neg hclosed, h.flush]
    exact ⟨_, rfl, h⟩

variable {c : EngineSettings} {d : StoreFolder} {loc : Location} {r : Running}
  {host host' : Host} {t u : FileTree} {e : Engine}

/-- A clean partition may be replaced by another one. -/
theorem clean_setPartition {part : Partition} (new : part.Clean) (h : Handle) {g : Handle}
    (old : (host.partition g).Clean) : ((host.setPartition h part).partition g).Clean := by
  by_cases hsame : g = h
  · subst hsame
    by_cases hknown : g < host.partitions.length
    · rw [Host.partition_setPartition_self _ _ hknown]
      exact new
    · -- There is nothing behind the handle, before or after.
      rw [Host.setPartition, List.set_eq_of_length_le (Nat.le_of_not_lt hknown)]
      exact old
  · rw [Host.partition_setPartition_of_ne _ _ hsame]
    exact old

/-- Closing an engine all of whose partitions are clean succeeds, and changes nothing on disk. -/
theorem close_of_clean (hphase : r.engine.phase = .opened)
    (hbackend : r.engine.backend.close = HostAction.close)
    (h : ∀ entry ∈ r.engine.registry, (r.host.partition entry.2).Clean) :
    ∃ r', EngineAction.close r = .ok () r' ∧ r'.host.tree = r.host.tree := by
  let during (todo : List (Int32 × Handle)) (host : Host) : Prop :=
    (∀ entry ∈ todo, (host.partition entry.2).Clean) ∧ host.tree = r.host.tree
  have step : ∀ (entry : Int32 × Handle) (rest : List (Int32 × Handle)) (host : Host),
      during (entry :: rest) host →
        ∃ host', r.engine.backend.close entry.2 host = .ok () host' ∧ during rest host' := by
    rintro ⟨id, h⟩ rest host ⟨hall, htree⟩
    obtain ⟨part, hclose, hclean⟩ := (hall _ (List.mem_cons_self ..)).close host.tree
    refine ⟨host.setPartition h part, ?_, fun entry he => ?_, htree⟩
    · rw [hbackend]
      exact HostAction.update_of_ok hclose
    · exact clean_setPartition hclean h (hall entry (List.mem_cons_of_mem _ he))
  obtain ⟨host, heach, -, htree⟩ :=
    @EngineAction.forEachAttempt_onHost _ ⟨{ r.engine with registry := [] }, r.host⟩ _ _ _ step
      ⟨h, rfl⟩
  exact ⟨_, (EngineAction.close_eq_ok_iff hphase).2 ⟨_, heach, rfl⟩, htree⟩

/-! ### The record of a new store -/

/-- A record that was kept in an empty folder is on disk. -/
theorem record_of_keepRecord (lead : t.LeadsTo d.path loc)
    (hempty : ∀ name, t.node? (name :: loc) = none) (hmetadata : c.withMetadata = true)
    (h : Engine.keepRecord d c t = .ok () u) :
    u.LeadsTo d.path loc ∧ (d.partitionPath metadataId).HasRoom 13 ∧
      u.node? (recordFileName :: dirName d.store metadataId :: loc) =
        some (.file c.record.bytes) := by
  obtain ⟨wrote, hrecord⟩ := exists_of_keepRecord hmetadata h
  -- A path into an empty folder leads nowhere, so there was no record before.
  have hmissing : t.exists d.recordPath = false := by
    by_contra hthere
    rw [Bool.not_eq_false] at hthere
    have hroom := Path.hasRoom_of_checkText (checkText_of_exists hthere)
      (Path.endsWithSlash_join _ (by decide))
    have hfind : t.find .followed d.recordPath = .error _ :=
      lead.find_below_none (isPlainName_dir d metadataId) (hempty _) (by decide) hroom .followed
    rw [FileTree.exists, hfind] at hthere
    cases hthere
  have hroom := (hasRoom_recordScratch_iff d).1 (hasRoom_of_recordOnce hrecord hmissing)
  -- The directory it is in could be made.
  have usable : isEntryName (dirName d.store metadataId) = true := by
    by_contra hname
    have hdir : (d.partitionPath metadataId).HasRoom 0 := hroom.mono (by omega)
    have hmake := createDirAll_of_unusable lead.resolveSteps (isPlainName_dir d metadataId)
      (by simpa using hname) (Path.checkText_of_hasRoom hdir)
    rw [recordOnce, Action.bind_of_ok (Action.get_apply t), if_neg (by simp [hmissing])] at hrecord
    obtain ⟨_, t₁, hmade, -⟩ := Action.bind_eq_ok_iff.1 hrecord
    cases hmade.symm.trans (StoreAction.io_of_error hmake)
  have hbelow : ∀ file name, t.node? (file :: name :: loc) = none := fun file name =>
    node?_of_inside hempty (Location.inside_cons_cons ..)
  obtain ⟨u', hwrite, hnode⟩ := recordOnce_ok c.record lead hroom usable (.inl (hempty _))
    (hbelow _ _) (takesFile_of_none (hbelow _ _))
  cases hrecord.symm.trans hwrite
  refine ⟨lead.congr ?_, hroom.mono (by omega), by rw [hnode, if_pos rfl]⟩
  -- All that was written is inside the folder, and not on the way to it.
  intro l hl
  have hin : ∀ file : String, l ≠ file :: dirName d.store metadataId :: loc := by
    intro file e
    subst e
    exact hl (Location.inside_cons_cons ..)
  rw [hnode, if_neg (hin _), if_neg (hin _), if_neg]
  rintro rfl
  exact hl (Location.inside_cons ..)

/-- An engine in memory registers the metadata partition alone, and makes nothing on disk. -/
theorem openAll_inMemory (hmetadata : c.withMetadata = true) :
    Restore.openAll Backend.inMemory d c host =
      .ok [(metadataId, host.partitions.length)]
        (host.add (Partition.inMemory (c.spec metadataId))) := by
  rw [Restore.openAll]
  cases hdata : c.withData <;> simp only [hmetadata, if_true] <;> rfl

/-- An engine that came up on a new store, with either backend, has its record on disk and clean
partitions. -/
theorem record_of_open (fresh : Fresh c host.tree) (hmetadata : c.withMetadata = true)
    (h : Engine.open c host = .ok e host') :
    ∃ d loc, StoreFolder.named c.root c.store = .ok d ∧ host'.tree.LeadsTo d.path loc ∧
      (d.partitionPath metadataId).HasRoom 13 ∧
      host'.tree.node? (recordFileName :: dirName d.store metadataId :: loc) =
        some (.file c.record.bytes) ∧
      ∀ entry ∈ e.registry, (host'.partition entry.2).Clean := by
  cases hkind : c.backend with
  | table =>
      obtain ⟨d, loc, hnamed, sound, -, hrestored, hfile⟩ := sound_of_open fresh hkind hmetadata h
      refine ⟨d, loc, hnamed, sound.disk.lead, sound.disk.recordRoom.mono (by omega), hfile, ?_⟩
      intro entry he dir
      rw [hrestored entry.1 entry.2 he]
      simp [restored]
  | inMemory =>
      -- In memory there is nothing to be found on disk, and still a record to be kept there.
      obtain ⟨d, t, registry, host₁, t₁, hnamed, hprepare, hopenAll, hkeep, rfl, rfl⟩ :=
        exists_of_open h
      obtain ⟨loc, lead, hempty⟩ := fresh.leadsTo hnamed hprepare
      rw [hkind] at hopenAll
      cases hopenAll.symm.trans (openAll_inMemory hmetadata)
      obtain ⟨lead', hroom, hfile⟩ := record_of_keepRecord lead hempty hmetadata hkeep
      refine ⟨d, loc, hnamed, lead', hroom, hfile, ?_⟩
      intro entry he dir hstorage
      rw [List.mem_singleton.1 he] at hstorage
      have hnew := Host.partition_add_self ⟨t, host.partitions⟩
        (Partition.inMemory (c.spec metadataId))
      cases (congrArg Partition.storage hnew).symm.trans hstorage

/-! ### The verdict -/

/-- The record that an engine writes reads back with its format exactly if the further properties
leave the format alone. Exactly then the guard is content when a new store is closed and opened
again; otherwise it empties the store or cannot tell. -/
theorem format_kept_iff (c : EngineSettings) :
    (c.ReadsBack ↔ c.KeepsFormat) ∧
      ∀ host e host', c.withMetadata = true → Fresh c host.tree →
        Engine.open c host = .ok e host' →
          ∃ d r', StoreFolder.named c.root c.store = .ok d ∧
            EngineAction.close ⟨e, host'⟩ = .ok () r' ∧
            d.ensure r'.host.tree = .ok false r'.host.tree ∧
            (d.guard c.format r'.host.tree = .ok .sameFormat r'.host.tree ↔ c.KeepsFormat) := by
  refine ⟨c.readsBack_iff, ?_⟩
  intro host e host' hmetadata fresh h
  obtain ⟨d, loc, hnamed, lead, hroom, hfile, hclean⟩ := record_of_open fresh hmetadata h
  obtain ⟨_, _, _, _, _, _, _, _, _, _, hengine⟩ := exists_of_open h
  obtain ⟨r', hclose, htree⟩ := @close_of_clean ⟨e, host'⟩ (by rw [hengine])
    (by rw [hengine]; cases c.backend <;> rfl) hclean
  refine ⟨d, r', hnamed, hclose, ?_, ?_⟩
  · rw [htree]
    exact ensure_of_leadsTo lead
  · -- The guard reads the record that the first opening wrote, since closing wrote nothing.
    have hread := (readRecord_of_file lead hroom hfile).2
    rw [htree, guard_eq_sameFormat_iff hread, ← EngineSettings.readsBack_iff_bind,
      c.readsBack_iff]

/-- A property like any other leaves the format alone. One whose name is the flag's but for a
blank behind it does not: the guard finds another format than the one set. -/
theorem format_kept_and_lost :
    (∃ e host d r, Engine.open ((settingsUnder ⟨"."⟩).withProperty "block.cache.mb" "64")
          (Host.ofTree FileTree.empty) = .ok e host ∧
        EngineAction.close ⟨e, host⟩ = .ok () r ∧
        StoreFolder.named ⟨"."⟩ "s" = .ok d ∧
        d.guard .blockBased r.host.tree = .ok .sameFormat r.host.tree) ∧
      ∃ e host d r, Engine.open
          ((settingsUnder ⟨"."⟩).withProperty "storage.plain.table.format.enabled " "true")
          (Host.ofTree FileTree.empty) = .ok e host ∧
        EngineAction.close ⟨e, host⟩ = .ok () r ∧
        StoreFolder.named ⟨"."⟩ "s" = .ok d ∧
        d.guard .blockBased r.host.tree ≠ .ok .sameFormat r.host.tree := by
  constructor
  · let c := (settingsUnder ⟨"."⟩).withProperty "block.cache.mb" "64"
    obtain ⟨fresh, e, host, hopen⟩ := open_here c rfl rfl rfl rfl
    have hkept : c.KeepsFormat := (format_kept_iff c).1.1 (by decide +kernel)
    obtain ⟨d, r, hnamed, hclose, -, hguard⟩ := (format_kept_iff c).2 _ e host rfl fresh hopen
    exact ⟨e, host, d, r, hopen, hclose, hnamed, hguard.2 hkept⟩
  · let c := (settingsUnder ⟨"."⟩).withProperty "storage.plain.table.format.enabled " "true"
    obtain ⟨fresh, e, host, hopen⟩ := open_here c rfl rfl rfl rfl
    have hlost : ¬c.KeepsFormat := fun h =>
      absurd ((format_kept_iff c).1.2 h) (by decide +kernel)
    obtain ⟨d, r, hnamed, hclose, -, hguard⟩ := (format_kept_iff c).2 _ e host rfl fresh hopen
    exact ⟨e, host, d, r, hopen, hclose, hnamed, fun h => hlost (hguard.1 h)⟩

end PartitionStore
