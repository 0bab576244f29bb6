import PartitionStore.Proofs.Engine.Closing
import PartitionStore.Proofs.Engine.LongPaths
import PartitionStore.Proofs.Engine.Serving

/-!
# `PartitionStore.Proofs.Engine.Reopening`: when a store comes up again

A partition has the format that it was asked for with, and its table records it.
A store is opened with one format for all of its partitions. So one partition that
was asked for with another format than the store's keeps the whole store from
coming up again, until it is dropped.

* `Serving.close_ok`: what a close that succeeded leaves in the folder.
* `Tables.open_iff`: a folder comes up just if all tables in it have the store's format.
* `reopens_iff_formats`: what runs of requests make of this.
-/

set_option autoImplicit false

namespace PartitionStore

open FileTree Naming PartitionStore.Partition StoreFolder

variable {c : EngineSettings} {d : StoreFolder} {loc : Location} {host : Host} {t : FileTree}
  {ids : Int32 → Prop} {table : Int32 → Table} {allowed : Int32 → TableFormat → Prop}
  {r r' : Running} {id : Int32} {h : Handle} {registry : List (Int32 × Handle)}

/-! ### Closing -/

/-- A close that succeeds leaves the tables of all registered partitions, in their formats. -/
theorem Serving.close_ok (serving : Serving c d loc allowed r)
    (hclose : EngineAction.close r = .ok () r') :
    ∃ table, Tables d loc r'.host.tree (· ∈ r.engine.registry.map Prod.fst) table ∧
      Recorded c d loc r'.host.tree ∧
      ∀ id h, (id, h) ∈ r.engine.registry → (table id).format = (r.host.partition h).format := by
  obtain ⟨_, stored, -⟩ := serving.housed.stored
  obtain ⟨table, tables, recorded, hheld⟩ :=
    stored.close_ok serving.housed.recorded serving.phase serving.backend hclose
  exact ⟨table, tables, recorded, fun id h hmem => congrArg Table.format (hheld id h hmem)⟩

/-! ### Opening -/

/-- What success tells of a partition that is on disk. -/
theorem Tables.of_attach (tables : Tables d loc host.tree ids table) (hstore : c.store = d.store)
    (hid : ids id) {host' : Host}
    (hattach : Backend.table.attach d (c.spec id) host = .ok h host') :
    (table id).format = c.format ∧ host'.tree = host.tree := by
  rw [tables.attach_eq hstore hid] at hattach
  split at hattach
  · rename_i hformat
    cases hattach
    exact ⟨hformat, rfl⟩
  · cases hattach

/-- The metadata partition is opened or made, and all other tables stay what they were. -/
theorem Tables.of_attachMetadata (tables : Tables d loc host.tree ids table)
    (recorded : Recorded c d loc host.tree) (hstore : c.store = d.store) {host' : Host}
    (hattach : Backend.table.attach d (c.spec metadataId) host = .ok h host') :
    (ids metadataId → (table metadataId).format = c.format) ∧
      ∃ ids' table', Tables d loc host'.tree ids' table' ∧
        ∀ id, ids id → ids' id ∧ table' id = table id := by
  by_cases hid : ids metadataId
  · obtain ⟨hformat, htree⟩ := tables.of_attach hstore hid hattach
    exact ⟨fun _ => hformat, ids, table, htree ▸ tables, fun _ hi => ⟨hi, rfl⟩⟩
  · have room : (d.partitionPath metadataId).HasRoom 9 := recorded.recordRoom.mono (by omega)
    obtain ⟨t, hopen, htable, hsame⟩ := openTable_of_none (c.spec metadataId) tables.lead room
      recorded.usable (tables.node?_of_not hid)
    rw [Backend.attach_table hstore] at hattach
    cases hattach.symm.trans (HostAction.register_of_ok hopen)
    refine ⟨fun h => absurd h hid, _, _, tables.addTable hid room htable hsame, ?_⟩
    intro id hi
    have hne : id ≠ metadataId := by
      rintro rfl
      exact hid hi
    exact ⟨.inr hi, Function.update_of_ne hne ..⟩

/-- A store only comes up if all tables in its folder have its format. -/
theorem format_of_openAll (tables : Tables d loc host.tree ids table)
    (recorded : Recorded c d loc host.tree) (hstore : c.store = d.store)
    (hmetadata : c.withMetadata = true) (hdata : c.withData = true) {host' : Host}
    (h : Restore.openAll Backend.table d c host = .ok registry host') (hid : ids id) :
    (table id).format = c.format := by
  obtain ⟨found, hfound, -, hmem⟩ := tables.idsOnDisk_ok
  have hfoundHost : Backend.table.idsOnDisk d host = .ok found host :=
    HostAction.onTree_of_ok hfound
  rw [Restore.openAll, Action.bind_of_ok hfoundHost, if_pos hmetadata] at h
  obtain ⟨metadata, host₁, hfirst, h⟩ := Action.bind_eq_ok_iff.1 h
  simp only [if_pos hdata] at h
  obtain ⟨data, host₂, hopen, -⟩ := Action.bind_eq_ok_iff.1 h
  obtain ⟨handle, host₃, hattach, hrest⟩ := Action.bind_eq_ok_iff.1 hfirst
  cases hrest
  obtain ⟨hformat, ids', table', tables', hkept⟩ :=
    tables.of_attachMetadata recorded hstore hattach
  by_cases hne : id = metadataId
  · subst hne
    exact hformat hid
  · -- All others are opened after it, one after another, and none of them changes anything.
    have hothers := forall_of_openStretches (fun i => (table' i).format = c.format)
      (fun host => Tables d loc host.tree ids' table')
      (fun i hi host g host' tables hattach => by
        rw [flatten_stretches, List.mem_filter, hmem] at hi
        obtain ⟨hformat, htree⟩ := tables.of_attach hstore (hkept i hi.1).1 hattach
        exact ⟨hformat, htree ▸ tables⟩) tables' hopen id (by
        rw [flatten_stretches, List.mem_filter, hmem]
        exact ⟨hid, bne_iff_ne.2 hne⟩)
    rw [← (hkept id hid).2]
    exact hothers

/-- A folder comes up just if all tables in it have the store's format. -/
theorem Tables.open_iff (tables : Tables d loc host.tree ids table)
    (recorded : Recorded c d loc host.tree) (hnamed : StoreFolder.named c.root c.store = .ok d)
    (hkind : c.backend = .table) (hmetadata : c.withMetadata = true) (hdata : c.withData = true)
    (hrecord : c.ReadsBack) :
    (∃ e host', Engine.open c host = .ok e host') ↔ ∀ id, ids id → (table id).format = c.format := by
  have hstore := (store_of_named hnamed).2
  constructor
  · rintro ⟨e, host', hopen⟩ id hid
    obtain ⟨d', t, registry, host₁, -, hnamed', hprepare, hopenAll, -⟩ := exists_of_open hopen
    cases hnamed.symm.trans hnamed'
    have hready := prepare_of_leadsTo tables.lead (recorded.recordRoom.mono (by omega))
      recorded.usable (tables.dir_cases metadataId) recorded.record hrecord
    cases hready.symm.trans hprepare
    rw [hkind] at hopenAll
    exact format_of_openAll tables recorded hstore hmetadata hdata hopenAll hid
  · intro hformats
    -- Tables of one format are what an engine without other formats leaves behind.
    classical
    have disk : Disk c d loc host.tree ids
        fun i => if ids i then (table i).entries else SortedMap.empty := by
      refine Disk.of_tables tables (fun i hi => ?_) recorded
      rw [if_pos hi, ← hformats i hi]
    obtain ⟨e, host', hopen, -⟩ := disk.open_ok hnamed hkind hmetadata hdata hrecord
      fun hnot => if_neg hnot
    exact ⟨e, host', hopen⟩

/-! ### Runs -/

/-- An engine that came up on a new store serves, with its metadata partition. -/
theorem Sound.serving {flushed : Int32 → SortedMap Bytes Bytes}
    (sound : Sound c d loc flushed r) (hallow : ∀ id, allowed id c.format) :
    Serving c d loc allowed r := by
  exact ⟨sound.settings, sound.folder, sound.backend, sound.phase, sound.store,
    ⟨⟨_, sound.stored, fun i _ => hallow i⟩, sound.disk.recorded⟩⟩

/-- A registered partition has the format of the store or another one that it was asked for with.
After a close that succeeds, the store comes up again just if none has another one. -/
theorem reopens_iff_formats {e : Engine} {host₀ : Host} {requests : List Request}
    {seen : List Observation} (fresh : Fresh c host.tree) (hkind : c.backend = .table)
    (hmetadata : c.withMetadata = true) (hdata : c.withData = true)
    (hproperties : c.properties = SortedMap.empty) (hopen : Engine.open c host = .ok e host₀)
    (run : Served ⟨e, host₀⟩ requests seen r)
    (hlast : ∀ request ∈ requests, request.isLast = false)
    (takes : ∀ request ∈ requests, ∀ spec, request.spec? c = some spec → e.folder.Takes spec.id) :
    (∀ id h, (id, h) ∈ r.engine.registry → (r.host.partition h).format = c.format ∨
        .addPartitionAs ⟨c.store, id, (r.host.partition h).format⟩ ∈ requests) ∧
      ∀ r', EngineAction.close r = .ok () r' → ∀ partitions,
        ((∃ e' host', Engine.open c ⟨r'.host.tree, partitions⟩ = .ok e' host') ↔
          ∀ id h, (id, h) ∈ r.engine.registry → (r.host.partition h).format = c.format) := by
  obtain ⟨d, loc, hnamed, sound, -⟩ := sound_of_open fresh hkind hmetadata hopen
  -- What a registered partition's format may be, as an invariant of the run.
  let asked (id : Int32) (format : TableFormat) : Prop :=
    format = c.format ∨ .addPartitionAs ⟨c.store, id, format⟩ ∈ requests
  have start : Serving c d loc asked ⟨e, host₀⟩ := sound.serving fun _ => .inl rfl
  have serving : Serving c d loc asked r := by
    refine run.serving start hlast (fun request hrequest spec hspec => ?_)
      fun request hrequest spec hspec hstore => ?_
    · rw [← sound.folder]
      exact takes request hrequest spec hspec
    · cases request with
      | addPartition id =>
          cases hspec
          exact .inl rfl
      | addPartitionAs own =>
          cases hspec
          obtain ⟨store, id, format⟩ := spec
          obtain rfl : store = c.store := hstore
          exact .inr hrequest
      | _ => cases hspec
  refine ⟨fun id h hmem => serving.housed.formats hmem, ?_⟩
  intro r' hclose partitions
  obtain ⟨table, tables, recorded, hformat⟩ := serving.close_ok hclose
  -- After a close the tables are those of the registered partitions, in their formats.
  have hiff := @Tables.open_iff c d loc ⟨r'.host.tree, partitions⟩ _ table tables recorded hnamed
    hkind hmetadata hdata (EngineSettings.readsBack_of_empty hproperties)
  rw [hiff]
  constructor
  · intro hall id h hmem
    rw [← hformat id h hmem]
    exact hall id (List.mem_map.2 ⟨_, hmem, rfl⟩)
  · intro hall id hid
    obtain ⟨⟨i, h⟩, hmem, rfl⟩ := List.mem_map.1 hid
    exact (hformat i h hmem).trans (hall i h hmem)

set_option maxRecDepth 10000 in
/-- A store with a partition of another format does not come up again, unless the partition was
dropped. -/
theorem reopens_after_drop : ∃ e host r r' s s' seen seen',
    Engine.open (settingsUnder ⟨"."⟩) (Host.ofTree FileTree.empty) = .ok e host ∧
      Served ⟨e, host⟩ [.addPartitionAs ⟨"s", 5, .plain⟩] seen r ∧
      EngineAction.close r = .ok () r' ∧
      (∀ partitions, ¬∃ e' host',
        Engine.open (settingsUnder ⟨"."⟩) ⟨r'.host.tree, partitions⟩ = .ok e' host') ∧
      Served ⟨e, host⟩ [.addPartitionAs ⟨"s", 5, .plain⟩, .removePartition 5] seen' s ∧
      EngineAction.close s = .ok () s' ∧
      ∀ partitions, ∃ e' host',
        Engine.open (settingsUnder ⟨"."⟩) ⟨s'.host.tree, partitions⟩ = .ok e' host' := by
  let uniform (r : Running) : Prop :=
    ∀ entry ∈ r.engine.registry, (r.host.partition entry.2).format = .blockBased
  -- Both runs are evaluated at once, and their results are read off below.
  have key : Action.succeedsWith (Engine.open (settingsUnder ⟨"."⟩)) (Host.ofTree FileTree.empty)
      (fun e host =>
        let r := (Request.serve (.addPartitionAs ⟨"s", 5, .plain⟩) ⟨e, host⟩).2
        let s := (Request.serve (.removePartition 5) r).2
        (checkText (tableFile (e.folder.partitionPath 5))).isOk &&
          decide (¬uniform r) && Action.succeedsWith EngineAction.close r (fun _ _ => true) &&
          decide (uniform s) && Action.succeedsWith EngineAction.close s (fun _ _ => true)) =
      true := by decide +kernel
  obtain ⟨e, host, hopen, key⟩ := Action.exists_of_succeedsWith key
  simp only [Bool.and_eq_true, decide_eq_true_eq] at key
  obtain ⟨⟨⟨⟨htext, hother⟩, hclose⟩, hsame⟩, hclose'⟩ := key
  obtain ⟨_, r', hclose, -⟩ := Action.exists_of_succeedsWith hclose
  obtain ⟨_, s', hclose', -⟩ := Action.exists_of_succeedsWith hclose'
  have takes : e.folder.Takes 5 := StoreFolder.takes_of_isOk htext
  have fresh := (open_here (settingsUnder ⟨"."⟩) rfl rfl rfl rfl).1
  have run := (Served.done (Request.serve (.addPartitionAs ⟨"s", 5, .plain⟩) ⟨e, host⟩).2).cons
  have run' := (Served.done (Request.serve (.removePartition 5)
    (Request.serve (.addPartitionAs ⟨"s", 5, .plain⟩) ⟨e, host⟩).2).2).cons.cons
  have reopens := (reopens_iff_formats fresh rfl rfl rfl rfl hopen run
    (by simp [Request.isLast]) (by simpa [Request.spec?] using takes)).2 r' hclose
  have reopens' := (reopens_iff_formats fresh rfl rfl rfl rfl hopen run'
    (by simp [Request.isLast]) (by simpa [Request.spec?] using takes)).2 s' hclose'
  refine ⟨e, host, _, r', _, s', _, _, hopen, run, hclose, fun partitions h => hother ?_,
    run', hclose', fun partitions => (reopens' partitions).2 fun id h hmem => hsame (id, h) hmem⟩
  exact fun entry hmem => (reopens partitions).1 h entry.1 entry.2 hmem

end PartitionStore
