import PartitionStore.Proofs.Engine.Sound
import PartitionStore.Proofs.Engine.Steps

/-!
# `PartitionStore.Proofs.Engine.Requests`: requests keep an engine sound

Each request is one case, and in each of them the engine is sound afterwards
whether the request succeeded or not. What was flushed changes with a
successful flush, when a partition is made, and when one is dropped.

* `Sound.addPartition`, `Sound.removePartition`: the registry and the folder
  change together.
* `Sound.put`, `Sound.delete`: only what is held changes.
* `Sound.syncEach`: a synchronization that stops half-way has flushed the
  partitions before the one that failed.
-/

set_option autoImplicit false

namespace PartitionStore

open FileTree Naming PartitionStore.Partition StoreFolder

/-- What is flushed after the partitions of `todo` were flushed one after another, up to the
first failure. -/
def flushedBySync : List (Int32 × Handle) → Host → (Int32 → SortedMap Bytes Bytes) →
    Int32 → SortedMap Bytes Bytes
  | [], _, flushed => flushed
  | (i, h) :: rest, host, flushed =>
    match HostAction.sync h host with
    | .ok () host' =>
      flushedBySync rest host' (Function.update flushed i (host.partition h).entries)
    | .error _ _ => flushed

namespace Sound

variable {c : EngineSettings} {d : StoreFolder} {loc : Location} {r : Running}
  {flushed : Int32 → SortedMap Bytes Bytes} {id : Int32} {h : Handle}

/-- The host changes, and with it the tables of registered partitions. -/
theorem withHost (sound : Sound c d loc flushed r) {host : Host} {table : Int32 → Table}
    {flushed' : Int32 → SortedMap Bytes Bytes}
    (stored : Stored d loc table host (· ∈ r.engine.registry.map Prod.fst) r.engine.registry)
    (same : ∀ i, table i = ⟨c.format, flushed' i⟩) (recorded : Recorded c d loc host.tree)
    (dropped : metadataId ∉ r.engine.openIds → flushed' metadataId = SortedMap.empty) :
    Sound c d loc flushed' ⟨r.engine, host⟩ :=
  of_stored sound.settings sound.folder sound.backend sound.phase sound.store stored
    (fun i _ => same i) recorded fun hnot => dropped (mt Engine.mem_openIds_iff.1 hnot)

/-- The host and the registry change together. -/
theorem withRegistry (sound : Sound c d loc flushed r) {host : Host} {table : Int32 → Table}
    {registry : List (Int32 × Handle)} {flushed' : Int32 → SortedMap Bytes Bytes}
    (stored : Stored d loc table host (· ∈ registry.map Prod.fst) registry)
    (same : ∀ i ∈ registry.map Prod.fst, table i = ⟨c.format, flushed' i⟩)
    (recorded : Recorded c d loc host.tree)
    (dropped : metadataId ∉ registry.map Prod.fst → flushed' metadataId = SortedMap.empty) :
    Sound c d loc flushed' ⟨Engine.reported { r.engine with registry } host.tree, host⟩ := by
  refine @of_stored c d loc flushed' host _ table ?_ ?_ ?_ ?_ sound.store ?_ ?_ recorded ?_
  · simpa using sound.settings
  · simpa using sound.folder
  · simpa using sound.backend
  · simpa using sound.phase
  · simpa using stored
  · simpa using same
  · simpa using dropped

/-- A partition changes in memory, and counts as dirty from then on. -/
theorem touch (sound : Sound c d loc flushed r) (hmem : (id, h) ∈ r.engine.registry)
    (entries : SortedMap Bytes Bytes) :
    Sound c d loc flushed ⟨r.engine, r.host.setPartition h
      { r.host.partition h with entries, storage := (r.host.partition h).storage.touched }⟩ :=
  sound.withHost (sound.stored.touch hmem entries) (fun _ => rfl) sound.disk.recorded sound.dropped

/-! ### Entries -/

/-- A put leaves the tables as they are on disk. -/
theorem put (sound : Sound c d loc flushed r) (id : Int32) (key value : Bytes) :
    Sound c d loc flushed (Action.after (EngineAction.put id key value r)) := by
  rw [EngineAction.put_eq sound.phase, sound.backend]
  cases hlookup : r.engine.handle? id with
  | none => exact sound
  | some h =>
      have hmem := sound.opened.lookup_iff.1 hlookup
      have hput : Backend.table.put h key value r.host = .ok () _ :=
        HostAction.put_of_ok (put_of_isOpen (sound.opened.held id h hmem).isOpen key value)
      simp only [EngineAction.onHost_of_ok hput]
      exact sound.touch hmem _

/-- What is read is what is held, and reading changes nothing. -/
theorem get_of_mem (sound : Sound c d loc flushed r) (hmem : (id, h) ∈ r.engine.registry)
    (key : Bytes) : EngineAction.get id key r = .ok ((r.host.partition h).entries.get? key) r := by
  have hget : Backend.table.get h key r.host = .ok _ r.host :=
    HostAction.get_of_ok (get_of_isOpen (sound.opened.held id h hmem).isOpen key)
  rw [EngineAction.get_eq sound.phase, Engine.handle?, sound.opened.lookup_iff.2 hmem,
    sound.backend]
  exact EngineAction.onHost_of_ok hget

/-- A get changes nothing. -/
theorem get (sound : Sound c d loc flushed r) (id : Int32) (key : Bytes) :
    Action.after (EngineAction.get id key r) = r := by
  cases hlookup : r.engine.handle? id with
  | none =>
      rw [EngineAction.get_eq sound.phase, hlookup]
      rfl
  | some h =>
      rw [sound.get_of_mem (sound.opened.lookup_iff.1 hlookup)]
      rfl

/-- A delete leaves the tables as they are on disk. -/
theorem delete (sound : Sound c d loc flushed r) (id : Int32) (key : Bytes) :
    Sound c d loc flushed (Action.after (EngineAction.delete id key r)) := by
  rw [EngineAction.delete_eq sound.phase, sound.backend]
  cases hlookup : r.engine.handle? id with
  | none => exact sound
  | some h =>
      have hmem := sound.opened.lookup_iff.1 hlookup
      have hdelete : Backend.table.delete h key r.host = .ok () _ :=
        HostAction.delete_of_ok (delete_of_isOpen (sound.opened.held id h hmem).isOpen key)
      simp only [EngineAction.onHost_of_ok hdelete]
      by_cases hbound : (r.host.partition h).entries.contains key = true
      · rw [if_pos hbound]
        exact sound.touch hmem _
      · -- There was nothing to unbind, and the partition is put back as it was.
        rw [if_neg hbound, Host.setPartition_partition]
        exact sound

/-! ### Flushing -/

/-- A partition is flushed, or that fails and what was flushed stays. -/
theorem sync_cases (sound : Sound c d loc flushed r) (hmem : (id, h) ∈ r.engine.registry) :
    (∃ host, HostAction.sync h r.host = .ok () host ∧
      Sound c d loc (Function.update flushed id (r.host.partition h).entries) ⟨r.engine, host⟩) ∨
    ∃ e host, HostAction.sync h r.host = .error e host ∧
      Sound c d loc flushed ⟨r.engine, host⟩ := by
  obtain ⟨t, confined, ⟨hsync, hstored⟩ | ⟨⟨e, hsync⟩, hstored, -⟩⟩ :=
    sound.stored.sync_cases hmem
  · refine .inl ⟨_, hsync, sound.withHost hstored (fun i => ?_)
      (sound.disk.recorded.congr confined) fun hnot => ?_⟩
    · rw [(sound.opened.held id h hmem).format]
      exact Disk.update_table c flushed id _ i
    · have hid : metadataId ≠ id := fun e => hnot (e ▸ Engine.mem_openIds_of_mem hmem)
      rw [Function.update_of_ne hid]
      exact sound.dropped hnot
  · exact .inr ⟨e, _, hsync, sound.withHost hstored (fun _ => rfl)
      (sound.disk.recorded.congr confined) sound.dropped⟩

/-- A synchronization has flushed the partitions before the first one that failed. -/
theorem syncEach (sound : Sound c d loc flushed r) {todo : List (Int32 × Handle)}
    (hmem : ∀ entry ∈ todo, entry ∈ r.engine.registry) :
    Sound c d loc (flushedBySync todo r.host flushed)
      (Action.after ((todo.forM fun (_, h) => EngineAction.onHost (HostAction.sync h) :
        EngineAction Unit) r)) := by
  -- Both sides go through `todo` in the same order, so each step of one is a step of the other.
  induction todo generalizing r flushed with
  | nil => exact sound
  | cons entry rest ih =>
      obtain ⟨id, h⟩ := entry
      rw [flushedBySync]
      show Sound c d loc _ (Action.after ((EngineAction.onHost (HostAction.sync h) >>= fun _ =>
        rest.forM fun (_, h) => EngineAction.onHost (HostAction.sync h) : EngineAction Unit) r))
      rcases sound.sync_cases (hmem _ (List.mem_cons_self ..)) with
        ⟨host, hsync, hsound⟩ | ⟨e, host, hsync, hsound⟩
      · rw [Action.bind_of_ok (EngineAction.onHost_of_ok hsync)]
        simp only [hsync]
        exact ih hsound fun entry he => hmem entry (List.mem_cons_of_mem _ he)
      · -- The first failure ends both.
        rw [Action.bind_of_error (EngineAction.onHost_of_error hsync)]
        simp only [hsync]
        exact hsound

/-- After a sync the tables are those that it came to write, up to the first that it could not. -/
theorem sync (sound : Sound c d loc flushed r) :
    Sound c d loc (flushedBySync r.engine.registry r.host flushed)
      (Action.after (EngineAction.sync r)) := by
  rw [EngineAction.sync_eq sound.phase, sound.backend]
  exact sound.syncEach fun entry he => he

/-! ### Partitions -/

/-- Dropping a partition succeeds, be it registered or not. -/
theorem removePartition (sound : Sound c d loc flushed r) (id : Int32) :
    ∃ r', EngineAction.removePartition id r = .ok () r' ∧
      Sound c d loc (Function.update flushed id SortedMap.empty) r' := by
  -- What was flushed is asked of registered ids only, and of the metadata partition.
  have dropped (hnot : metadataId ≠ id → metadataId ∉ r.engine.openIds) :
      Function.update flushed id SortedMap.empty metadataId = SortedMap.empty := by
    by_cases hid : metadataId = id
    · rw [hid, Function.update_self]
    · rw [Function.update_of_ne hid]
      exact sound.dropped (hnot hid)
  rw [EngineAction.removePartition_eq sound.phase, sound.backend]
  cases hlookup : r.engine.handle? id with
  | none =>
      have hid := Engine.handle?_eq_none_iff.1 hlookup
      refine ⟨r, rfl, of_stored sound.settings sound.folder sound.backend sound.phase sound.store
        sound.stored (fun i hi => ?_) sound.disk.recorded fun hnot => dropped fun _ => ?_⟩
      · have hne : i ≠ id := fun e => hid (e ▸ hi)
        rw [Function.update_of_ne hne]
      · exact mt Engine.mem_openIds_iff.1 hnot
  | some h =>
      have hmem := sound.opened.lookup_iff.1 hlookup
      obtain ⟨t, part, confined, hdrop, hstored⟩ := sound.stored.drop_ok hmem
      have hdrop' : Backend.table.drop h r.host = .ok () _ := hdrop
      simp only [hdrop']
      refine ⟨_, rfl, sound.withRegistry (hstored.congr_ids fun i => mem_ids_unregistered_iff)
        (fun i hi => ?_) (sound.disk.recorded.congr confined) fun hnot => dropped fun hne => ?_⟩
      · rw [Function.update_of_ne (mem_ids_unregistered_iff.1 hi).1]
      · rw [Engine.mem_openIds_iff]
        exact fun hin => hnot (mem_ids_unregistered_iff.2 ⟨hne, hin⟩)

/-- A partition of a new id is opened with the format of the store. -/
theorem addPartition_eq (sound : Sound c d loc flushed r)
    (hid : id ∉ r.engine.registry.map Prod.fst) :
    EngineAction.addPartition id r = match Backend.table.attach d (c.spec id) r.host with
      | .ok h host => .ok h ⟨Engine.reported
          { r.engine with registry := r.engine.registry ++ [(id, h)] } host.tree, host⟩
      | .error e host => .error e { r with host } := by
  have hstore : ¬(c.spec id).store ≠ c.store := not_not_intro rfl
  have hopen : ¬r.engine.hasOpen (c.spec id).id = true := mt Engine.hasOpen_iff.1 hid
  rw [EngineAction.addPartition_eq, EngineAction.addPartitionAs_eq sound.phase, sound.settings,
    sound.backend, sound.folder, if_neg hstore, if_neg hopen]
  rfl

/-- An id that is registered is refused. -/
theorem addPartition_of_mem (sound : Sound c d loc flushed r)
    (hid : id ∈ r.engine.registry.map Prod.fst) :
    EngineAction.addPartition id r = .error (.duplicatePartition id) r := by
  have hstore : ¬(c.spec id).store ≠ c.store := not_not_intro rfl
  have hopen : r.engine.hasOpen (c.spec id).id = true := Engine.hasOpen_iff.2 hid
  rw [EngineAction.addPartition_eq, EngineAction.addPartitionAs_eq sound.phase, sound.settings,
    if_neg hstore, if_pos hopen]
  rfl

/-- A partition is made and registered without entries; or that fails, and nothing changes.
Where the directory's path can be walked there has to be room for the table file. -/
theorem addPartition (sound : Sound c d loc flushed r) (id : Int32)
    (fits : checkText (d.partitionPath id) = .ok () → (d.partitionPath id).HasRoom 9) :
    (∃ h r', EngineAction.addPartition id r = .ok h r' ∧ (id, h) ∈ r'.engine.registry ∧
        (r'.host.partition h).entries = SortedMap.empty ∧
        Sound c d loc (Function.update flushed id SortedMap.empty) r') ∨
      ∃ e, EngineAction.addPartition id r = .error e r := by
  by_cases hid : id ∈ r.engine.registry.map Prod.fst
  · exact .inr ⟨_, sound.addPartition_of_mem hid⟩
  rw [sound.addPartition_eq hid]
  rcases @Stored.attach_cases _ _ _ _ _ _ sound.stored (c.spec id) sound.store hid fits with
    ⟨t, confined, hattach, hstored⟩ | ⟨-, e, hattach⟩
  · rw [hattach]
    refine .inl ⟨_, _, rfl, ?_, ?_, sound.withRegistry
      (hstored.congr_ids fun i => mem_ids_registered_iff)
      (fun i _ => Disk.update_table c flushed id _ i) (sound.disk.recorded.congr confined) ?_⟩
    · simp
    · exact congrArg Partition.entries (Host.partition_add_self r.host _)
    · intro hnot
      obtain ⟨hne, hold⟩ : metadataId ≠ id ∧ metadataId ∉ r.engine.registry.map Prod.fst :=
        not_or.1 (mt mem_ids_registered_iff.2 hnot)
      rw [Function.update_of_ne hne]
      exact sound.dropped (mt Engine.mem_openIds_iff.1 hold)
  · rw [hattach]
    exact .inr ⟨e, rfl⟩

end Sound

end PartitionStore
