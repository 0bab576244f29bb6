import PartitionStore.Proofs.Engine.Closing
import PartitionStore.Proofs.Engine.LongPaths
import PartitionStore.Proofs.Engine.Run

/-!
# `PartitionStore.Proofs.Engine.Restart`: what a restart finds

Whatever calls an engine took, the next one on its folder has the partitions that
were registered, each with what it held when it was flushed last. Closing counts
as flushing if it succeeds.

* `Sound.close_ok`: what a close that succeeded leaves in the folder.
* `restores_of_reached`: a run that is abandoned, or closed, and a new opening.
-/

set_option autoImplicit false

namespace PartitionStore

open FileTree Naming PartitionStore.Partition StoreFolder

/-- With any number of workers the store comes up with the partitions `ids` and the metadata
partition, and each of them answers with the entries `flushed`. -/
def Restores (c : EngineSettings) (t : FileTree) (ids : Int32 → Prop)
    (flushed : Int32 → SortedMap Bytes Bytes) : Prop :=
  ∀ workers partitions, ∃ e host,
    Engine.open { c with workers } ⟨t, partitions⟩ = .ok e host ∧
      (∀ id, id ∈ e.openIds ↔ id = metadataId ∨ ids id) ∧
      ∀ id ∈ e.openIds, ∀ key, EngineAction.get id key ⟨e, host⟩ =
        .ok ((flushed id).get? key) ⟨e, host⟩

variable {c : EngineSettings} {d : StoreFolder} {loc : Location} {r r' : Running}
  {host : Host} {ids : Int32 → Prop} {flushed : Int32 → SortedMap Bytes Bytes}

/-! ### Closing -/

/-- Closing that succeeds leaves the folder with everything that was held. -/
theorem Sound.close_ok (sound : Sound c d loc flushed r)
    (h : EngineAction.close r = .ok () r') :
    Disk c d loc r'.host.tree (· ∈ r.engine.openIds) r.held := by
  obtain ⟨table, tables, recorded, hheld⟩ :=
    sound.stored.close_ok sound.disk.recorded sound.phase sound.backend h
  refine Disk.of_tables (tables.congr (fun i => Engine.mem_openIds_iff) fun _ _ => rfl)
    (fun i hi => ?_) recorded
  obtain ⟨g, hmem⟩ := Engine.mem_openIds_iff_exists.1 hi
  rw [hheld i g hmem, sound.opened.held_eq hmem, Partition.table,
    (sound.opened.held i g hmem).format]

/-! ### Coming up again -/

/-- A store comes up as it is on disk, whatever the number of workers. -/
theorem Disk.restores (disk : Disk c d loc host.tree ids flushed)
    (hnamed : StoreFolder.named c.root c.store = .ok d) (hkind : c.backend = .table)
    (hmetadata : c.withMetadata = true) (hdata : c.withData = true)
    (hrecord : c.ReadsBack) (hnew : ¬ids metadataId → flushed metadataId = SortedMap.empty) :
    Restores c host.tree ids flushed := by
  intro workers partitions
  -- Nothing in the folder has to do with how many workers there are.
  have disk' : Disk { c with workers } d loc host.tree ids flushed :=
    ⟨disk.lead, disk.usable, disk.recordRoom, disk.room, disk.table, disk.only, disk.record,
      disk.recordScratch⟩
  obtain ⟨e, host', hopen, hsound, hids, hrestored⟩ :=
    @Disk.open_ok { c with workers } d loc flushed ⟨host.tree, partitions⟩ ids disk' hnamed hkind
      hmetadata hdata hrecord hnew
  refine ⟨e, host', hopen, hids, ?_⟩
  intro id hid key
  obtain ⟨h, hmem⟩ := Engine.mem_openIds_iff_exists.1 hid
  rw [hsound.get_of_mem hmem, hrestored id h hmem]
  rfl

/-- Whatever calls an engine took on a new store, a restart finds the partitions that were
registered and the metadata partition, each with what it held when it was flushed last, and a
close that succeeded has flushed them all. -/
theorem restores_of_reached {e : Engine} {host₀ : Host} (fresh : Fresh c host.tree)
    (hkind : c.backend = .table) (hmetadata : c.withMetadata = true) (hdata : c.withData = true)
    (hrecord : c.ReadsBack) (h : Engine.open c host = .ok e host₀)
    (run : Reached ⟨e, host₀⟩ r flushed) :
    Restores c r.host.tree (· ∈ r.engine.openIds) flushed ∧
      ∀ r', EngineAction.close r = .ok () r' →
        Restores c r'.host.tree (· ∈ r.engine.openIds) r.held := by
  obtain ⟨d, loc, hnamed, hstart, -, hrestored, -⟩ := sound_of_open fresh hkind hmetadata h
  -- The run starts with empty partitions, flushed when they were made.
  have hheld : (⟨e, host₀⟩ : Running).held = fun _ => SortedMap.empty := by
    funext i
    rw [Running.held]
    cases hlookup : e.handle? i with
    | none => rfl
    | some g =>
        show (host₀.partition g).entries = SortedMap.empty
        rw [hrestored i g (hstart.opened.lookup_iff.1 hlookup)]
        rfl
  have sound := run.sound (hheld.symm ▸ hstart)
  constructor
  · -- Abandoned: the folder is what the invariant says of it.
    exact sound.disk.restores hnamed hkind hmetadata hdata hrecord sound.dropped
  · intro r' hclose
    refine (sound.close_ok hclose).restores hnamed hkind hmetadata hdata hrecord ?_
    -- A metadata partition that is not registered holds nothing.
    intro hnot
    rw [Running.held]
    cases hlookup : r.engine.handle? metadataId with
    | none => rfl
    | some g =>
        exact absurd (Engine.mem_openIds_of_mem (sound.opened.lookup_iff.1 hlookup)) hnot

set_option maxRecDepth 10000 in
/-- A value that was flushed, and another one after it that was not. -/
theorem restores_after_sync : ∃ e host r flushed,
    Engine.open (settingsUnder ⟨"."⟩) (Host.ofTree FileTree.empty) = .ok e host ∧
      Reached ⟨e, host⟩ r flushed ∧ r.engine.openIds = [-1, 7] ∧
      (flushed 7).get? [107] = some [1] ∧ (r.held 7).get? [107] = some [2] ∧
      Restores (settingsUnder ⟨"."⟩) r.host.tree (· ∈ r.engine.openIds) flushed ∧
      ∀ r', EngineAction.close r = .ok () r' →
        Restores (settingsUnder ⟨"."⟩) r'.host.tree (· ∈ r.engine.openIds) r.held := by
  -- The whole run is evaluated once, and its results are read off below.
  have key : Action.succeedsWith (Engine.open (settingsUnder ⟨"."⟩)) (Host.ofTree FileTree.empty)
      (fun e host =>
        let r₁ := (Call.addPartition 7).next ⟨e, host⟩
        let r₂ := (Call.put 7 [107] [1]).next r₁
        let r₄ := (Call.put 7 [107] [2]).next (Call.sync.next r₂)
        (checkText (tableFile (e.folder.partitionPath 7))).isOk && r₄.engine.openIds == [-1, 7] &&
          (Call.sync.flushed r₂ ((Call.addPartition 7).flushed ⟨e, host⟩
            (⟨e, host⟩ : Running).held) 7).get? [107] == some [1] &&
          (r₄.held 7).get? [107] == some [2]) = true := by decide +kernel
  obtain ⟨e, host, hopen, key⟩ := Action.exists_of_succeedsWith key
  simp only [Bool.and_eq_true, beq_iff_eq] at key
  obtain ⟨⟨⟨htext, hids⟩, hflushed⟩, hheld⟩ := key
  have takes : e.folder.Takes 7 := StoreFolder.takes_of_isOk htext
  have atOpen : Reached ⟨e, host⟩ ⟨e, host⟩ _ := .start
  have flush := ((atOpen.call (.addPartition 7) takes).call (.put 7 [107] [1]) trivial).call
    .sync trivial
  have run := flush.call (.put 7 [107] [2]) trivial
  exact ⟨e, host, _, _, hopen, run, hids, hflushed, hheld,
    restores_of_reached (open_here _ rfl rfl rfl rfl).1 rfl rfl rfl
      (readsBack_settingsUnder _) hopen run⟩

/-! ### Where a restart finds something else -/

set_option maxRecDepth 10000 in
/-- The folder of a store may hold the directories that were made on the way to it: this one has
its own partition 0 on its way, and gets it back after it was dropped. And the folder may have a
path so long that a partition cannot be made in it, after which the store does not come up. -/
theorem not_restores_at_all_paths :
    (∃ e host r flushed,
      FileTree.empty.exists (storePath ⟨"s/s_0/../.."⟩ "s") = false ∧
        (settingsUnder ⟨"s/s_0/../.."⟩).ReadsBack ∧
        Engine.open (settingsUnder ⟨"s/s_0/../.."⟩) (Host.ofTree FileTree.empty) = .ok e host ∧
        Reached ⟨e, host⟩ r flushed ∧
        ¬Restores (settingsUnder ⟨"s/s_0/../.."⟩) r.host.tree (· ∈ r.engine.openIds) flushed) ∧
    ∃ e host failure r,
      FileTree.empty.exists (storePath (Path.dots 2035) "s") = false ∧
        (settingsUnder (Path.dots 2035)).ReadsBack ∧
        Engine.open (settingsUnder (Path.dots 2035)) (Host.ofTree FileTree.empty) = .ok e host ∧
        EngineAction.addPartition (-2147483648) ⟨e, host⟩ = .error failure r ∧
        ∀ flushed, ¬Restores (settingsUnder (Path.dots 2035)) r.host.tree
          (· ∈ r.engine.openIds) flushed := by
  constructor
  · -- Two openings are evaluated at once, with a drop between them.
    have key : Action.succeedsWith (Engine.open (settingsUnder ⟨"s/s_0/../.."⟩))
        (Host.ofTree FileTree.empty) (fun e host =>
          let r := (Call.removePartition 0).next ⟨e, host⟩
          !r.engine.openIds.contains 0 &&
            Action.succeedsWith (Engine.open (settingsUnder ⟨"s/s_0/../.."⟩))
              (Host.ofTree r.host.tree) (fun e' _ => e'.openIds.contains 0)) = true := by
      decide +kernel
    obtain ⟨e, host, hopen, key⟩ := Action.exists_of_succeedsWith key
    simp only [Bool.and_eq_true, Bool.not_eq_true'] at key
    obtain ⟨hgone, hagain⟩ := key
    obtain ⟨e', host', hup', hback⟩ := Action.exists_of_succeedsWith hagain
    have run : Reached ⟨e, host⟩ _ _ := Reached.start.call (.removePartition 0) trivial
    refine ⟨e, host, _, _, by decide +kernel, readsBack_settingsUnder _, hopen, run, ?_⟩
    -- Partition 0 was dropped, so a restart must not have it; but it has.
    intro restores
    obtain ⟨e'', host'', hup, hids, -⟩ := restores (settingsUnder ⟨"s/s_0/../.."⟩).workers []
    cases hup'.symm.trans hup
    rcases (hids 0).1 (List.contains_iff_mem.1 hback) with h | h
    · exact absurd h (by decide)
    · simp [h] at hgone
  · obtain ⟨fresh, e, host, failure, r, hopen, hadd, hnever⟩ :=
      not_open_of_size (FileTree.empty.leadsTo_dots (n := 2035) (by decide)) (Path.size_dots 2035)
    refine ⟨e, host, failure, r, fresh.absent, readsBack_settingsUnder _, hopen, hadd, ?_⟩
    intro flushed restores
    obtain ⟨e', host', hup, -⟩ := restores (settingsUnder (Path.dots 2035)).workers []
    exact hnever _ _ _ hup

end PartitionStore
