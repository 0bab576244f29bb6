import PartitionStore.Proofs.Engine.Disk
import PartitionStore.Proofs.Engine.Steps
import PartitionStore.Proofs.Stored

/-!
# `PartitionStore.Proofs.Engine.Closing`: what a close leaves in the folder

Closing goes through the registry and flushes one partition after another. Where
nothing fails, the folder has in the end what every partition held, with the
format that the partition had (`Stored.close_ok`).
-/

set_option autoImplicit false

namespace PartitionStore

open FileTree Naming PartitionStore.Partition StoreFolder

variable {c : EngineSettings} {d : StoreFolder} {loc : Location} {ids : Int32 → Prop}
  {table : Int32 → Table} {r r' : Running}

/-- Of the partitions that were registered on the host `start`, those of `todo` are still to be
closed and are what they were. The tables of all others have what those held. -/
def Closing (c : EngineSettings) (d : StoreFolder) (loc : Location) (ids : Int32 → Prop)
    (start : Host) (registry todo : List (Int32 × Handle)) (host : Host) : Prop :=
  ∃ table, Stored d loc table host ids todo ∧ Recorded c d loc host.tree ∧ todo ⊆ registry ∧
    (∀ id h, (id, h) ∈ todo → host.partition h = start.partition h) ∧
    ∀ id h, (id, h) ∈ registry → id ∉ todo.map Prod.fst → table id = (start.partition h).table

/-- One partition is closed, and its table has what it held. -/
theorem Closing.close {start host host' : Host} {registry rest : List (Int32 × Handle)}
    {id : Int32} {h : Handle} (hids : (registry.map Prod.fst).Nodup)
    (closing : Closing c d loc ids start registry ((id, h) :: rest) host)
    (hclose : HostAction.close h host = .ok () host') :
    Closing c d loc ids start registry rest host' := by
  obtain ⟨table, stored, recorded, hsub, hsame, hdone⟩ := closing
  have hmem : (id, h) ∈ (id, h) :: rest := List.mem_cons_self ..
  obtain ⟨t, confined, ⟨part, hrun, hstored⟩ | ⟨⟨e, hrun⟩, -⟩⟩ := stored.close_cases hmem
  · cases hclose.symm.trans hrun
    rw [unregister_head stored.registered.ids] at hstored
    refine ⟨_, hstored, recorded.congr confined, fun entry he => hsub (List.mem_cons_of_mem _ he),
      fun i g hg => ?_, fun i g hg hi => ?_⟩
    · -- The others are behind other handles.
      have hne : g ≠ h := by
        rintro rfl
        exact (List.nodup_cons.1 stored.registered.handles).1 (List.mem_map.2 ⟨_, hg, rfl⟩)
      rw [Host.partition_setPartition_of_ne _ _ hne]
      exact hsame i g (List.mem_cons_of_mem _ hg)
    · by_cases hid : i = id
      · -- An id is registered under one handle, so this is the partition that was closed.
        subst hid
        obtain rfl : g = h := (Prod.mk.inj (List.inj_on_of_nodup_map hids hg (hsub hmem) rfl)).2
        rw [Function.update_self, hsame i g hmem, Partition.table]
      · rw [Function.update_of_ne hid]
        refine hdone i g hg fun hin => ?_
        rcases List.mem_cons.1 hin with e | hin
        · exact hid e
        · exact hi hin
  · cases hclose.symm.trans hrun

/-- A close that succeeds leaves what all registered partitions held. -/
theorem Stored.close_ok
    (stored : Stored d loc table r.host ids r.engine.registry)
    (recorded : Recorded c d loc r.host.tree)
    (hphase : r.engine.phase = .opened) (hbackend : r.engine.backend = Backend.table)
    (hclose : EngineAction.close r = .ok () r') :
    ∃ table', Tables d loc r'.host.tree ids table' ∧ Recorded c d loc r'.host.tree ∧
      ∀ id h, (id, h) ∈ r.engine.registry → table' id = (r.host.partition h).table := by
  obtain ⟨r₁, heach, rfl⟩ := (EngineAction.close_eq_ok_iff hphase).1 hclose
  rw [hbackend] at heach
  have step : ∀ (entry : Int32 × Handle) (rest : List (Int32 × Handle)) (host host' : Host),
      Closing c d loc ids r.host r.engine.registry (entry :: rest) host →
        HostAction.close entry.2 host = .ok () host' →
          Closing c d loc ids r.host r.engine.registry rest host' :=
    fun _ _ _ _ closing hrun => closing.close stored.registered.ids hrun
  have start : Closing c d loc ids r.host r.engine.registry r.engine.registry r.host :=
    ⟨table, stored, recorded, List.Subset.refl _, fun _ _ _ => rfl,
      fun id h hmem hnot => absurd (List.mem_map.2 ⟨_, hmem, rfl⟩) hnot⟩
  obtain ⟨table', stored', recorded', -, -, hdone⟩ :=
    @EngineAction.inv_of_forEachAttempt _ ⟨{ r.engine with registry := [] }, r.host⟩ r₁ _ _ _ step
      start heach
  exact ⟨table', stored'.tables, recorded', fun id h hmem => hdone id h hmem (by simp)⟩

end PartitionStore
