import PartitionStore.Proofs.Engine.Run
import PartitionStore.Proofs.Engine.Trace
import PartitionStore.Proofs.Stored

/-!
# `PartitionStore.Proofs.Engine.Serving`: partitions of several formats

An engine opens its partitions with the format of the store unless it is asked
for another one. `Serving` is what holds of an engine with tables between any two
requests, whatever the formats of its partitions are: they are open, and its
folder has their tables and nothing else but the record. What formats they may
have is left open.

* `Housed.sync`, `Housed.drop_ok`, `Housed.attach_cases`: what one operation keeps.
* `Serving.serve`: what one request keeps, be it successful or not.
* `Served.serving`: what any number of requests keeps.
-/

set_option autoImplicit false

namespace PartitionStore

open FileTree Naming PartitionStore.Partition StoreFolder

/-- The partitions of the registry are open on the host, with formats that are allowed for their
ids. The folder has their tables and no others, and the record of the settings or none. -/
structure Housed (c : EngineSettings) (d : StoreFolder) (loc : Location)
    (allowed : Int32 → TableFormat → Prop) (host : Host) (registry : List (Int32 × Handle)) :
    Prop where
  stored : ∃ table, Stored d loc table host (· ∈ registry.map Prod.fst) registry ∧
    ∀ id ∈ registry.map Prod.fst, allowed id (table id).format
  recorded : Recorded c d loc host.tree

/-- The engine is open, and so are its partitions. -/
structure Serving (c : EngineSettings) (d : StoreFolder) (loc : Location)
    (allowed : Int32 → TableFormat → Prop) (r : Running) : Prop where
  settings : r.engine.settings = c
  folder : r.engine.folder = d
  backend : r.engine.backend = Backend.table
  phase : r.engine.phase = .opened
  store : c.store = d.store
  housed : Housed c d loc allowed r.host r.engine.registry

variable {c : EngineSettings} {d : StoreFolder} {loc : Location}
  {allowed : Int32 → TableFormat → Prop} {host : Host} {registry : List (Int32 × Handle)}
  {r : Running} {id : Int32} {h : Handle} {spec : PartitionSpec}

/-! ### Operations -/

namespace Housed

/-- As no id is registered twice, a look-up tells what is registered. -/
theorem lookup_iff (housed : Housed c d loc allowed host registry) :
    registry.lookup id = some h ↔ (id, h) ∈ registry := by
  obtain ⟨_, stored, -⟩ := housed.stored
  exact stored.registered.lookup_iff

/-- A registered partition is open. -/
theorem isOpen (housed : Housed c d loc allowed host registry) (hmem : (id, h) ∈ registry) :
    (host.partition h).closed = false := by
  obtain ⟨_, stored, -⟩ := housed.stored
  exact (stored.kept hmem).isOpen

/-- The formats of the partitions are allowed. -/
theorem formats (housed : Housed c d loc allowed host registry) (hmem : (id, h) ∈ registry) :
    allowed id (host.partition h).format := by
  obtain ⟨table, stored, hallowed⟩ := housed.stored
  rw [(stored.kept hmem).format]
  exact hallowed id (stored.there id h hmem)

/-- The order of the registry makes no difference. -/
theorem perm (housed : Housed c d loc allowed host registry)
    {registry' : List (Int32 × Handle)} (hperm : registry'.Perm registry) :
    Housed c d loc allowed host registry' := by
  obtain ⟨table, stored, hallowed⟩ := housed.stored
  have hids (i : Int32) : i ∈ registry'.map Prod.fst ↔ i ∈ registry.map Prod.fst :=
    (hperm.map Prod.fst).mem_iff
  exact ⟨⟨table, (stored.perm hperm).congr_ids hids, fun i hi => hallowed i ((hids i).1 hi)⟩,
    housed.recorded⟩

/-- Entries may change in memory, if it is noted that there is something to write. -/
theorem touch (housed : Housed c d loc allowed host registry) (hmem : (id, h) ∈ registry)
    (entries : SortedMap Bytes Bytes) :
    Housed c d loc allowed (host.setPartition h
      { host.partition h with entries, storage := (host.partition h).storage.touched })
        registry := by
  obtain ⟨table, stored, hallowed⟩ := housed.stored
  exact ⟨⟨table, stored.touch hmem entries, hallowed⟩, housed.recorded⟩

/-- A partition may fail to be flushed. Its format stays what it is. -/
theorem sync (housed : Housed c d loc allowed host registry) (hmem : (id, h) ∈ registry) :
    Housed c d loc allowed (Action.after (HostAction.sync h host)) registry := by
  obtain ⟨table, stored, hallowed⟩ := housed.stored
  obtain ⟨t, confined, ⟨hsync, hstored⟩ | ⟨⟨e, hsync⟩, hstored, -⟩⟩ := stored.sync_cases hmem
  · rw [hsync]
    refine ⟨⟨_, hstored, fun i hi => ?_⟩, housed.recorded.congr confined⟩
    by_cases hid : i = id
    · subst hid
      rw [Function.update_self]
      exact housed.formats hmem
    · rw [Function.update_of_ne hid]
      exact hallowed i hi
  · rw [hsync]
    exact ⟨⟨table, hstored, hallowed⟩, housed.recorded.congr confined⟩

/-- A registered partition can be dropped, and what is left is housed. -/
theorem drop_ok (housed : Housed c d loc allowed host registry) (hmem : (id, h) ∈ registry) :
    ∃ host', HostAction.drop h host = .ok () host' ∧
      Housed c d loc allowed host' (registry.filter fun entry => entry.1 != id) := by
  obtain ⟨table, stored, hallowed⟩ := housed.stored
  obtain ⟨t, part, confined, hdrop, hstored⟩ := stored.drop_ok hmem
  refine ⟨_, hdrop, ⟨table, hstored.congr_ids fun i => mem_ids_unregistered_iff, ?_⟩,
    housed.recorded.congr confined⟩
  intro i hi
  exact hallowed i (mem_ids_unregistered_iff.1 hi).2

/-- A partition of a new id and of an allowed format is made, or that fails and changes nothing. -/
theorem attach_cases (housed : Housed c d loc allowed host registry) (hstore : spec.store = d.store)
    (hid : spec.id ∉ registry.map Prod.fst) (takes : d.Takes spec.id)
    (hallow : allowed spec.id spec.format) :
    (∃ h host', Backend.table.attach d spec host = .ok h host' ∧
        Housed c d loc allowed host' (registry ++ [(spec.id, h)])) ∨
      ∃ e, Backend.table.attach d spec host = .error e host := by
  obtain ⟨table, stored, hallowed⟩ := housed.stored
  rcases stored.attach_cases hstore hid takes.hasRoom with
    ⟨t, confined, hattach, hstored⟩ | ⟨-, e, hattach⟩
  · refine .inl ⟨_, _, hattach, ⟨_, hstored.congr_ids fun i => mem_ids_registered_iff, ?_⟩,
      housed.recorded.congr confined⟩
    intro i hi
    by_cases hnew : i = spec.id
    · subst hnew
      rw [Function.update_self]
      exact hallow
    · rw [Function.update_of_ne hnew]
      exact hallowed i ((mem_ids_registered_iff.1 hi).resolve_left hnew)
  · exact .inr ⟨e, hattach⟩

end Housed

/-! ### Requests -/

namespace Serving

/-- The host changes, and the registry does not. -/
theorem withHost (serving : Serving c d loc allowed r)
    (housed : Housed c d loc allowed host r.engine.registry) :
    Serving c d loc allowed ⟨r.engine, host⟩ :=
  ⟨serving.settings, serving.folder, serving.backend, serving.phase, serving.store, housed⟩

/-- The host and the registry change together. -/
theorem withRegistry (serving : Serving c d loc allowed r)
    (housed : Housed c d loc allowed host registry) :
    Serving c d loc allowed ⟨Engine.reported { r.engine with registry } host.tree, host⟩ := by
  refine ⟨?_, ?_, ?_, ?_, serving.store, ?_⟩
  · simpa using serving.settings
  · simpa using serving.folder
  · simpa using serving.backend
  · simpa using serving.phase
  · simpa using housed

/-- The order of the registry makes no difference. -/
theorem reorder (serving : Serving c d loc allowed r)
    (hperm : registry.Perm r.engine.registry) :
    Serving c d loc allowed ⟨{ r.engine with registry }, r.host⟩ :=
  ⟨serving.settings, serving.folder, serving.backend, serving.phase, serving.store,
    serving.housed.perm hperm⟩

/-- A partition is added if its name and path are short enough. Where it is refused nothing has
changed. -/
theorem addPartitionAs (serving : Serving c d loc allowed r) (takes : d.Takes spec.id)
    (hallow : spec.store = c.store → allowed spec.id spec.format) :
    Serving c d loc allowed (Action.after (EngineAction.addPartitionAs spec r)) := by
  rw [EngineAction.addPartitionAs_eq serving.phase, serving.settings, serving.backend,
    serving.folder]
  by_cases hstore : spec.store ≠ c.store
  · rw [if_pos hstore]
    exact serving
  rw [if_neg hstore]
  by_cases hopen : r.engine.hasOpen spec.id = true
  · rw [if_pos hopen]
    exact serving
  rw [if_neg hopen]
  -- The partition is one of this store, and its id is a new one.
  have hown := not_not.1 hstore
  rcases serving.housed.attach_cases (hown.trans serving.store)
      (mt Engine.hasOpen_iff.2 hopen) takes (hallow hown) with
    ⟨h, host', hattach, housed⟩ | ⟨e, hattach⟩
  · rw [hattach]
    exact serving.withRegistry housed
  · rw [hattach]
    exact serving

/-- A partition is dropped, or there is none of that id. -/
theorem removePartition (serving : Serving c d loc allowed r) (id : Int32) :
    Serving c d loc allowed (Action.after (EngineAction.removePartition id r)) := by
  rw [EngineAction.removePartition_eq serving.phase, serving.backend]
  cases hlookup : r.engine.handle? id with
  | none => exact serving
  | some h =>
      obtain ⟨host', hdrop, housed⟩ :=
        serving.housed.drop_ok (serving.housed.lookup_iff.1 hlookup)
      have hdrop' : Backend.table.drop h r.host = .ok () host' := hdrop
      simp only [hdrop']
      exact serving.withRegistry housed

/-- A put changes a registered partition in memory, or none. -/
theorem put (serving : Serving c d loc allowed r) (id : Int32) (key value : Bytes) :
    Serving c d loc allowed (Action.after (EngineAction.put id key value r)) := by
  rw [EngineAction.put_eq serving.phase, serving.backend]
  cases hlookup : r.engine.handle? id with
  | none => exact serving
  | some h =>
      have hmem := serving.housed.lookup_iff.1 hlookup
      have hput : Backend.table.put h key value r.host = .ok () _ :=
        HostAction.put_of_ok (put_of_isOpen (serving.housed.isOpen hmem) key value)
      simp only [EngineAction.onHost_of_ok hput]
      exact serving.withHost (serving.housed.touch hmem _)

/-- A get changes nothing. -/
theorem get (serving : Serving c d loc allowed r) (id : Int32) (key : Bytes) :
    Serving c d loc allowed (Action.after (EngineAction.get id key r)) := by
  rw [EngineAction.get_eq serving.phase, serving.backend]
  cases hlookup : r.engine.handle? id with
  | none => exact serving
  | some h =>
      have hmem := serving.housed.lookup_iff.1 hlookup
      have hget : Backend.table.get h key r.host = .ok _ r.host :=
        HostAction.get_of_ok (get_of_isOpen (serving.housed.isOpen hmem) key)
      simp only [EngineAction.onHost_of_ok hget]
      exact serving

/-- A delete changes a registered partition in memory, or none. -/
theorem delete (serving : Serving c d loc allowed r) (id : Int32) (key : Bytes) :
    Serving c d loc allowed (Action.after (EngineAction.delete id key r)) := by
  rw [EngineAction.delete_eq serving.phase, serving.backend]
  cases hlookup : r.engine.handle? id with
  | none => exact serving
  | some h =>
      have hmem := serving.housed.lookup_iff.1 hlookup
      have hdelete : Backend.table.delete h key r.host = .ok () _ :=
        HostAction.delete_of_ok (delete_of_isOpen (serving.housed.isOpen hmem) key)
      simp only [EngineAction.onHost_of_ok hdelete]
      refine serving.withHost ?_
      by_cases hbound : (r.host.partition h).entries.contains key = true
      · rw [if_pos hbound]
        exact serving.housed.touch hmem _
      · -- There was nothing to unbind, and the partition is put back as it was.
        rw [if_neg hbound, Host.setPartition_partition]
        exact serving.housed

/-- A sync writes one table after the other. Where an entry is too long it stops, with the tables
before that one written. -/
theorem sync (serving : Serving c d loc allowed r) :
    Serving c d loc allowed (Action.after (EngineAction.sync r)) := by
  rw [EngineAction.sync_eq serving.phase, serving.backend]
  have step : ∀ entry ∈ r.engine.registry, ∀ host,
      Housed c d loc allowed host r.engine.registry →
        Housed c d loc allowed (Action.after (Backend.table.sync entry.2 host)) r.engine.registry :=
    fun entry hentry _ housed => housed.sync hentry
  obtain ⟨host, hafter, housed⟩ := EngineAction.after_forM_onHost step serving.housed
  have hsync := serving.withHost housed
  rw [← hafter] at hsync
  exact hsync

/-- A request that does not end the engine's life leaves it serving, be it answered or refused. -/
theorem serve (serving : Serving c d loc allowed r) {request : Request}
    (hlast : request.isLast = false)
    (takes : ∀ spec, request.spec? c = some spec → d.Takes spec.id)
    (hallow : ∀ spec, request.spec? c = some spec → spec.store = c.store →
      allowed spec.id spec.format) :
    Serving c d loc allowed (request.serve r).2 := by
  cases request with
  | addPartition id =>
      rw [Request.serve_snd_addPartition, EngineAction.addPartition_eq, serving.settings]
      exact serving.addPartitionAs (takes _ rfl) (hallow _ rfl)
  | addPartitionAs spec =>
      rw [Request.serve_snd_addPartitionAs]
      exact serving.addPartitionAs (takes _ rfl) (hallow _ rfl)
  | removePartition id =>
      rw [Request.serve_snd_removePartition]
      exact serving.removePartition id
  | put id key value =>
      rw [Request.serve_snd_put]
      exact serving.put id key value
  | get id key =>
      rw [Request.serve_snd_get]
      exact serving.get id key
  | delete id key =>
      rw [Request.serve_snd_delete]
      exact serving.delete id key
  | sync =>
      rw [Request.serve_snd_sync]
      exact serving.sync
  | close => cases hlast
  | removeStore => cases hlast

end Serving

/-- So do any number of requests. -/
theorem Served.serving {final : Running} {requests : List Request} {seen : List Observation}
    (run : Served r requests seen final) (serving : Serving c d loc allowed r)
    (hlast : ∀ request ∈ requests, request.isLast = false)
    (takes : ∀ request ∈ requests, ∀ spec, request.spec? c = some spec → d.Takes spec.id)
    (hallow : ∀ request ∈ requests, ∀ spec, request.spec? c = some spec → spec.store = c.store →
      allowed spec.id spec.format) :
    Serving c d loc allowed final :=
  run.invariant (fun _ _ serving hperm => serving.reorder hperm)
    (fun request hrequest _ serving => serving.serve (hlast request hrequest)
      (takes request hrequest) (hallow request hrequest)) serving

end PartitionStore
