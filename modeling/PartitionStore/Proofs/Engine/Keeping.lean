import PartitionStore.Proofs.Engine.Trace

/-!
# `PartitionStore.Proofs.Engine.Keeping`: what all operations keep, requests keep

An operation of a backend may fail, and leave something behind when it does. `Keeps`
says of an invariant of a host and a registry that it survives every operation on
every registered partition, whatever its outcome. Then it survives every request to
an engine that is open, until one ends the engine's life.

* `Backend.Keeps.serve`: what one request keeps.
* `Served.live`: what any number of requests keeps.
-/

set_option autoImplicit false

namespace PartitionStore

/-- An invariant that survives every operation of the backend, be it successful or not, and the
removal of those partitions that are `removable`. -/
structure Backend.Keeps (b : Backend) (d : StoreFolder) (removable : Int32 → Prop)
    (inv : Host → List (Int32 × Handle) → Prop) : Prop where
  perm : ∀ {host registry registry'}, inv host registry → registry'.Perm registry →
    inv host registry'
  attach : ∀ {host registry spec h host'}, inv host registry → spec.id ∉ registry.map Prod.fst →
    b.attach d spec host = .ok h host' → inv host' (registry ++ [(spec.id, h)])
  attach_error : ∀ {host registry spec e host'}, inv host registry →
    spec.id ∉ registry.map Prod.fst → b.attach d spec host = .error e host' → inv host' registry
  put : ∀ {host registry id h} key value, inv host registry → (id, h) ∈ registry →
    inv (Action.after (b.put h key value host)) registry
  get : ∀ {host registry id h} key, inv host registry → (id, h) ∈ registry →
    inv (Action.after (b.get h key host)) registry
  delete : ∀ {host registry id h} key, inv host registry → (id, h) ∈ registry →
    inv (Action.after (b.delete h key host)) registry
  sync : ∀ {host registry id h}, inv host registry → (id, h) ∈ registry →
    inv (Action.after (b.sync h host)) registry
  drop : ∀ {host registry id h host'}, inv host registry → (id, h) ∈ registry → removable id →
    b.drop h host = .ok () host' → inv host' (registry.filter fun entry => entry.1 != id)
  drop_error : ∀ {host registry id h e host'}, inv host registry → (id, h) ∈ registry →
    b.drop h host = .error e host' → inv host' registry

/-- The engine is open, with the backend and the folder, and the invariant holds. -/
structure Live (b : Backend) (d : StoreFolder) (inv : Host → List (Int32 × Handle) → Prop)
    (r : Running) : Prop where
  phase : r.engine.phase = .opened
  backend : r.engine.backend = b
  folder : r.engine.folder = d
  inv : inv r.host r.engine.registry

variable {b : Backend} {d : StoreFolder} {removable : Int32 → Prop}
  {inv : Host → List (Int32 × Handle) → Prop} {r r' : Running} {request : Request}

/-- A handle that is found for an id is registered under it. -/
theorem Engine.mem_of_handle? {e : Engine} {id : Int32} {h : Handle}
    (hlookup : e.handle? id = some h) : (id, h) ∈ e.registry := by
  obtain ⟨front, back, hregistry, -⟩ := List.lookup_eq_some_iff.1 hlookup
  rw [hregistry]
  simp

/-- Only the registry is changed, and the engine may report. -/
theorem Live.registered (live : Live b d inv r) {host : Host}
    {registry : List (Int32 × Handle)} (h : inv host registry) :
    Live b d inv ⟨Engine.reported { r.engine with registry } host.tree, host⟩ := by
  refine ⟨?_, ?_, ?_, ?_⟩
  · rw [Engine.phase_reported]
    exact live.phase
  · rw [Engine.backend_reported]
    exact live.backend
  · rw [Engine.folder_reported]
    exact live.folder
  · rw [Engine.registry_reported]
    exact h

/-- The engine goes on serving on another host of which the invariant holds. -/
theorem Live.withHost (live : Live b d inv r) {host : Host} (h : inv host r.engine.registry) :
    Live b d inv { r with host } := ⟨live.phase, live.backend, live.folder, h⟩

/-- What an operation on a host leaves, whether it succeeds or not. -/
theorem Live.onHost {α : Type} (live : Live b d inv r) {action : HostAction α}
    (h : inv (Action.after (action r.host)) r.engine.registry) :
    Live b d inv (Action.after (EngineAction.onHost action r)) := by
  cases haction : action r.host with
  | ok a host =>
      rw [haction] at h
      rw [EngineAction.onHost_of_ok haction]
      exact live.withHost h
  | error e host =>
      rw [haction] at h
      rw [EngineAction.onHost_of_error haction]
      exact live.withHost h

/-- A request for what one partition holds is at most one operation on it. -/
theorem Live.onPartition {α : Type} (live : Live b d inv r) {id : Int32}
    {action : Handle → HostAction α} {asked : EStateM.Result StoreError Running α}
    (hasked : asked = match r.engine.handle? id with
      | none => .error (.unknownPartition id) r
      | some h => EngineAction.onHost (action h) r)
    (step : ∀ h, (id, h) ∈ r.engine.registry →
      inv (Action.after (action h r.host)) r.engine.registry) :
    Live b d inv (Action.after asked) := by
  rw [hasked]
  cases hlookup : r.engine.handle? id with
  | none => exact live
  | some h => exact live.onHost (step h (Engine.mem_of_handle? hlookup))

namespace Backend.Keeps

variable (keeps : b.Keeps d removable inv)
include keeps

/-- A partition is added, or refused, and the invariant holds of the registry that there is then. -/
theorem addPartitionAs (live : Live b d inv r) (spec : PartitionSpec) :
    Live b d inv (Action.after (EngineAction.addPartitionAs spec r)) := by
  rw [EngineAction.addPartitionAs_eq live.phase, live.backend, live.folder]
  split
  · exact live
  split
  · exact live
  rename_i hnew
  have hid : spec.id ∉ r.engine.registry.map Prod.fst := fun h => hnew (Engine.hasOpen_iff.2 h)
  cases hattach : b.attach d spec r.host with
  | ok h host => exact live.registered (keeps.attach live.inv hid hattach)
  | error e host => exact live.withHost (keeps.attach_error live.inv hid hattach)

/-- A partition that may be removed is dropped and leaves the registry. Where the drop fails it
stays registered. -/
theorem removePartition (live : Live b d inv r) (id : Int32)
    (hremove : ∀ r', EngineAction.removePartition id r = .ok () r' → removable id) :
    Live b d inv (Action.after (EngineAction.removePartition id r)) := by
  rw [EngineAction.removePartition_eq live.phase, live.backend] at hremove ⊢
  cases hlookup : r.engine.handle? id with
  | none => exact live
  | some h =>
      have hmem := Engine.mem_of_handle? hlookup
      rw [hlookup] at hremove
      cases hdrop : b.drop h r.host with
      | ok _ host =>
          simp only [hdrop] at hremove ⊢
          exact live.registered (keeps.drop live.inv hmem (hremove _ rfl) hdrop)
      | error e host =>
          simp only [hdrop]
          exact live.withHost (keeps.drop_error live.inv hmem hdrop)

/-- A sync goes through the registry and changes no part of it. -/
theorem sync_all (live : Live b d inv r) : Live b d inv (Action.after (EngineAction.sync r)) := by
  rw [EngineAction.sync_eq live.phase, live.backend]
  obtain ⟨host, hafter, h⟩ := @EngineAction.after_forM_onHost _ r
    (fun (entry : Int32 × Handle) => b.sync entry.2) r.engine.registry
    (fun host => inv host r.engine.registry) (fun _ hmem _ h => keeps.sync h hmem) live.inv
  rw [hafter]
  exact live.withHost h

/-- What all operations keep, a request keeps, be it answered or refused. -/
theorem serve (live : Live b d inv r) (hlast : request.isLast = false)
    (hremove : ∀ id r', request = .removePartition id →
      EngineAction.removePartition id r = .ok () r' → removable id) :
    Live b d inv (request.serve r).2 := by
  cases request with
  | addPartition id =>
      rw [Request.serve_snd_addPartition, EngineAction.addPartition_eq]
      exact keeps.addPartitionAs live _
  | addPartitionAs spec =>
      rw [Request.serve_snd_addPartitionAs]
      exact keeps.addPartitionAs live spec
  | removePartition id =>
      rw [Request.serve_snd_removePartition]
      exact keeps.removePartition live id fun r' => hremove id r' rfl
  | put id key value =>
      rw [Request.serve_snd_put]
      exact live.onPartition (live.backend ▸ EngineAction.put_eq live.phase id key value)
        fun h hmem => keeps.put key value live.inv hmem
  | get id key =>
      rw [Request.serve_snd_get]
      exact live.onPartition (live.backend ▸ EngineAction.get_eq live.phase id key)
        fun h hmem => keeps.get key live.inv hmem
  | delete id key =>
      rw [Request.serve_snd_delete]
      exact live.onPartition (live.backend ▸ EngineAction.delete_eq live.phase id key)
        fun h hmem => keeps.delete key live.inv hmem
  | sync =>
      rw [Request.serve_snd_sync]
      exact keeps.sync_all live
  -- The two that end the engine's life are left out.
  | close => cases hlast
  | removeStore => cases hlast

/-- The order in which the registry is gone through does not matter to the invariant. -/
theorem reorder (live : Live b d inv r) {registry : List (Int32 × Handle)}
    (perm : registry.Perm r.engine.registry) :
    Live b d inv ⟨{ r.engine with registry }, r.host⟩ :=
  ⟨live.phase, live.backend, live.folder, keeps.perm live.inv perm⟩

end Backend.Keeps

/-- So do any number of requests, as long as none of them ends the engine's life. -/
theorem Served.live {final : Running} {requests : List Request} {seen : List Observation}
    (run : Served r requests seen final) (keeps : b.Keeps d removable inv) (live : Live b d inv r)
    (hlast : ∀ request ∈ requests, request.isLast = false)
    (hremove : ∀ id, Request.removePartition id ∈ requests → removable id) :
    Live b d inv final :=
  run.invariant (fun _ _ live perm => keeps.reorder live perm)
    (fun request hrequest _ live => keeps.serve live (hlast request hrequest)
      fun id _ e _ => hremove id (e ▸ hrequest)) live

end PartitionStore
