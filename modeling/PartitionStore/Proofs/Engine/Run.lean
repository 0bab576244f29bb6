import PartitionStore.Proofs.Engine.Fresh
import PartitionStore.Proofs.Engine.Requests

/-!
# `PartitionStore.Proofs.Engine.Run`: runs of calls

A run is any sequence of calls to an engine, of which each may succeed or fail.
`Reached` follows it together with what each partition held when it was flushed
last, and leaves the order of the registry open.

* `Sound.call`: one call keeps an engine sound.
* `Reached.sound`: so does a run, by induction on it.
-/

set_option autoImplicit false

namespace PartitionStore

open Naming StoreFolder

/-- What an engine is asked for between its opening and its end. -/
inductive Call where
  | addPartition (id : Int32)
  | removePartition (id : Int32)
  | put (id : Int32) (key value : Bytes)
  | get (id : Int32) (key : Bytes)
  | delete (id : Int32) (key : Bytes)
  | sync
  deriving DecidableEq, Repr

/-- What a partition holds in memory, which is nothing if it is not open. -/
def Running.held (r : Running) (id : Int32) : SortedMap Bytes Bytes :=
  match r.engine.handle? id with
  | some h => (r.host.partition h).entries
  | none => SortedMap.empty

/-- Where the path of the partition's directory can be walked, that of its table file can be
walked too. -/
def StoreFolder.Takes (d : StoreFolder) (id : Int32) : Prop :=
  FileTree.checkText (d.partitionPath id) = .ok () →
    FileTree.checkText (Partition.tableFile (d.partitionPath id)) = .ok ()

namespace Call

/-- The engine and its host after the call, whether it succeeds or not. -/
def next : Call → Running → Running
  | addPartition id, r => Action.after (EngineAction.addPartition id r)
  | removePartition id, r => Action.after (EngineAction.removePartition id r)
  | put id key value, r => Action.after (EngineAction.put id key value r)
  | get id key, r => Action.after (EngineAction.get id key r)
  | delete id key, r => Action.after (EngineAction.delete id key r)
  | sync, r => Action.after (EngineAction.sync r)

/-- What the partitions held when they were flushed last, after the call. A new partition is
flushed when it is made. -/
def flushed : Call → Running → (Int32 → SortedMap Bytes Bytes) → Int32 → SortedMap Bytes Bytes
  | addPartition id, r, before =>
    match EngineAction.addPartition id r with
    | .ok _ r' => Function.update before id (r'.held id)
    | .error _ _ => before
  | removePartition id, r, before =>
    match EngineAction.removePartition id r with
    | .ok _ _ => Function.update before id SortedMap.empty
    | .error _ _ => before
  | sync, r, before => flushedBySync r.engine.registry r.host before
  | put .., _, before => before
  | get .., _, before => before
  | delete .., _, before => before

/-- The folder takes the partition that is to be made. -/
def Fits (d : StoreFolder) : Call → Prop
  | addPartition id => d.Takes id
  | _ => True

end Call

/-- Calls lead from `initial` to an engine and a host, with what each partition held when it was
flushed last. The registry may be in another order after any of them. -/
inductive Reached (initial : Running) : Running → (Int32 → SortedMap Bytes Bytes) → Prop where
  | start : Reached initial initial initial.held
  | call {r : Running} {flushed : Int32 → SortedMap Bytes Bytes}
      (before : Reached initial r flushed) (call : Call) (fits : call.Fits r.engine.folder) :
      Reached initial (call.next r) (call.flushed r flushed)
  | reorder {r : Running} {flushed : Int32 → SortedMap Bytes Bytes}
      (before : Reached initial r flushed) {registry : List (Int32 × Handle)}
      (perm : registry.Perm r.engine.registry) :
      Reached initial ⟨{ r.engine with registry }, r.host⟩ flushed

variable {c : EngineSettings} {d : StoreFolder} {loc : Location} {r initial : Running}
  {flushed : Int32 → SortedMap Bytes Bytes} {id : Int32} {h : Handle}

/-! ### One call -/

/-- A table file's path that can be walked leaves the directory nine bytes of room. -/
theorem StoreFolder.Takes.hasRoom (takes : d.Takes id)
    (hdir : FileTree.checkText (d.partitionPath id) = .ok ()) :
    (d.partitionPath id).HasRoom 9 :=
  Partition.hasRoom_of_files (text_partitionPath_ne d id) (endsWithSlash_partitionPath d id)
    (.inl rfl) (takes hdir)

/-- A store takes a partition whose name and path were checked. -/
theorem StoreFolder.takes_of_isOk
    (h : (FileTree.checkText (Partition.tableFile (d.partitionPath id))).isOk = true) :
    d.Takes id := by
  intro _
  cases hfile : FileTree.checkText (Partition.tableFile (d.partitionPath id)) with
  | ok _ => rfl
  | error failure =>
      rw [hfile] at h
      cases h

/-- What the engine holds for an id is what the partition of its handle holds. -/
theorem Opened.held_eq {e : Engine} {host : Host} (opened : Opened c d flushed host e.registry)
    (hmem : (id, h) ∈ e.registry) :
    (⟨e, host⟩ : Running).held id = (host.partition h).entries := by
  rw [Running.held, Engine.handle?, opened.lookup_iff.2 hmem]

/-- The order of the registry makes no difference. -/
theorem Sound.reorder (sound : Sound c d loc flushed r) {registry : List (Int32 × Handle)}
    (perm : registry.Perm r.engine.registry) :
    Sound c d loc flushed ⟨{ r.engine with registry }, r.host⟩ := by
  let e : Engine := { r.engine with registry }
  have hids : ∀ i, i ∈ e.openIds ↔ i ∈ r.engine.openIds := by
    intro i
    rw [Engine.mem_openIds_iff, Engine.mem_openIds_iff]
    exact (perm.map Prod.fst).mem_iff
  have hpredicate : (· ∈ e.openIds) = (· ∈ r.engine.openIds) := funext fun i => propext (hids i)
  refine ⟨sound.settings, sound.folder, sound.backend, sound.phase, sound.store,
    hpredicate ▸ sound.disk, ⟨?_, ?_, ?_⟩, ?_⟩
  · exact (perm.map Prod.fst).nodup_iff.2 sound.opened.ids
  · exact (perm.map Prod.snd).nodup_iff.2 sound.opened.handles
  · intro i h hmem
    exact sound.opened.held i h (perm.mem_iff.1 hmem)
  · intro hnot
    exact sound.dropped fun hmetadata => hnot ((hids metadataId).2 hmetadata)

/-- A call keeps an engine sound, be it successful or not. -/
theorem Sound.call (sound : Sound c d loc flushed r) (call : Call) (fits : call.Fits d) :
    Sound c d loc (call.flushed r flushed) (call.next r) := by
  cases call with
  | addPartition id =>
      show Sound c d loc (match EngineAction.addPartition id r with
        | .ok _ r' => Function.update flushed id (r'.held id)
        | .error _ _ => flushed) (Action.after (EngineAction.addPartition id r))
      rcases sound.addPartition id fun hdir => StoreFolder.Takes.hasRoom fits hdir with
        ⟨h, r', hadd, hmem, hempty, hsound⟩ | ⟨e, hadd⟩
      · -- A new partition holds nothing, which is what its table was written with.
        have hheld : r'.held id = SortedMap.empty := (hsound.opened.held_eq hmem).trans hempty
        rw [hadd]
        simp only [hheld]
        exact hsound
      · rw [hadd]
        exact sound
  | removePartition id =>
      show Sound c d loc (match EngineAction.removePartition id r with
        | .ok _ _ => Function.update flushed id SortedMap.empty
        | .error _ _ => flushed) (Action.after (EngineAction.removePartition id r))
      obtain ⟨r', hremove, hsound⟩ := sound.removePartition id
      rw [hremove]
      exact hsound
  | put id key value => exact sound.put id key value
  | get id key =>
      show Sound c d loc flushed (Action.after (EngineAction.get id key r))
      rw [sound.get id key]
      exact sound
  | delete id key => exact sound.delete id key
  | sync => exact sound.sync

/-! ### Many calls -/

/-- A run keeps an engine sound that came up with what is on disk. -/
theorem Reached.sound (run : Reached initial r flushed)
    (sound : Sound c d loc initial.held initial) : Sound c d loc flushed r := by
  -- The invariant says more of the end than of the start, where what is held was flushed.
  induction run with
  | start => exact sound
  | call before call fits ih => exact ih.call call (ih.folder ▸ fits)
  | reorder before perm ih => exact ih.reorder perm

end PartitionStore
