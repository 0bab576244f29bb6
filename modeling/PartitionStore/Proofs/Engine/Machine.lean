import PartitionStore.Proofs.Engine.Trace
import PartitionStore.Proofs.SortedMap

/-!
# `PartitionStore.Proofs.Engine.Machine`: what a store is to its users

To its users a store is a finite map from ids to finite maps of byte strings,
which lives until it is closed or dropped. `Machine` is just that: it has no
files, no handles and no backend, and `Machine.step` says in full what a request
does to it and what it is answered with.

A format is nothing but part of the answer to the request for a partition.

* `Machine.serve_get_after`: a key has the value that it was put under last, unless the
  key was deleted or the partition was removed since then.
-/

set_option autoImplicit false

namespace PartitionStore

/-- A finite map of finite maps, for a store of this name and format. -/
structure Machine where
  store : String
  format : TableFormat
  phase : EnginePhase
  /-- The entries of the partitions by id. -/
  partitions : SortedMap Int32 (SortedMap Bytes Bytes)

namespace Machine

/-- A machine that was just opened, with a metadata partition or without. -/
def initial (store : String) (format : TableFormat) (withMetadata : Bool) : Machine where
  store
  format
  phase := .opened
  partitions :=
    if withMetadata then SortedMap.empty.insert Naming.metadataId SortedMap.empty
    else SortedMap.empty

/-- A partition of the machine's own store and of a new id is added, without entries. -/
def add (m : Machine) (spec : PartitionSpec) : Except StoreError Reply × Machine :=
  if spec.store ≠ m.store then (.error (.request (.foreignStore spec.store m.store)), m)
  else if m.partitions.contains spec.id then (.error (.duplicatePartition spec.id), m)
  else (.ok (.partition spec.id spec.format),
    { m with partitions := m.partitions.insert spec.id SortedMap.empty })

/-- The value of a key in a partition. -/
def find (m : Machine) (id : Int32) (key : Bytes) : Except StoreError Reply :=
  match m.partitions.get? id with
  | none => .error (.unknownPartition id)
  | some entries => .ok (.value (entries.get? key))

/-- The entries of a partition change. -/
def change (m : Machine) (id : Int32) (change : SortedMap Bytes Bytes → SortedMap Bytes Bytes) :
    Except StoreError Reply × Machine :=
  match m.partitions.get? id with
  | none => (.error (.unknownPartition id), m)
  | some entries => (.ok .done, { m with partitions := m.partitions.insert id (change entries) })

/-- What a machine that is open does with a request. -/
def stepOpened (m : Machine) : Request → Except StoreError Reply × Machine
  | .addPartition id => m.add ⟨m.store, id, m.format⟩
  | .addPartitionAs spec => m.add spec
  | .removePartition id => (.ok .done, { m with partitions := m.partitions.erase id })
  | .put id key value => m.change id (·.insert key value)
  | .get id key => (m.find id key, m)
  | .delete id key => m.change id (·.erase key)
  | .sync => (.ok .done, m)
  | .close => (.ok .done, { m with phase := .closed, partitions := SortedMap.empty })
  | .removeStore => (.ok .done, { m with phase := .dropped, partitions := SortedMap.empty })

/-- What a machine does with a request. Once it is closed it can be closed again. -/
def step (m : Machine) (request : Request) : Except StoreError Reply × Machine :=
  match m.phase with
  | .opened => m.stepOpened request
  | .closed => (if request = .close then .ok .done else .error .engineNotOpen, m)
  | .dropped => (.error .engineDropped, m)

/-- What is seen of the machine when it has answered the request, and the machine itself. -/
def serve (m : Machine) (request : Request) : Observation × Machine :=
  (⟨(m.step request).1, (m.step request).2.phase, (m.step request).2.partitions.keys⟩,
    (m.step request).2)

variable {m : Machine} {request : Request}

/-- While the machine is open a request is done. -/
theorem step_of_opened (h : m.phase = .opened) : m.step request = m.stepOpened request := by
  rw [step, h]

/-- A closed machine can be closed again, and refuses everything else. -/
theorem step_of_closed (h : m.phase = .closed) :
    m.step request = (if request = .close then .ok .done else .error .engineNotOpen, m) := by
  rw [step, h]

/-- A dropped machine refuses everything. -/
theorem step_of_dropped (h : m.phase = .dropped) :
    m.step request = (.error .engineDropped, m) := by
  rw [step, h]

/-- What is seen of a machine that is given one request after another. -/
def run (m : Machine) : List Request → List Observation
  | [] => []
  | request :: rest => (m.serve request).1 :: (m.serve request).2.run rest

/-- The machine after all of them. -/
def after (m : Machine) : List Request → Machine
  | [] => m
  | request :: rest => (m.serve request).2.after rest

/-! ### What is found under a key -/

/-- The value of a key in a partition, if there is such a partition with such a key. -/
def value? (m : Machine) (id : Int32) (key : Bytes) : Option Bytes :=
  (m.partitions.get? id).bind (·.get? key)

/-- What a request that was answered says of a key in a partition: that it has this value, or that
it has none. Requests that failed say nothing, and neither do most others. -/
def says? (id : Int32) (key : Bytes) : Request × Except StoreError Reply → Option (Option Bytes)
  | (.put i k value, .ok _) => if i = id ∧ k = key then some (some value) else none
  | (.delete i k, .ok _) => if i = id ∧ k = key then some none else none
  | (.removePartition i, .ok _) => if i = id then some none else none
  | _ => none

/-- What was said last of a key in a partition, by requests that were answered in this way. -/
def lastWord (requests : List Request) (seen : List Observation) (id : Int32) (key : Bytes) :
    Option (Option Bytes) :=
  (requests.zip (seen.map Observation.answer)).reverse.findSome? (says? id key)

variable {id : Int32} {key : Bytes}

/-- The entries of a partition that is not there cannot be changed. -/
theorem change_of_none {i : Int32} {f : SortedMap Bytes Bytes → SortedMap Bytes Bytes}
    (h : m.partitions.get? i = none) : m.change i f = (.error (.unknownPartition i), m) := by
  rw [change, h]

/-- The entries of a partition are changed, and no others. -/
theorem change_of_some {i : Int32} {f : SortedMap Bytes Bytes → SortedMap Bytes Bytes}
    {entries : SortedMap Bytes Bytes} (h : m.partitions.get? i = some entries) :
    m.change i f = (.ok .done, { m with partitions := m.partitions.insert i (f entries) }) := by
  rw [change, h]

/-- A new partition is empty, and all others are what they were. -/
theorem value?_add (m : Machine) (spec : PartitionSpec) :
    (m.add spec).2.value? id key = m.value? id key := by
  rw [add]
  split
  · rfl
  split
  · rfl
  rename_i hnew
  by_cases hid : id = spec.id
  · have hnone : m.partitions.get? spec.id = none := by
      simpa [SortedMap.contains] using hnew
    simp [value?, hid, hnone]
  · simp [value?, SortedMap.get?_insert_of_ne _ _ hid]

/-- In the partition whose entries change a key has what they then have. -/
theorem value?_insert (m : Machine) (i : Int32) (entries : SortedMap Bytes Bytes) :
    ({ m with partitions := m.partitions.insert i entries } : Machine).value? id key =
      if i = id then entries.get? key else m.value? id key := by
  by_cases hid : i = id
  · simp [value?, hid]
  · simp [value?, hid, SortedMap.get?_insert_of_ne _ _ (Ne.symm hid)]

/-- After a request a key has the value that the request says, or the one that it had. -/
theorem value?_stepOpened (hlast : request.isLast = false) :
    (m.stepOpened request).2.value? id key =
      (says? id key (request, (m.stepOpened request).1)).getD (m.value? id key) := by
  -- The value under a key is what the request says of it, and otherwise what it was. A put and a
  -- delete say something of their own id and key alone.
  cases request with
  | addPartition i => exact value?_add m _
  | addPartitionAs spec => exact value?_add m spec
  | removePartition i =>
      by_cases hid : i = id
      · simp [stepOpened, says?, value?, hid]
      · simp [stepOpened, says?, value?, hid, SortedMap.get?_erase_of_ne _ (Ne.symm hid)]
  | put i k value =>
      cases hget : m.partitions.get? i with
      | none =>
          rw [stepOpened, change_of_none hget]
          rfl
      | some entries =>
          rw [stepOpened, change_of_some hget, value?_insert, says?]
          by_cases hid : i = id
          · subst hid
            by_cases hkey : k = key
            · simp [hkey]
            · simp [hkey, hget, value?, SortedMap.get?_insert_of_ne _ _ (Ne.symm hkey)]
          · simp [hid]
  | delete i k =>
      cases hget : m.partitions.get? i with
      | none =>
          rw [stepOpened, change_of_none hget]
          rfl
      | some entries =>
          rw [stepOpened, change_of_some hget, value?_insert, says?]
          by_cases hid : i = id
          · subst hid
            by_cases hkey : k = key
            · simp [hkey]
            · simp [hkey, hget, value?, SortedMap.get?_erase_of_ne _ (Ne.symm hkey)]
          · simp [hid]
  | get | sync => rfl
  | close | removeStore => cases hlast

/-- Only the last request of a run leaves the phase. -/
theorem phase_stepOpened (hlast : request.isLast = false) :
    (m.stepOpened request).2.phase = m.phase := by
  cases request with
  | addPartition | addPartitionAs =>
      simp only [stepOpened, add]
      split
      · rfl
      · split <;> rfl
  | put | delete =>
      simp only [stepOpened, change]
      split <;> rfl
  | removePartition | get | sync => rfl
  | close | removeStore => cases hlast

/-- What was said last is said by the requests after the first one, or by that one. -/
theorem lastWord_cons {rest : List Request} {first : Observation} {seen : List Observation} :
    lastWord (request :: rest) (first :: seen) id key =
      (lastWord rest seen id key).or (says? id key (request, first.answer)) := by
  simp only [lastWord, List.map_cons, List.zip_cons_cons, List.reverse_cons,
    List.findSome?_append, List.findSome?_singleton]

/-- So the machine is still open after requests that are not the last, by induction on them. -/
theorem phase_after {requests : List Request} (hphase : m.phase = .opened)
    (hlast : ∀ request ∈ requests, request.isLast = false) :
    (m.after requests).phase = .opened := by
  induction requests generalizing m with
  | nil => exact hphase
  | cons request rest ih =>
      refine ih ?_ fun next hnext => hlast next (List.mem_cons_of_mem _ hnext)
      rw [serve, step_of_opened hphase, phase_stepOpened (hlast request (List.mem_cons_self ..)),
        hphase]

/-- After several requests a key has the value that was said last. -/
theorem value?_after {requests : List Request} (hphase : m.phase = .opened)
    (hlast : ∀ request ∈ requests, request.isLast = false) :
    (m.after requests).value? id key =
      (lastWord requests (m.run requests) id key).getD (m.value? id key) := by
  induction requests generalizing m with
  | nil => rfl
  | cons request rest ih =>
      have hhead := hlast request (List.mem_cons_self ..)
      have hnext : (m.step request).2.phase = .opened := by
        rw [step_of_opened hphase, phase_stepOpened hhead, hphase]
      have hrest := ih hnext fun next hmem => hlast next (List.mem_cons_of_mem _ hmem)
      rw [after, serve, hrest, run, serve, lastWord_cons, step_of_opened hphase,
        value?_stepOpened hhead, Option.getD_or]

/-- In a partition that is there, a key is found with the value that was said last. It has none if
that was said, or if nothing was said of it since the machine was opened. -/
theorem serve_get_after (store : String) (format : TableFormat) (withMetadata : Bool)
    {requests : List Request} (hlast : ∀ request ∈ requests, request.isLast = false)
    (hid : id ∈ ((initial store format withMetadata).after requests).partitions.keys) :
    (((initial store format withMetadata).after requests).serve (.get id key)).1.answer =
      .ok (.value ((lastWord requests ((initial store format withMetadata).run requests) id
        key).getD none)) := by
  obtain ⟨entries, hget⟩ := SortedMap.mem_keys_iff.1 hid
  -- No partition has entries at first.
  have hvalue : (initial store format withMetadata).value? id key = none := by
    rw [value?, initial]
    cases withMetadata with
    | false => rfl
    | true =>
        by_cases hmetadata : id = Naming.metadataId
        · simp [hmetadata]
        · simp [SortedMap.get?_insert_of_ne _ _ hmetadata]
  have hafter := @value?_after (initial store format withMetadata) id key requests rfl hlast
  rw [value?, hget, Option.bind_some, hvalue] at hafter
  rw [serve, step_of_opened (phase_after rfl hlast), stepOpened, find, hget, ← hafter]

end Machine

end PartitionStore
