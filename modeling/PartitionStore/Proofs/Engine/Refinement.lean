import PartitionStore.Proofs.Engine.Machine
import PartitionStore.Proofs.Engine.Mirrors
import PartitionStore.Proofs.Engine.Reliable
import PartitionStore.Proofs.Engine.Sound

/-!
# `PartitionStore.Proofs.Engine.Refinement`: an engine is a map of maps

`Refines` relates a machine to an engine whose registry mirrors the partitions of
the machine. On a reliable backend an engine then answers every request as the
machine does, and they are related again.

* `Refines.serve`: one request.
* `Refines.run`: any number of requests, with the registry in any order.
-/

set_option autoImplicit false

namespace PartitionStore

open FileTree Naming PartitionStore.Partition StoreFolder

variable {c : EngineSettings} {d : StoreFolder} {b : Backend} {admitted : PartitionSpec → Prop}
  {inv closing : Host → List (Int32 × Handle) → Prop} {m : Machine} {r : Running}
  {partitions : SortedMap Int32 (SortedMap Bytes Bytes)} {host : Host}
  {registry : List (Int32 × Handle)} {id : Int32}

/-- The engine is what the machine is; while it is open, the backend's invariant holds. -/
structure Refines (c : EngineSettings) (d : StoreFolder) (b : Backend)
    (inv : Host → List (Int32 × Handle) → Prop) (m : Machine) (r : Running) : Prop where
  settings : r.engine.settings = c
  folder : r.engine.folder = d
  backend : r.engine.backend = b
  store : m.store = c.store
  own : c.store = d.store
  format : m.format = c.format
  phase : r.engine.phase = m.phase
  inv : m.phase = .opened → inv r.host r.engine.registry
  ended : m.phase ≠ .opened → r.engine.registry = []
  mirrors : Mirrors m.partitions r.host r.engine.registry

/-- An engine that was asked has answered as the machine does, and is what the machine is. -/
def Matches (c : EngineSettings) (d : StoreFolder) (b : Backend)
    (inv : Host → List (Int32 × Handle) → Prop) (expected : Except StoreError Reply × Machine) :
    EStateM.Result StoreError Running Reply → Prop
  | .ok reply r => expected.1 = .ok reply ∧ Refines c d b inv expected.2 r
  | .error e r => expected.1 = .error e ∧ Refines c d b inv expected.2 r

/-! ### Requests -/

namespace Refines

/-- The machine's partitions have no order, so the registry may have any. -/
theorem reorder (refines : Refines c d b inv m r) (reliable : Reliable b d admitted inv closing)
    (hperm : registry.Perm r.engine.registry) :
    Refines c d b inv m ⟨{ r.engine with registry }, r.host⟩ := by
  refine ⟨refines.settings, refines.folder, refines.backend, refines.store, refines.own,
    refines.format, refines.phase, fun h => reliable.perm (refines.inv h) hperm, fun h => ?_,
    refines.mirrors.perm hperm⟩
  have hnil := refines.ended h
  rw [hnil] at hperm
  exact hperm.eq_nil

/-- The host changes, and the entries of partitions with it. -/
theorem withHost (refines : Refines c d b inv m r) (hphase : m.phase = .opened)
    (hinv : inv host r.engine.registry)
    (mirrors : Mirrors partitions host r.engine.registry) :
    Refines c d b inv { m with partitions } ⟨r.engine, host⟩ :=
  ⟨refines.settings, refines.folder, refines.backend, refines.store, refines.own, refines.format,
    refines.phase, fun _ => hinv, fun h => absurd hphase h, mirrors⟩

/-- The host and the registry change, and the partitions with them. -/
theorem withRegistry (refines : Refines c d b inv m r) (hphase : m.phase = .opened)
    (hinv : inv host registry) (mirrors : Mirrors partitions host registry) :
    Refines c d b inv { m with partitions }
      ⟨Engine.reported { r.engine with registry } host.tree, host⟩ := by
  refine ⟨?_, ?_, ?_, refines.store, refines.own, refines.format, ?_, fun _ => ?_,
    fun h => absurd hphase h, ?_⟩
  · simpa using refines.settings
  · simpa using refines.folder
  · simpa using refines.backend
  · simpa using refines.phase
  · simpa using hinv
  · simpa using mirrors

section Opened

variable (refines : Refines c d b inv m r) (reliable : Reliable b d admitted inv closing)
  (hphase : m.phase = .opened)
include refines reliable hphase

/-- An id is registered under a handle just if the machine has a partition of that id. -/
theorem handle?_cases (id : Int32) :
    (r.engine.handle? id = none ∧ m.partitions.get? id = none) ∨
      ∃ h, r.engine.handle? id = some h ∧ (id, h) ∈ r.engine.registry := by
  cases hlookup : r.engine.handle? id with
  | some h =>
      have registered := reliable.registered (refines.inv hphase)
      exact .inr ⟨h, rfl, registered.lookup_iff.1 hlookup⟩
  | none =>
      have hnot := mt (refines.mirrors.ids id).2 (Engine.handle?_eq_none_iff.1 hlookup)
      exact .inl ⟨rfl, by simpa [Option.eq_none_iff_forall_ne_some] using hnot⟩

/-- A partition is added on both sides, without entries, or refused on both for the same reason. -/
theorem addPartitionAs (spec : PartitionSpec) (hadmitted : spec.store = c.store → admitted spec) :
    Matches c d b inv (m.add spec)
      ((EngineAction.addPartitionAs spec >>= Request.describe) r) := by
  have hadd := EngineAction.addPartitionAs_eq (refines.phase.trans hphase) spec
  rw [refines.settings, ← refines.store, refines.backend, refines.folder] at hadd
  rw [Machine.add]
  by_cases hstore : spec.store ≠ m.store
  · rw [if_pos hstore] at hadd ⊢
    rw [Action.bind_of_error hadd]
    exact ⟨rfl, refines⟩
  rw [if_neg hstore] at hadd ⊢
  have hown := (not_not.1 hstore).trans refines.store
  rcases refines.handle?_cases reliable hphase spec.id with ⟨hnone, hget⟩ | ⟨h, hsome, hmem⟩
  · -- It is a new id, and the partition is opened.
    have hid : spec.id ∉ r.engine.registry.map Prod.fst := by
      rw [refines.mirrors.ids, hget]
      simp
    rw [if_neg (by simp [Engine.hasOpen, hnone])] at hadd
    rw [if_neg (by simp [SortedMap.contains, hget])]
    obtain ⟨host, storage, hattach, hhost, hinv⟩ := reliable.attach (refines.inv hphase)
      (hown.trans refines.own) hid (hadmitted hown)
    rw [hattach] at hadd
    have hnew : host.partition r.host.partitions.length =
        ⟨spec.id, spec.format, SortedMap.empty, storage, false⟩ := by
      rw [Host.partition, hhost]
      exact Host.partition_add_self r.host _
    rw [Action.bind_of_ok hadd, Request.describe, hnew]
    exact ⟨rfl, refines.withRegistry hphase hinv
      (refines.mirrors.add (reliable.registered (refines.inv hphase)) hhost rfl hid)⟩
  · rw [if_pos (by simp [Engine.hasOpen, hsome])] at hadd
    rw [if_pos (by simp [SortedMap.contains, refines.mirrors.entries _ h hmem]),
      Action.bind_of_error hadd]
    exact ⟨rfl, refines⟩

/-- A partition is dropped on both sides, or refused on both as there is none. -/
theorem removePartition (id : Int32) :
    Matches c d b inv (m.stepOpened (.removePartition id))
      (Request.run (.removePartition id) r) := by
  have hremove := EngineAction.removePartition_eq (refines.phase.trans hphase) id
  rw [refines.backend] at hremove
  rcases refines.handle?_cases reliable hphase id with ⟨hnone, hget⟩ | ⟨h, hsome, hmem⟩
  · rw [hnone] at hremove
    have hrun : Request.run (.removePartition id) r = .ok .done r := Action.bind_of_ok hremove
    rw [hrun, Machine.stepOpened, SortedMap.erase_of_get?_eq_none hget]
    exact ⟨rfl, refines⟩
  · obtain ⟨host, hdrop, hinv, hsame⟩ := reliable.drop (refines.inv hphase) hmem
    simp only [hsome, hdrop] at hremove
    have hrun : Request.run (.removePartition id) r = .ok .done _ := Action.bind_of_ok hremove
    rw [hrun]
    exact ⟨rfl, refines.withRegistry hphase hinv
      (refines.mirrors.remove (reliable.registered (refines.inv hphase)) hmem hsame)⟩

/-- A request that changes the entries of one partition, if there is one of that id. -/
theorem change {request : EngineAction Unit} {action : Handle → HostAction Unit}
    {change : SortedMap Bytes Bytes → SortedMap Bytes Bytes}
    (heq : request r = match r.engine.handle? id with
      | none => .error (.unknownPartition id) r
      | some h => EngineAction.onHost (action h) r)
    (hact : ∀ h, (id, h) ∈ r.engine.registry →
      ∃ part, action h r.host = .ok () (r.host.setPartition h part) ∧
        part.entries = change (r.host.partition h).entries ∧
        inv (r.host.setPartition h part) r.engine.registry)
    (fits : ∀ entries : SortedMap Bytes Bytes, (∀ entry ∈ entries.toList, Table.Fits entry) →
      ∀ entry ∈ (change entries).toList, Table.Fits entry) :
    Matches c d b inv (m.change id change) ((do request; pure .done : EngineAction Reply) r) := by
  rw [Machine.change]
  rcases refines.handle?_cases reliable hphase id with ⟨hnone, hget⟩ | ⟨h, hsome, hmem⟩
  · rw [hnone] at heq
    rw [hget, Action.bind_of_error heq]
    exact ⟨rfl, refines⟩
  · obtain ⟨part, haction, hentries, hinv⟩ := hact h hmem
    simp only [hsome, EngineAction.onHost_of_ok haction] at heq
    rw [refines.mirrors.entries id h hmem, Action.bind_of_ok heq]
    exact ⟨rfl, refines.withHost hphase hinv
      (refines.mirrors.change (reliable.registered (refines.inv hphase)) hmem hentries
        (fits _ (refines.mirrors.fits id h hmem)))⟩

/-- A value is put for a key on both sides. That it fits is what lets the next sync succeed. -/
theorem put (id : Int32) {key value : Bytes} (fits : Table.Fits (key, value)) :
    Matches c d b inv (m.stepOpened (.put id key value)) (Request.run (.put id key value) r) := by
  have hput := EngineAction.put_eq (refines.phase.trans hphase) id key value
  rw [refines.backend, reliable.put] at hput
  refine refines.change reliable hphase hput (fun h hmem => ?_) fun _ old => fits_insert old fits
  have hopen := (reliable.registered (refines.inv hphase)).each id h hmem
  exact ⟨_, HostAction.put_of_ok (put_of_isOpen hopen key value), rfl,
    reliable.touch (refines.inv hphase) hmem _⟩

/-- A key is deleted on both sides. -/
theorem delete (id : Int32) (key : Bytes) :
    Matches c d b inv (m.stepOpened (.delete id key)) (Request.run (.delete id key) r) := by
  have hdelete := EngineAction.delete_eq (refines.phase.trans hphase) id key
  rw [refines.backend, reliable.delete] at hdelete
  refine refines.change reliable hphase hdelete (fun h hmem => ?_) fun _ old => fits_erase old key
  have hopen := (reliable.registered (refines.inv hphase)).each id h hmem
  refine ⟨_, HostAction.delete_of_ok (delete_of_isOpen hopen key), ?_⟩
  by_cases hbound : (r.host.partition h).entries.contains key = true
  · rw [if_pos hbound]
    exact ⟨rfl, reliable.touch (refines.inv hphase) hmem _⟩
  · -- There was nothing to unbind, and the partition is put back as it was.
    have hget : (r.host.partition h).entries.get? key = none := by
      simpa [SortedMap.contains] using hbound
    rw [if_neg hbound, Host.setPartition_partition, SortedMap.erase_of_get?_eq_none hget]
    exact ⟨rfl, refines.inv hphase⟩

/-- The same value is found on both sides, or none. -/
theorem get (id : Int32) (key : Bytes) :
    Matches c d b inv (m.stepOpened (.get id key)) (Request.run (.get id key) r) := by
  have hget := EngineAction.get_eq (refines.phase.trans hphase) id key
  rw [refines.backend, reliable.get] at hget
  rw [Machine.stepOpened, Machine.find]
  rcases refines.handle?_cases reliable hphase id with ⟨hnone, hfind⟩ | ⟨h, hsome, hmem⟩
  · rw [hnone] at hget
    have hrun : Request.run (.get id key) r = .error (.unknownPartition id) r :=
      Action.bind_of_error hget
    rw [hfind, hrun]
    exact ⟨rfl, refines⟩
  · have hopen := (reliable.registered (refines.inv hphase)).each id h hmem
    simp only [hsome, EngineAction.onHost_of_ok
      (HostAction.get_of_ok (get_of_isOpen hopen key))] at hget
    have hrun : Request.run (.get id key) r =
        .ok (.value ((r.host.partition h).entries.get? key)) r := Action.bind_of_ok hget
    rw [refines.mirrors.entries id h hmem, hrun]
    exact ⟨rfl, refines⟩

/-- The machine does nothing for a sync, and the engine nothing that the machine could tell. -/
theorem sync : Matches c d b inv (m.stepOpened .sync) (Request.run .sync r) := by
  have hsync := EngineAction.sync_eq (refines.phase.trans hphase)
  rw [refines.backend] at hsync
  -- All along the entries are what they were.
  let during (todo : List (Int32 × Handle)) (host : Host) : Prop :=
    todo ⊆ r.engine.registry ∧ inv host r.engine.registry ∧
      ∀ g, (host.partition g).entries = (r.host.partition g).entries
  have step : ∀ (entry : Int32 × Handle) (rest : List (Int32 × Handle)) (host : Host),
      during (entry :: rest) host →
        ∃ host', b.sync entry.2 host = .ok () host' ∧ during rest host' := by
    rintro ⟨id, h⟩ rest host ⟨hsub, hinv, hsame⟩
    obtain ⟨hmem, hrest⟩ := List.cons_subset.1 hsub
    have hfits : ∀ entry ∈ (host.partition h).entries.toList, Table.Fits entry := by
      rw [hsame]
      exact refines.mirrors.fits id h hmem
    obtain ⟨host', hrun, hinv', hsame'⟩ := reliable.sync hinv hmem hfits
    exact ⟨host', hrun, hrest, hinv', fun g => (hsame' g).trans (hsame g)⟩
  obtain ⟨host, hall, -, hinv, hsame⟩ := EngineAction.forM_onHost step
    (⟨List.Subset.refl _, refines.inv hphase, fun _ => rfl⟩ : during r.engine.registry r.host)
  have hrun : Request.run .sync r = .ok .done { r with host } :=
    Action.bind_of_ok (hsync.trans hall)
  rw [hrun]
  exact ⟨rfl, refines.withHost hphase hinv (refines.mirrors.congr fun _ g _ => hsame g)⟩

/-- Both are closed, with no partition left. -/
theorem close : Matches c d b inv (m.stepOpened .close) (Request.run .close r) := by
  -- Those that are still to be closed are what they were.
  let during (todo : List (Int32 × Handle)) (host : Host) : Prop :=
    todo ⊆ r.engine.registry ∧ closing host todo ∧
      ∀ entry ∈ todo, host.partition entry.2 = r.host.partition entry.2
  have step : ∀ (entry : Int32 × Handle) (rest : List (Int32 × Handle)) (host : Host),
      during (entry :: rest) host →
        ∃ host', r.engine.backend.close entry.2 host = .ok () host' ∧ during rest host' := by
    rintro ⟨id, h⟩ rest host ⟨hsub, hclosing, hsame⟩
    rw [refines.backend]
    obtain ⟨hmem, hrest⟩ := List.cons_subset.1 hsub
    have handles := reliable.handles hclosing
    have hhead : (id, h) ∈ (id, h) :: rest := List.mem_cons_self ..
    have hfits : ∀ entry ∈ (host.partition h).entries.toList, Table.Fits entry := by
      rw [hsame _ hhead]
      exact refines.mirrors.fits id h hmem
    obtain ⟨host', hrun, hclosing', hsame'⟩ := reliable.close hclosing hhead hfits
    rw [unregister_head handles.ids] at hclosing'
    refine ⟨host', hrun, hrest, hclosing', fun entry he => ?_⟩
    have hne : entry.2 ≠ h := by
      rintro rfl
      exact (List.nodup_cons.1 handles.handles).1 (List.mem_map.2 ⟨entry, he, rfl⟩)
    rw [hsame' _ hne]
    exact hsame _ (List.mem_cons_of_mem _ he)
  obtain ⟨host, hall, -⟩ :=
    @EngineAction.forEachAttempt_onHost _ ⟨{ r.engine with registry := [] }, r.host⟩ _ _ _ step
      ⟨List.Subset.refl _, reliable.startClosing (refines.inv hphase), fun _ _ => rfl⟩
  have hclose := (EngineAction.close_eq_ok_iff (refines.phase.trans hphase)).2 ⟨_, hall, rfl⟩
  have hrun : Request.run .close r = .ok .done _ := Action.bind_of_ok hclose
  rw [hrun]
  exact ⟨rfl, refines.settings, refines.folder, refines.backend, refines.store, refines.own,
    refines.format, rfl, nofun, fun _ => rfl, Mirrors.nil _⟩

omit hphase in
/-- The folder is removed if it is the engine's to remove. -/
theorem removeFolder_ok {host : Host} (hinv : inv host []) :
    ∃ host', EngineAction.removeFolder ⟨{ r.engine with registry := [] }, host⟩ =
      .ok () ⟨{ r.engine with registry := [] }, host'⟩ := by
  rw [EngineAction.removeFolder, Action.bind_of_ok (EngineAction.engine_apply _)]
  split
  · obtain ⟨removed, t, hremove⟩ := reliable.removeFolder hinv
    rw [← refines.folder] at hremove
    exact ⟨_, Action.bind_of_ok (EngineAction.onHost_of_ok (HostAction.onTree_of_ok hremove))⟩
  · exact ⟨host, rfl⟩

/-- Both are dropped, with no partition left. -/
theorem removeStore :
    Matches c d b inv (m.stepOpened .removeStore) (Request.run .removeStore r) := by
  -- Each drop takes the first entry of what is left of the registry.
  have step : ∀ (entry : Int32 × Handle) (rest : List (Int32 × Handle)) (host : Host),
      inv host (entry :: rest) →
        ∃ host', r.engine.backend.drop entry.2 host = .ok () host' ∧ inv host' rest := by
    rintro ⟨id, h⟩ rest host hinv
    rw [refines.backend]
    obtain ⟨host', hrun, hinv', -⟩ := reliable.drop hinv (List.mem_cons_self ..)
    rw [unregister_head (reliable.registered hinv).ids] at hinv'
    exact ⟨host', hrun, hinv'⟩
  obtain ⟨host, hall, hinv⟩ :=
    @EngineAction.forEachAttempt_onHost _ ⟨{ r.engine with registry := [] }, r.host⟩ _
      (fun todo host => inv host todo) _ step (refines.inv hphase)
  obtain ⟨host', hfolder⟩ := refines.removeFolder_ok reliable hinv
  have hremove := (EngineAction.removeStore_eq_ok_iff (refines.phase.trans hphase)).2
    ⟨_, _, hall, hfolder, rfl⟩
  have hrun : Request.run .removeStore r = .ok .done _ := Action.bind_of_ok hremove
  rw [hrun]
  refine ⟨rfl, ?_, ?_, ?_, refines.store, refines.own, refines.format, ?_, nofun, fun _ => ?_, ?_⟩
  · simpa using refines.settings
  · simpa using refines.folder
  · simpa using refines.backend
  · rw [Engine.phase_reported]
    rfl
  · simp
  · rw [Engine.registry_reported]
    exact Mirrors.nil host'

/-- An engine that is open answers as the machine does. -/
theorem stepOpened {request : Request} (fits : request.Fits)
    (hadmitted : ∀ spec, request.spec? c = some spec → spec.store = c.store → admitted spec) :
    Matches c d b inv (m.stepOpened request) (request.run r) := by
  cases request with
  | addPartition id =>
      have hspec : (⟨m.store, id, m.format⟩ : PartitionSpec) = c.spec id := by
        rw [refines.store, refines.format]
        rfl
      have hadd : EngineAction.addPartition id r = EngineAction.addPartitionAs (c.spec id) r := by
        rw [EngineAction.addPartition_eq, refines.settings]
      have hrun : Request.run (.addPartition id) r =
          (EngineAction.addPartitionAs (c.spec id) >>= Request.describe) r :=
        Action.bind_congr hadd
      rw [hrun, Machine.stepOpened, hspec]
      exact refines.addPartitionAs reliable hphase _ (hadmitted _ rfl)
  | addPartitionAs spec => exact refines.addPartitionAs reliable hphase spec (hadmitted _ rfl)
  | removePartition id => exact refines.removePartition reliable hphase id
  | put id key value => exact refines.put reliable hphase id fits
  | get id key => exact refines.get reliable hphase id key
  | delete id key => exact refines.delete reliable hphase id key
  | sync => exact refines.sync reliable hphase
  | close => exact refines.close reliable hphase
  | removeStore => exact refines.removeStore reliable hphase

end Opened

/-! ### Runs -/

/-- So does one that is not, since it changes no more. -/
theorem step (refines : Refines c d b inv m r) (reliable : Reliable b d admitted inv closing)
    {request : Request} (fits : request.Fits)
    (hadmitted : ∀ spec, request.spec? c = some spec → spec.store = c.store → admitted spec) :
    Matches c d b inv (m.step request) (request.run r) := by
  cases hphase : m.phase with
  | opened =>
      rw [Machine.step_of_opened hphase]
      exact refines.stepOpened reliable hphase fits hadmitted
  | closed =>
      rw [Machine.step_of_closed hphase, Request.run_of_closed (refines.phase.trans hphase)]
      by_cases hclose : request = .close
      · rw [if_pos hclose, if_pos hclose]
        exact ⟨rfl, refines⟩
      · rw [if_neg hclose, if_neg hclose]
        exact ⟨rfl, refines⟩
  | dropped =>
      rw [Machine.step_of_dropped hphase, Request.run_of_dropped (refines.phase.trans hphase)]
      exact ⟨rfl, refines⟩

/-- What is seen of the engine after a request is what is seen of the machine. -/
theorem serve (refines : Refines c d b inv m r) (reliable : Reliable b d admitted inv closing)
    (request : Request) (fits : request.Fits)
    (hadmitted : ∀ spec, request.spec? c = some spec → spec.store = c.store → admitted spec) :
    (request.serve r).1 = (m.serve request).1 ∧
      Refines c d b inv (m.serve request).2 (request.serve r).2 := by
  have hstep := refines.step reliable fits hadmitted
  rw [Machine.serve]
  cases hrun : request.run r with
  | ok reply r' =>
      rw [hrun] at hstep
      obtain ⟨hanswer, refines'⟩ := hstep
      rw [Request.serve_of_ok hrun, hanswer, refines'.phase, refines'.mirrors.openIds_eq]
      exact ⟨rfl, refines'⟩
  | error e r' =>
      rw [hrun] at hstep
      obtain ⟨hanswer, refines'⟩ := hstep
      rw [Request.serve_of_error hrun, hanswer, refines'.phase, refines'.mirrors.openIds_eq]
      exact ⟨rfl, refines'⟩

/-- And after any number of them. -/
theorem run (refines : Refines c d b inv m r) (reliable : Reliable b d admitted inv closing)
    {final : Running} {requests : List Request} {seen : List Observation}
    (served : Served r requests seen final) (fits : ∀ request ∈ requests, request.Fits)
    (hadmitted : ∀ request ∈ requests, ∀ spec, request.spec? c = some spec →
      spec.store = c.store → admitted spec) :
    seen = m.run requests ∧ Refines c d b inv (m.after requests) final := by
  induction served generalizing m with
  | done r => exact ⟨rfl, refines⟩
  | request perm rest ih =>
      obtain ⟨hseen, refines'⟩ := (refines.reorder reliable perm).serve reliable _
        (fits _ (List.mem_cons_self ..)) (hadmitted _ (List.mem_cons_self ..))
      obtain ⟨hrest, hfinal⟩ := ih refines'
        (fun next hnext => fits next (List.mem_cons_of_mem _ hnext))
        fun next hnext => hadmitted next (List.mem_cons_of_mem _ hnext)
      rw [Machine.run, hseen, hrest]
      exact ⟨rfl, hfinal⟩

end Refines

end PartitionStore
