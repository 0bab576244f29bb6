import PartitionStore.Proofs.Engine.HandleCalls
import PartitionStore.Proofs.Engine.Lifecycle
import PartitionStore.Proofs.Engine.SpentHandles
import PartitionStore.Proofs.StoreFolder.InStep

/-!
# `PartitionStore.Proofs.Engine.InStep`: the engine of a store in step

Partitions of a store keep their tables in the store's folder (`Partition.Of`), and its engines have
nothing to do with any other folder (`Engine.Of`). So what holds of the operations of the folder
holds of whatever is done with partitions and engines: it keeps two runs of the store in step, on
their trees (`StoreFolder.InStep`), on their hosts (`HostsInStep`) and in their engines
(`RunningInStep`).

* `HandleCall.respects_run`: partitions, used by their handles.
* `EngineCall.respects_run`: calls of an engine.
* `Engine.respects_openWith`, `Engine.of_openWith`: openings.
-/

set_option autoImplicit false

namespace PartitionStore

open FileTree Naming PartitionStore.Action StoreFolder

variable {d : StoreFolder} {start t u : FileTree} {id : Int32} {part part' : Partition} {α : Type}

/-! ### Partitions -/

/-- The partition has no directory, or that of a partition of the store. -/
def Partition.Of (d : StoreFolder) (part : Partition) : Prop :=
  ∀ dir, part.storage.dir? = some dir → ∃ id, dir = d.partitionPath id

/-- To be one of the store is a matter of the directory alone, which an operation on the partition
leaves as it is. -/
theorem Partition.Of.congr (own : part.Of d) (h : part'.storage.dir? = part.storage.dir?) :
    part'.Of d := fun dir hdir => own dir (h ▸ hdir)

/-- A partition in memory has no directory, and so is one of every store. -/
theorem Partition.of_memory (h : part.storage = .memory) : part.Of d := by
  intro dir hdir
  rw [h] at hdir
  cases hdir

/-- The table file of a partition is in the store's folder, two names down. -/
theorem below_tableFile (d : StoreFolder) (id : Int32) :
    d.Below (Partition.tableFile (d.partitionPath id))
      [dirName d.store id, Partition.tableFileName] := (d.below_partitionPath id).join (by decide)

/-- So is the scratch file, which has the place of the table file but for the name. -/
theorem below_scratchFile (d : StoreFolder) (id : Int32) :
    d.Below (Table.scratchFile (Partition.tableFile (d.partitionPath id)))
      [dirName d.store id, Partition.scratchName] := by
  rw [Partition.scratchFile_tableFile]
  exact (d.below_partitionPath id).join (by decide)

/-- Both runs read the same table, or find the same fault: they have the same file, and what is made
of its bytes has nothing to do with the tree. -/
theorem respects_readTable (d : StoreFolder) (start : FileTree) (id : Int32) :
    Respects (d.InStep start) (Table.read (Partition.tableFile (d.partitionPath id))) := by
  refine .bind (StoreAction.respects_io (Files.respects_ask fun t u h =>
    h.alike.read (below_tableFile d id))) fun data => ?_
  cases Table.ofImage data with
  | ok table => exact respects_pure _ _
  | error damage => exact respects_throw _ _

/-- A table is written in the same way in both runs. Where an entry is too long only the scratch
file is written, and else it takes the place of the table file; both files are in the folder. -/
theorem respects_writeTable (d : StoreFolder) (start : FileTree) (id : Int32) (table : Table) :
    Respects (d.InStep start) (Table.write table (Partition.tableFile (d.partitionPath id))) := by
  rw [Table.write_eq]
  split
  · exact .bind (StoreAction.respects_io (respects_write (below_scratchFile d id)
      (List.cons_ne_nil _ _) _)) fun _ => respects_throw _ _
  · exact .bind (StoreAction.respects_io (respects_replace (below_tableFile d id)
      (List.cons_ne_nil _ _) (below_scratchFile d id) (List.cons_ne_nil _ _) _))
      fun _ => respects_pure _ _

/-- A partition is opened in the same way in both runs: its directory is made, and then its table is
read or, where there is none, written. -/
theorem respects_openTable (d : StoreFolder) (start : FileTree) (id : Int32)
    (spec : PartitionSpec) :
    Respects (d.InStep start) (Partition.openTable (d.partitionPath id) spec) := by
  refine .bind (StoreAction.respects_io (respects_createDirAll_partitionPath d start id)) fun _ =>
    respects_get_bind (fun t u h => ?_) fun t => respects_ite ?_ ?_
  · rw [h.alike.exists (below_tableFile d id)]
  · exact (respects_readTable d start id).bind fun table =>
      respects_ite (respects_pure _ _) (respects_throw _ _)
  · exact (respects_writeTable d start id _).bind fun _ => respects_pure _ _

/-- A flush writes the table of a partition on disk and nothing for one in memory. -/
theorem Partition.Of.respects_flush (own : part.Of d) : Respects (d.InStep start) part.flush := by
  rw [flush_eq]
  split
  · rename_i dir hstorage
    obtain ⟨id, rfl⟩ := own dir (by rw [hstorage]; rfl)
    exact (respects_writeTable d start id _).bind fun _ => respects_pure _ _
  · exact respects_pure _ _

/-- A sync is a flush, unless the partition is closed in both runs. -/
theorem Partition.Of.respects_sync (own : part.Of d) : Respects (d.InStep start) part.sync := by
  rw [sync_eq]
  exact respects_ite (respects_throw _ _) own.respects_flush

/-- A close is a flush, unless the partition is closed in both runs. -/
theorem Partition.Of.respects_close (own : part.Of d) : Respects (d.InStep start) part.close := by
  rw [close_eq]
  exact respects_ite (respects_pure _ _) (own.respects_flush.bind fun _ => respects_pure _ _)

/-- A drop removes the directory of a partition on disk, if it is still there. -/
theorem Partition.Of.respects_drop (own : part.Of d) : Respects (d.InStep start) part.drop := by
  cases hstorage : part.storage with
  | memory =>
      rw [show part.drop = pure part.dropped from funext (drop_of_memory hstorage)]
      exact respects_pure _ _
  | table dir dirty =>
      obtain ⟨id, rfl⟩ := own dir (by rw [hstorage]; rfl)
      have below := d.below_partitionPath id
      rw [drop_eq_do hstorage]
      -- The directory may be gone already, in both runs then.
      refine respects_get_bind (fun t u h => ?_) fun t => ?_
      · rw [h.alike.exists below]
      · exact respects_ite (.bind (StoreAction.respects_io (respects_removeDirAll below))
          fun _ => respects_pure _ _) (respects_pure _ _)

/-! ### Hosts -/

/-- Two hosts are in step: their trees are, and the same partitions were opened on them, all of the
store. -/
structure HostsInStep (d : StoreFolder) (start : FileTree) (host host' : Host) : Prop where
  trees : d.InStep start host.tree host'.tree
  partitions : host'.partitions = host.partitions
  own : ∀ part ∈ host.partitions, part.Of d

namespace HostsInStep

variable {host host' : Host}

/-- A handle stands for the same partition on both hosts, and it is one of the store. A handle that
was never given out stands for one in memory. -/
theorem partition (h : HostsInStep d start host host') (g : Handle) :
    host'.partition g = host.partition g ∧ (host.partition g).Of d := by
  refine ⟨by rw [Host.partition, h.partitions, Host.partition], ?_⟩
  rw [Host.partition, List.getD_eq_getElem?_getD]
  cases hpart : host.partitions[g]? with
  | none => exact Partition.of_memory rfl
  | some part => exact h.own part (List.mem_of_getElem? hpart)

/-- Hosts stay in step when their trees go on in step. -/
theorem setTree (h : HostsInStep d start host host') (trees : d.InStep start t u) :
    HostsInStep d start { host with tree := t } { host' with tree := u } :=
  ⟨trees, h.partitions, h.own⟩

/-- Hosts stay in step when the same partition of the store is opened on both. -/
theorem add (h : HostsInStep d start host host') (own : part.Of d) :
    HostsInStep d start (host.add part) (host'.add part) := by
  refine ⟨h.trees, congrArg (· ++ [part]) h.partitions, fun part' hpart' => ?_⟩
  rcases List.mem_append.1 hpart' with hold | hnew
  · exact h.own part' hold
  · exact List.mem_singleton.1 hnew ▸ own

/-- Hosts stay in step when one of their partitions is replaced by the same one of the store. -/
theorem setPartition (h : HostsInStep d start host host') (own : part.Of d) (g : Handle) :
    HostsInStep d start (host.setPartition g part) (host'.setPartition g part) := by
  refine ⟨h.trees, congrArg (List.set · g part) h.partitions, fun part' hpart' => ?_⟩
  rcases List.mem_or_eq_of_mem_set hpart' with hold | hnew
  · exact h.own part' hold
  · exact hnew ▸ own

end HostsInStep

/-- What respects the trees of two hosts respects the hosts, as it leaves their partitions alone. -/
theorem HostAction.respects_onTree {action : StoreAction α} (h : Respects (d.InStep start) action) :
    Respects (HostsInStep d start) (HostAction.onTree action) := by
  intro host host' hs
  rcases h.cases hs.trees with ⟨a, t, u, ht, hu, htrees⟩ | ⟨e, t, u, ht, hu, htrees⟩
  · rw [onTree_of_ok ht, onTree_of_ok hu]
    exact ⟨rfl, hs.setTree htrees⟩
  · rw [onTree_of_error ht, onTree_of_error hu]
    exact ⟨rfl, hs.setTree htrees⟩

/-- A partition that is opened in step, and is one of the store, is registered in step: it gets the
same handle on both hosts, as they had equally many partitions before. -/
theorem HostAction.respects_register {opening : StoreAction Partition}
    (h : Respects (d.InStep start) opening)
    (hown : ∀ t part u, opening t = .ok part u → part.Of d) :
    Respects (HostsInStep d start) (HostAction.register opening) := by
  intro host host' hs
  rcases h.cases hs.trees with ⟨part, t, u, ht, hu, htrees⟩ | ⟨e, t, u, ht, hu, htrees⟩
  · rw [register_of_ok ht, register_of_ok hu]
    exact ⟨congrArg (fun parts : List Partition => Except.ok parts.length) hs.partitions,
      (hs.setTree htrees).add (hown _ _ _ ht)⟩
  · rw [register_of_error ht, register_of_error hu]
    exact ⟨rfl, hs.setTree htrees⟩

/-- An operation on a partition that is one of the store goes on with one of the store. -/
theorem HostAction.respects_update {action : PartitionAction Unit} (restores : action.Restores)
    (h : ∀ {part}, part.Of d → Respects (d.InStep start) (action.result part))
    (hkept : ∀ {part t part' u}, action.result part t = .ok part' u → part.Continues part')
    (g : Handle) : Respects (HostsInStep d start) (HostAction.update g action) := by
  intro host host' hs
  obtain ⟨hsame, own⟩ := hs.partition g
  rcases (h own).cases hs.trees with ⟨part, t, u, ht, hu, htrees⟩ | ⟨e, t, u, ht, hu, htrees⟩
  · rw [update_of_ok ht, update_of_ok (hsame.symm ▸ hu)]
    exact ⟨rfl, (hs.setTree htrees).setPartition (own.congr (hkept ht).dir) g⟩
  · rw [update_of_error restores ht, update_of_error restores (hsame.symm ▸ hu)]
    exact ⟨rfl, hs.setTree htrees⟩

/-- So it is with a change in memory. -/
theorem HostAction.respects_modify {change : Partition → Except StoreError Partition}
    (hkept : ∀ {part part'}, change part = .ok part' → part.Continues part') (g : Handle) :
    Respects (HostsInStep d start) (do
      let host ← MonadState.get
      let part ← HostAction.ofExcept (change (host.partition g))
      modify (·.setPartition g part) : HostAction Unit) := by
  intro host host' hs
  obtain ⟨hsame, own⟩ := hs.partition g
  rw [bind_of_ok (get_apply host), bind_of_ok (get_apply host'), hsame]
  cases hchange : change (host.partition g) with
  | ok part => exact ⟨rfl, hs.setPartition (own.congr (hkept hchange).dir) g⟩
  | error e => exact ⟨rfl, hs⟩

namespace HostAction

variable (d : StoreFolder) (start : FileTree) (g : Handle)

/-- A put changes the same partition in the same way on both hosts. -/
theorem respects_put (key value : Bytes) : Respects (HostsInStep d start) (put g key value) :=
  respects_modify Partition.continues_put g

/-- A delete changes the same partition in the same way on both hosts. -/
theorem respects_delete (key : Bytes) : Respects (HostsInStep d start) (delete g key) :=
  respects_modify Partition.continues_delete g

/-- A get looks the key up in the same partition on both hosts. -/
theorem respects_get (key : Bytes) : Respects (HostsInStep d start) (HostAction.get g key) := by
  intro host host' hs
  rw [HostAction.get, bind_of_ok (get_apply host), bind_of_ok (get_apply host'), (hs.partition g).1]
  cases (host.partition g).get key with
  | ok value => exact ⟨rfl, hs⟩
  | error e => exact ⟨rfl, hs⟩

/-- A sync by a handle writes the same table on both hosts; where it fails both have the partition
of before. -/
theorem respects_sync : Respects (HostsInStep d start) (sync g) :=
  respects_update (PartitionAction.restores_syncUnder none) (fun own => own.respects_sync)
    Partition.continues_sync g

/-- A close by a handle writes the same table on both hosts, and closes the partition on both or on
neither. -/
theorem respects_close : Respects (HostsInStep d start) (close g) :=
  respects_update (PartitionAction.restores_closeUnder none) (fun own => own.respects_close)
    (fun h => (Partition.continues_close h).1) g

/-- A drop by a handle removes the directory of the same partition on both hosts. -/
theorem respects_drop : Respects (HostsInStep d start) (drop g) :=
  respects_update PartitionAction.restores_drop (fun own => own.respects_drop)
    (fun h => (Partition.continues_drop h).1) g

end HostAction

/-- What is called on a handle keeps two hosts in step and answers the same on both. -/
theorem HandleCall.respects_run (d : StoreFolder) (start : FileTree) (g : Handle)
    (call : HandleCall) : Respects (HostsInStep d start) (call.run g) := by
  cases call with
  | put key value =>
      exact (HostAction.respects_put d start g key value).bind fun _ => respects_pure _ _
  | get key => exact (HostAction.respects_get d start g key).bind fun _ => respects_pure _ _
  | delete key => exact (HostAction.respects_delete d start g key).bind fun _ => respects_pure _ _
  | sync => exact (HostAction.respects_sync d start g).bind fun _ => respects_pure _ _
  | close => exact (HostAction.respects_close d start g).bind fun _ => respects_pure _ _
  | drop => exact (HostAction.respects_drop d start g).bind fun _ => respects_pure _ _

/-! ### Backends -/

/-- The engine is one of the store. -/
structure Engine.Of (d : StoreFolder) (e : Engine) : Prop where
  folder : e.folder = d
  backend : ∃ k, e.backend = Backend.ofKind k

/-- A backend opens a partition in step. On disk it has the directory that the store gives to its
id, and in memory it has none, so that it is one of the store either way. -/
theorem Backend.respects_attach (d : StoreFolder) (start : FileTree) (k : BackendKind)
    (spec : PartitionSpec) : Respects (HostsInStep d start) ((ofKind k).attach d spec) := by
  cases k with
  | table =>
      refine respects_ite (HostAction.respects_register (respects_openTable d start _ _)
        fun t part u hopen dir hdir => ?_) (respects_throw _ _)
      rw [(Partition.placed_of_openTable hopen).2] at hdir
      exact ⟨spec.id, (Option.some.inj hdir).symm⟩
  | inMemory =>
      refine HostAction.respects_register (respects_pure _ _) fun t part u hopen => ?_
      cases hopen
      exact Partition.of_memory rfl

/-- A backend tells the same ids in both runs: on disk those that the folder lists, in memory none.
-/
theorem Backend.respects_idsOnDisk (d : StoreFolder) (start : FileTree) (k : BackendKind) :
    Respects (HostsInStep d start) ((ofKind k).idsOnDisk d) := by
  cases k with
  | table => exact HostAction.respects_onTree (StoreFolder.respects_idsOnDisk d start)
  | inMemory => exact respects_pure _ _

namespace Engine.Of

variable {e : Engine} (own : e.Of d)
include own

/-- The engine opens partitions in step, as its backend does. -/
theorem respects_attach (start : FileTree) (spec : PartitionSpec) :
    Respects (HostsInStep d start) (e.backend.attach e.folder spec) := by
  obtain ⟨k, hk⟩ := own.backend
  rw [own.folder, hk]
  exact Backend.respects_attach d start k spec

/-- The engine finds the same ids in both runs, as its backend does. -/
theorem respects_idsOnDisk (start : FileTree) :
    Respects (HostsInStep d start) (e.backend.idsOnDisk e.folder) := by
  obtain ⟨k, hk⟩ := own.backend
  rw [own.folder, hk]
  exact Backend.respects_idsOnDisk d start k

/-- Opened partitions are worked on in the same way by all engines. -/
theorem operations : e.backend.put = HostAction.put ∧ e.backend.get = HostAction.get ∧
    e.backend.delete = HostAction.delete ∧ e.backend.sync = HostAction.sync ∧
    e.backend.close = HostAction.close ∧ e.backend.drop = HostAction.drop := by
  obtain ⟨k, hk⟩ := own.backend
  simp [hk]

end Engine.Of

/-! ### Engines -/

/-- Two engines are in step: they are the same one of the store, on hosts that are in step. -/
structure RunningInStep (d : StoreFolder) (start : FileTree) (r r' : Running) : Prop where
  hosts : HostsInStep d start r.host r'.host
  engine : r'.engine = r.engine
  own : r.engine.Of d

namespace EngineAction

/-- What keeps the hosts in step keeps the engines on them in step. -/
theorem respects_onHost {action : HostAction α} (h : Respects (HostsInStep d start) action) :
    Respects (RunningInStep d start) (onHost action) := by
  intro r r' hs
  rcases h.cases hs.hosts with ⟨a, host, host', hr, hr', hhosts⟩ | ⟨e, host, host', hr, hr', hhosts⟩
  · simp only [onHost, hr, hr']
    exact ⟨rfl, hhosts, hs.engine, hs.own⟩
  · simp only [onHost, hr, hr']
    exact ⟨rfl, hhosts, hs.engine, hs.own⟩

/-- What the engine says of itself is the same in both runs, so what comes next may depend on it.
All that needs to be known of the engine is that it is one of the store. -/
theorem respects_engine_bind {f : Engine → EngineAction α}
    (h : ∀ e, e.Of d → Respects (RunningInStep d start) (f e)) :
    Respects (RunningInStep d start) (engine >>= f) := by
  intro r r' hs
  rw [bind_of_ok (show engine r = .ok r.engine r from rfl),
    bind_of_ok (show engine r' = .ok r'.engine r' from rfl), hs.engine]
  exact h r.engine hs.own r r' hs

/-- A change of the engine that leaves it one of the store, made in both runs, keeps them in step.
-/
theorem respects_modifyEngine {change : Engine → Engine} (h : ∀ e, e.Of d → (change e).Of d) :
    Respects (RunningInStep d start) (modifyEngine change) := fun r _ hs =>
  ⟨rfl, hs.hosts, congrArg change hs.engine, h r.engine hs.own⟩

/-- The engine is open in both runs or in neither. -/
theorem respects_requireOpen (d : StoreFolder) (start : FileTree) :
    Respects (RunningInStep d start) requireOpen := by
  intro r r' hs
  rw [requireOpen, requireOpen, hs.engine]
  split
  · exact ⟨rfl, hs⟩
  · exact ⟨rfl, hs⟩

end EngineAction

/-- To report its gauges leaves an engine one of the store. -/
theorem Engine.Of.reported {e : Engine} (own : e.Of d) (t : FileTree) : (e.reported t).Of d :=
  ⟨(Engine.folder_reported ..).trans own.folder, by rw [Engine.backend_reported]; exact own.backend⟩

/-- The same is reported. -/
theorem Engine.Of.reported_eq {e : Engine} (own : e.Of d) (h : d.InStep start t u) :
    e.reported u = e.reported t := by
  rw [Engine.reported, Engine.reported, Engine.size, Engine.size, own.folder, h.size]

namespace EngineAction

/-- The same gauges are reported in both runs. -/
theorem respects_report (d : StoreFolder) (start : FileTree) :
    Respects (RunningInStep d start) report := by
  intro r r' hs
  refine ⟨rfl, hs.hosts, ?_, hs.own.reported _⟩
  show r'.engine.reported r'.host.tree = r.engine.reported r.host.tree
  rw [hs.engine, hs.own.reported_eq hs.hosts.trees]

/-- An attempt fails in both runs or in neither, and the failure is the same answer in both. -/
theorem respects_attempt {action : EngineAction α}
    (h : Respects (RunningInStep d start) action) :
    Respects (RunningInStep d start) (attempt action) := by
  intro r r' hs
  rcases h.cases hs with ⟨a, u, u', hr, hr', hu⟩ | ⟨e, u, u', hr, hr', hu⟩
  · rw [attempt, attempt, hr, hr']
    exact ⟨rfl, hu⟩
  · rw [attempt, attempt, hr, hr']
    exact ⟨rfl, hu⟩

/-- Attempts on one item after the other keep the runs in step if each does. The first failure is
the same in both runs. -/
theorem respects_forEachAttempt {ι : Type} {action : ι → EngineAction Unit}
    (h : ∀ i, Respects (RunningInStep d start) (action i)) (items : List ι) :
    Respects (RunningInStep d start) (forEachAttempt action items) := by
  induction items with
  | nil => exact respects_pure _ _
  | cons i rest ih =>
      refine (respects_attempt (h i)).bind fun first => ih.bind fun later => ?_
      cases first with
      | ok _ => exact respects_pure _ _
      | error e => exact respects_pure _ _

/-! ### Requests -/

/-- A partition is added in step, or refused in both runs: the engine is the same in both, and has
the same ids in its registry. -/
theorem respects_addPartitionAs (d : StoreFolder) (start : FileTree) (spec : PartitionSpec) :
    Respects (RunningInStep d start) (addPartitionAs spec) := by
  refine (respects_requireOpen d start).bind fun _ => respects_engine_bind fun e own => ?_
  refine respects_refuse (respects_refuse ?_)
  refine (respects_onHost (own.respects_attach start spec)).bind fun h => .bind ?_ fun _ =>
    (respects_report d start).bind fun _ => respects_pure _ _
  exact respects_modifyEngine fun e own => ⟨own.folder, own.backend⟩

/-- A partition is dropped, and taken out of the registry, in step. -/
theorem respects_removePartition (d : StoreFolder) (start : FileTree) (id : Int32) :
    Respects (RunningInStep d start) (removePartition id) := by
  refine (respects_requireOpen d start).bind fun _ => respects_engine_bind fun e own => ?_
  cases e.handle? id with
  | none => exact respects_pure _ _
  | some h =>
      dsimp only
      rw [own.operations.2.2.2.2.2]
      refine (respects_onHost (HostAction.respects_drop d start h)).bind fun _ => .bind ?_ fun _ =>
        respects_report d start
      exact respects_modifyEngine fun e own => ⟨own.folder, own.backend⟩

/-- An id stands for the same handle in both runs, or for none. -/
theorem respects_opened (d : StoreFolder) (start : FileTree) (id : Int32) :
    Respects (RunningInStep d start) (opened id) := by
  refine (respects_requireOpen d start).bind fun _ => respects_engine_bind fun e _ => ?_
  cases e.handle? id with
  | none => exact respects_throw _ _
  | some h => exact respects_pure _ _

/-- What is asked of an opened partition. -/
theorem respects_opened_bind (id : Int32) {f : Handle → Engine → EngineAction α}
    (h : ∀ g e, e.Of d → Respects (RunningInStep d start) (f g e)) :
    Respects (RunningInStep d start) (opened id >>= fun g => engine >>= f g) :=
  (respects_opened d start id).bind fun g => respects_engine_bind (h g)

/-- A sync of the engine syncs the same partitions, one after the other. -/
theorem respects_sync (d : StoreFolder) (start : FileTree) :
    Respects (RunningInStep d start) sync := by
  refine (respects_requireOpen d start).bind fun _ => respects_engine_bind fun e own =>
    respects_forM fun entry _ => ?_
  rw [own.operations.2.2.2.1]
  exact respects_onHost (HostAction.respects_sync d start entry.2)

/-- A close of the engine closes the same partitions in the same order, and fails with the first
failure. -/
theorem respects_close (d : StoreFolder) (start : FileTree) :
    Respects (RunningInStep d start) close := by
  refine respects_engine_bind fun e own => ?_
  cases e.phase with
  | closed => exact respects_pure _ _
  | dropped => exact respects_throw _ _
  | opened =>
      dsimp only
      rw [own.operations.2.2.2.2.1]
      -- The registry is the same in both runs, and so all partitions are closed in the same order.
      refine .bind (respects_modifyEngine fun e own => ⟨own.folder, own.backend⟩) fun _ =>
        .bind (respects_forEachAttempt (fun entry => ?_) _) fun failure? =>
        .bind (respects_modifyEngine fun e own => ⟨own.folder, own.backend⟩) fun _ => ?_
      · exact respects_onHost (HostAction.respects_close d start entry.2)
      · cases failure? with
        | none => exact respects_pure _ _
        | some failure => exact respects_throw _ _

/-- An engine that owns its folder removes it, and one that does not leaves it. -/
theorem respects_removeFolder (d : StoreFolder) (start : FileTree) :
    Respects (RunningInStep d start) removeFolder := by
  refine respects_engine_bind fun e own => respects_ite ?_ (respects_pure _ _)
  rw [own.folder]
  exact (respects_onHost (HostAction.respects_onTree (respects_remove d start))).bind fun _ =>
    respects_pure _ _

/-- The store is dropped in step: each partition, and then the folder. -/
theorem respects_removeStore (d : StoreFolder) (start : FileTree) :
    Respects (RunningInStep d start) removeStore := by
  refine (respects_requireOpen d start).bind fun _ => respects_engine_bind fun e own => ?_
  rw [own.operations.2.2.2.2.2]
  refine .bind (respects_modifyEngine fun e own => ⟨own.folder, own.backend⟩) fun _ =>
    .bind (respects_forEachAttempt (fun entry => ?_) _) fun failure? =>
    .bind (respects_attempt (respects_removeFolder d start)) fun removal =>
    .bind (respects_modifyEngine fun e own => ⟨own.folder, own.backend⟩) fun _ =>
    .bind (respects_report d start) fun _ => ?_
  · exact respects_onHost (HostAction.respects_drop d start entry.2)
  · cases failure? with
    | some failure => exact respects_throw _ _
    | none =>
        cases removal with
        | ok _ => exact respects_pure _ _
        | error failure => exact respects_throw _ _

/-- The ids on disk are told in step, unless the engine is dropped in both runs. -/
theorem respects_idsOnDisk (d : StoreFolder) (start : FileTree) :
    Respects (RunningInStep d start) idsOnDisk := by
  refine respects_engine_bind fun e own => respects_ite (respects_throw _ _) ?_
  exact respects_onHost (own.respects_idsOnDisk start)

end EngineAction

/-- A partition that was opened is described in the same way. -/
theorem Request.respects_describe (d : StoreFolder) (start : FileTree) (g : Handle) :
    Respects (RunningInStep d start) (Request.describe g) := by
  intro r r' hs
  rw [describe, describe, (hs.hosts.partition g).1]
  exact ⟨rfl, hs⟩

open EngineAction in
/-- Requests to the store's engine keep two runs in step, whatever is asked for. -/
theorem Request.respects_run (d : StoreFolder) (start : FileTree) (request : Request) :
    Respects (RunningInStep d start) request.run := by
  -- Each request is its operation on the engine, and then a reply that reads nothing else.
  cases request with
  | addPartition id =>
      refine .bind (respects_engine_bind fun e own => ?_) (respects_describe d start)
      exact respects_addPartitionAs d start _
  | addPartitionAs spec =>
      exact (respects_addPartitionAs d start spec).bind (respects_describe d start)
  | removePartition id =>
      exact (respects_removePartition d start id).bind fun _ => respects_pure _ _
  | put id key value =>
      refine .bind (respects_opened_bind id fun g e own => ?_) fun _ => respects_pure _ _
      rw [own.operations.1]
      exact respects_onHost (HostAction.respects_put d start g key value)
  | get id key =>
      refine .bind (respects_opened_bind id fun g e own => ?_) fun _ => respects_pure _ _
      rw [own.operations.2.1]
      exact respects_onHost (HostAction.respects_get d start g key)
  | delete id key =>
      refine .bind (respects_opened_bind id fun g e own => ?_) fun _ => respects_pure _ _
      rw [own.operations.2.2.1]
      exact respects_onHost (HostAction.respects_delete d start g key)
  | sync => exact (respects_sync d start).bind fun _ => respects_pure _ _
  | close => exact (respects_close d start).bind fun _ => respects_pure _ _
  | removeStore => exact (respects_removeStore d start).bind fun _ => respects_pure _ _

/-- Calls of the store's engine keep two runs in step. -/
theorem EngineCall.respects_run (d : StoreFolder) (start : FileTree) (call : EngineCall) :
    Respects (RunningInStep d start) call.run := by
  cases call with
  | request made => exact (made.respects_run d start).bind fun _ => respects_pure _ _
  | idsOnDisk => exact (EngineAction.respects_idsOnDisk d start).bind fun _ => respects_pure _ _

/-! ### Openings -/

namespace Engine

/-- The folder is made ready in step: it is made if it is missing, and else guarded. -/
theorem respects_prepare (d : StoreFolder) (start : FileTree) (c : EngineSettings) :
    Respects (d.InStep start) (prepare d c) :=
  (respects_ensure d start).bind fun _ => respects_ite
    ((respects_guard d start c.format).bind fun _ => respects_pure _ _) (respects_pure _ _)

/-- The record is written in step, or is there in both runs. -/
theorem respects_keepRecord (d : StoreFolder) (start : FileTree) (c : EngineSettings) :
    Respects (d.InStep start) (keepRecord d c) :=
  respects_ite ((StoreAction.respects_during (respects_recordOnce d start c.record)).bind
    fun _ => respects_pure _ _) (respects_pure _ _)

end Engine

namespace Restore

variable (d : StoreFolder) (start : FileTree) (k : BackendKind) (c : EngineSettings)

/-- One stretch of ids is opened in step, up to its first failure. -/
theorem respects_openStretch (ids : List Int32) :
    Respects (HostsInStep d start) (openStretch (Backend.ofKind k) d c ids) := by
  induction ids with
  | nil => exact respects_pure _ _
  | cons id rest ih =>
      exact (Backend.respects_attach d start k (c.spec id)).bind fun _ => ih.bind fun _ =>
        respects_pure _ _

/-- All stretches are opened in step, each up to its first failure, and the first failure of all is
the same in both runs. -/
theorem respects_openStretches (stretches : List (List Int32)) :
    Respects (HostsInStep d start) (openStretches (Backend.ofKind k) d c stretches) := by
  induction stretches with
  | nil => exact respects_pure _ _
  | cons stretch rest ih =>
      intro host host' hs
      rw [openStretches]
      rcases (respects_openStretch d start k c stretch).cases hs with
        ⟨opened, host₁, host₁', h, h', hs₁⟩ | ⟨e, host₁, host₁', h, h', hs₁⟩
      · rcases ih.cases hs₁ with ⟨more, _, _, hmore, hmore', hs₂⟩ | ⟨e, _, _, hmore, hmore', hs₂⟩
        · simp only [h, h', hmore, hmore']
          exact ⟨rfl, hs₂⟩
        · simp only [h, h', hmore, hmore']
          exact ⟨rfl, hs₂⟩
      · -- The others go on all the same.
        rcases ih.cases hs₁ with ⟨more, _, _, hmore, hmore', hs₂⟩ | ⟨_, _, _, hmore, hmore', hs₂⟩
        · simp only [h, h', hmore, hmore']
          exact ⟨rfl, hs₂⟩
        · simp only [h, h', hmore, hmore']
          exact ⟨rfl, hs₂⟩

/-- All that the settings ask for is opened in step. -/
theorem respects_openAll :
    Respects (HostsInStep d start) (openAll (Backend.ofKind k) d c) := by
  refine (Backend.respects_idsOnDisk d start k).bind fun onDisk => ?_
  have hdata (metadata : List (Int32 × Handle)) : Respects (HostsInStep d start)
      (if c.withData = true then do
        let data ← openData (Backend.ofKind k) d c (onDisk.filter (· != metadataId))
        pure (metadata ++ data)
      else do
        let data ← pure []
        pure (metadata ++ data)) :=
    respects_ite ((respects_openStretches d start k c _).bind fun _ => respects_pure _ _)
      ((respects_pure _ _).bind fun _ => respects_pure _ _)
  exact respects_ite ((respects_openStretch d start k c _).bind hdata)
    ((respects_pure _ _).bind hdata)

end Restore

/-- An opening of the store's engine keeps two runs in step. -/
theorem Engine.respects_openWith {c : EngineSettings}
    (hnamed : StoreFolder.named c.root c.store = .ok d) (start : FileTree) (k : BackendKind)
    (listener : Option Listener) :
    Respects (HostsInStep d start) (openWith c (Backend.ofKind k) listener) := by
  rw [openWith, hnamed]
  show Respects (HostsInStep d start) (pure d >>= _)
  rw [pure_bind]
  refine (HostAction.respects_onTree (respects_prepare d start c)).bind fun _ =>
    (Restore.respects_openAll d start k c).bind fun registry =>
    (HostAction.respects_onTree (respects_keepRecord d start c)).bind fun _ => ?_
  refine respects_get_bind (fun host host' hs => ?_) fun host => respects_pure _ _
  have own : Engine.Of d ⟨c, d, Backend.ofKind k, registry, .opened, listener, []⟩ :=
    ⟨rfl, k, rfl⟩
  exact congrArg pure (own.reported_eq hs.trees)

/-- What is opened is an engine of the store. -/
theorem Engine.of_openWith {c : EngineSettings} {k : BackendKind} {listener : Option Listener}
    {host host' : Host} {e : Engine} (hnamed : StoreFolder.named c.root c.store = .ok d)
    (hopen : openWith c (Backend.ofKind k) listener host = .ok e host') : e.Of d := by
  obtain ⟨d', t, registry, host₁, hnamed', -, -, -, -, rfl⟩ := exists_of_openWith hopen
  cases hnamed.symm.trans hnamed'
  have own : Engine.Of d ⟨c, d, Backend.ofKind k, registry, .opened, listener, []⟩ :=
    ⟨rfl, k, rfl⟩
  exact own.reported _

/-! ### Sizes -/

/-- The partition of a handle takes as many bytes in both runs. -/
theorem HostsInStep.size {host host' : Host} (h : HostsInStep d start host host') (g : Handle) :
    (host'.partition g).size host'.tree = (host.partition g).size host.tree := by
  obtain ⟨hsame, own⟩ := h.partition g
  rw [hsame, Partition.size, Partition.size]
  cases hstorage : (host.partition g).storage with
  | memory => rfl
  | table dir dirty =>
      obtain ⟨id, rfl⟩ := own dir (by rw [hstorage]; rfl)
      exact h.trees.alike.size (d.below_partitionPath id)

end PartitionStore
