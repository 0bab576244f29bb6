import PartitionStore.Proofs.Engine.Upkeep

/-!
# `PartitionStore.Proofs.Engine.DurableClose`: what success in closing promises

Closing flushes the registered partitions one after another, and goes on where that
fails. If nothing fails, the table of each of them has on disk what the partition held
(`Upkeep.close_ok`), and that stays so: a closed engine refuses whatever it is asked for,
but to be closed once more, which does nothing (`durable_of_close`).

So it is the first close that counts. If it fails, the registry is given up all the same,
and the next one succeeds though the entries are lost. And symbolic links in the folder
may lead from one partition's files to those of another (`not_durable_of_any_close`).
-/

set_option autoImplicit false

namespace PartitionStore

open FileTree Naming PartitionStore.Partition StoreFolder

variable {d : StoreFolder} {c : EngineSettings} {loc parent : Location}
  {removable : Int32 → Prop} {start : FileTree} {ids : List Int32} {host host' : Host} {e : Engine}
  {registry : List (Int32 × Handle)} {id : Int32} {h : Handle} {r r' r'' : Running}
  {requests later : List Request} {seen seen' : List Observation}

/-! ### The first close -/

/-- Of the partitions of `registry` on the host `first`, those of `todo` are still to be closed and
are what they were. All others have on disk what they held. -/
structure Flushing (d : StoreFolder) (loc : Location) (removable : Int32 → Prop)
    (start : FileTree) (first : Host) (registry todo : List (Int32 × Handle)) (host : Host) :
    Prop where
  upkeep : Upkeep d loc removable start [] host todo
  same : ∀ id h, (id, h) ∈ todo → host.partition h = first.partition h
  done : ∀ id h, (id, h) ∈ registry → (id, h) ∈ todo ∨ id ∉ todo.map Prod.fst ∧
    TableAt host.tree (dirName d.store id :: loc) (first.partition h).table

/-- One partition is closed, and has on disk what it held. -/
theorem Flushing.close {first : Host} {rest : List (Int32 × Handle)}
    (flushing : Flushing d loc removable start first registry ((id, h) :: rest) host)
    (hclose : HostAction.close h host = .ok () host') :
    Flushing d loc removable start first registry rest host' := by
  have upkeep := flushing.upkeep
  have hmem : (id, h) ∈ (id, h) :: rest := List.mem_cons_self ..
  have hrun := close_of_isOpen (t := host.tree) (upkeep.tended hmem).isOpen
  rcases upkeep.flush_cases hmem with ⟨t, hflush, htable, within⟩ | ⟨e, t, hflush, -⟩
  · rw [hflush] at hrun
    cases (HostAction.close_of_ok hrun).symm.trans hclose
    have hids := (List.nodup_cons.1 upkeep.registered.ids).1
    have hhandles := (List.nodup_cons.1 upkeep.registered.handles).1
    refine ⟨⟨upkeep.sited.congr within.links, ?_,
      upkeep.changes.trans (within.mono fun _ => touched_file id), nofun⟩, ?_, ?_⟩
    · rw [← unregister_head upkeep.registered.ids]
      exact (upkeep.registered.setTree t).release hmem _ fun _ hi _ old => old.of_files hi within
    · -- The others are behind other handles.
      intro i g hg
      have hne : g ≠ h := by
        rintro rfl
        exact hhandles (List.mem_map.2 ⟨_, hg, rfl⟩)
      rw [Host.partition_setPartition_of_ne _ _ hne]
      exact flushing.same i g (List.mem_cons_of_mem _ hg)
    · intro i g hg
      rcases flushing.done i g hg with htodo | ⟨hdone, hold⟩
      · rcases List.mem_cons.1 htodo with e | hrest
        · cases e
          refine .inr ⟨hids, ?_⟩
          rwa [← flushing.same id h hmem]
        · exact .inl hrest
      · rw [List.map_cons, List.mem_cons, not_or] at hdone
        exact .inr ⟨hdone.2, hold.within within (not_isFile_of_ne hdone.1 (List.suffix_cons ..))⟩
  · rw [hflush] at hrun
    cases (HostAction.close_of_error hrun).symm.trans hclose

/-- A close that succeeds leaves on disk what all registered partitions held. -/
theorem Upkeep.close_ok (live : Live Backend.table d (Upkeep d loc removable start ids) r)
    (hclose : EngineAction.close r = .ok () r') :
    r'.engine.phase = .closed ∧ Sited d loc r'.host.tree ∧ ∀ id h, (id, h) ∈ r.engine.registry →
      TableAt r'.host.tree (dirName d.store id :: loc) (r.host.partition h).table := by
  obtain ⟨r₁, heach, rfl⟩ := (EngineAction.close_eq_ok_iff live.phase).1 hclose
  rw [live.backend] at heach
  have upkeep : Upkeep d loc removable start [] r.host r.engine.registry :=
    ⟨live.inv.sited, live.inv.registered, live.inv.changes, nofun⟩
  have begin : Flushing d loc removable start r.host r.engine.registry r.engine.registry r.host :=
    ⟨upkeep, fun _ _ _ => rfl, fun _ _ hmem => .inl hmem⟩
  have step : ∀ (entry : Int32 × Handle) rest host host',
      Flushing d loc removable start r.host r.engine.registry (entry :: rest) host →
        HostAction.close entry.2 host = .ok () host' →
          Flushing d loc removable start r.host r.engine.registry rest host' :=
    fun _ _ _ _ flushing hrun => flushing.close hrun
  have flushed : Flushing d loc removable start r.host r.engine.registry [] r₁.host :=
    @EngineAction.inv_of_forEachAttempt _ ⟨{ r.engine with registry := [] }, r.host⟩ r₁ _ _ _ step
      begin heach
  exact ⟨rfl, flushed.upkeep.sited,
    fun id h hmem => ((flushed.done id h hmem).resolve_left (by simp)).2⟩

/-! ### Later requests -/

/-- An engine that has ended stays as it is, but for the order of an empty registry. -/
theorem Served.host_of_closed (run : Served r requests seen r') (hphase : r.engine.phase = .closed) :
    r'.host = r.host :=
  (@Served.invariant (fun s => s.engine.phase = .closed ∧ s.host = r.host) r r' requests seen run
    (fun _ _ h _ => h) (fun request _ s h => by
      rw [Request.serve_snd, Request.run_of_closed h.1]
      split <;> exact h) ⟨hphase, rfl⟩).2

/-- Until it is closed an engine is open and kept up, or its store was removed. -/
theorem Served.live_or_dropped (run : Served r requests seen r')
    (live : Live Backend.table d (Upkeep d loc (fun _ => True) start ids) r)
    (hclose : .close ∉ requests) :
    Live Backend.table d (Upkeep d loc (fun _ => True) start ids) r' ∨
      r'.engine.phase = .dropped := by
  -- Without a close, an engine that has ended was dropped, and stays so.
  refine @Served.invariant (fun s => Live Backend.table d
    (Upkeep d loc (fun _ => True) start ids) s ∨ s.engine.phase = .dropped) r r' requests seen run
    (fun s registry h perm => h.imp (fun live => (Upkeep.keeps d loc _ start ids).reorder live perm)
      id) (fun request hrequest s h => ?_) (.inl live)
  rcases h with live | hphase
  · cases hlast : request.isLast with
    | false =>
        exact .inl ((Upkeep.keeps d loc _ start ids).serve live hlast fun _ _ _ _ => trivial)
    | true =>
        right
        cases request with
        | close => exact absurd hrequest hclose
        | removeStore =>
            rw [Request.serve_snd_removeStore]
            obtain ⟨host, hafter, -⟩ := @EngineAction.after_removeStore s (fun _ => True)
              live.phase (fun _ _ _ _ => trivial) (fun _ _ => trivial) trivial
            rw [hafter, Engine.phase_reported]
        | _ => cases hlast
  · rw [Request.serve_snd, Request.run_of_dropped hphase]
    exact .inr hphase

/-- Where the first close succeeds, every partition that was registered has on disk from then on
what it held, whatever failed before. The store's folder is where its path points to, and has no
symbolic links. -/
theorem durable_of_close (hkind : c.backend = .table) (points : host.tree.PointsTo c.root parent)
    (free : host.tree.LinkFree (c.store :: parent)) (hopen : Engine.open c host = .ok e host')
    (run : Served ⟨e, host'⟩ requests seen r) (hfirst : .close ∉ requests)
    (hclose : EngineAction.close r = .ok () r') (run' : Served r' later seen' r'') :
    ∀ id h, (id, h) ∈ r.engine.registry →
      r''.host.tree.PointsTo (e.folder.partitionPath id)
          (dirName e.folder.store id :: c.store :: parent) ∧
        TableAt r''.host.tree (dirName e.folder.store id :: c.store :: parent)
          (r.host.partition h).table := by
  obtain ⟨live, -⟩ := upkeep_of_open hkind points free hopen fun _ => True
  rcases run.live_or_dropped live hfirst with live | hdropped
  · obtain ⟨hclosed, sited, htables⟩ := Upkeep.close_ok live hclose
    rw [run'.host_of_closed hclosed]
    exact fun id h hmem => ⟨sited.partition id, htables id h hmem⟩
  · -- The store of a dropped engine is gone, and it is not closed.
    have hrefused := Request.run_of_dropped hdropped .close
    rw [Request.run, Action.bind_of_ok hclose] at hrefused
    cases hrefused

set_option maxRecDepth 10000 in
/-- What was put into a partition is in its table file once the store was closed, and stays there. -/
theorem durable_after_put : ∃ e host seen r r' seen' r'',
    Engine.open (settingsUnder ⟨"."⟩) (Host.ofTree FileTree.empty) = .ok e host ∧
      Served ⟨e, host⟩ [.addPartition 0, .put 0 [107] [118]] seen r ∧
      EngineAction.close r = .ok () r' ∧ Served r' [.close, .put 0 [107] []] seen' r'' ∧
      TableAt r''.host.tree [dirName e.folder.store 0, "s"]
        ⟨.blockBased, SortedMap.ofList [([107], [118])]⟩ := by
  -- The run is evaluated at once, and its results are read off below.
  have key : Action.succeedsWith (Engine.open (settingsUnder ⟨"."⟩)) (Host.ofTree FileTree.empty)
      (fun e host =>
        let r := (Request.serve (.put 0 [107] [118])
          (Request.serve (.addPartition 0) ⟨e, host⟩).2).2
        Action.succeedsWith EngineAction.close r (fun _ _ => true) &&
          decide (r.engine.handle? 0 = some 1) &&
          decide ((r.host.partition 1).format = .blockBased) &&
          decide ((r.host.partition 1).entries = SortedMap.ofList [([107], [118])])) = true := by
    decide +kernel
  obtain ⟨e, host, hopen, key⟩ := Action.exists_of_succeedsWith key
  simp only [Bool.and_eq_true, decide_eq_true_eq] at key
  obtain ⟨⟨⟨hclose, hlookup⟩, hformat⟩, hentries⟩ := key
  obtain ⟨_, r', hclose, -⟩ := Action.exists_of_succeedsWith hclose
  have run := (Served.done (Request.serve (.put 0 [107] [118])
    (Request.serve (.addPartition 0) ⟨e, host⟩).2).2).cons.cons
  have run' :=
    (Served.done (Request.serve (.put 0 [107] []) (Request.serve .close r').2).2).cons.cons
  have points : (Host.ofTree FileTree.empty).tree.PointsTo (settingsUnder ⟨"."⟩).root [] := rfl
  have durable := durable_of_close rfl points (linkFree_empty _) hopen run (by simp) hclose run' 0 1
    (Engine.mem_of_handle? hlookup)
  refine ⟨e, host, _, _, r', _, _, hopen, run, hclose, run', ?_⟩
  have htable := durable.2
  rwa [Partition.table, hformat, hentries] at htable

/-- Whether the table file in the directory can be read and decodes to the entries. -/
def FileTree.hasEntries (t : FileTree) (dir : Path) (entries : SortedMap Bytes Bytes) : Bool :=
  match t.read (tableFile dir) with
  | .error _ => false
  | .ok data => match Table.ofImage data with
    | .error _ => false
    | .ok found => decide (found.entries = entries)

/-- A store at the top with the partitions 0 and 1, which was closed. -/
def closedStore : FileTree :=
  match Engine.open (settingsUnder ⟨"."⟩) (Host.ofTree FileTree.empty) with
  | .error _ host => host.tree
  | .ok e host =>
    let r := (Request.serve (.addPartition 1) (Request.serve (.addPartition 0) ⟨e, host⟩).2).2
    (Action.after (EngineAction.close r)).host.tree

/-- That store with a directory in the place of the scratch file of partition 0. -/
def obstructedStore : FileTree := Action.after (Files.createDirAll ⟨"s/s_0/data.tmp"⟩ closedStore)

/-- That store with a link in that place, which leads to the table of partition 1. -/
def entangledStore : FileTree :=
  match closedStore.symlink ⟨"s/s_0/data.tmp"⟩ ⟨"../s_1/data.tbl"⟩ with
  | .ok t => t
  | .error _ => closedStore

set_option maxRecDepth 10000 in
/-- A close that succeeds after one that failed promises nothing. Nor does the first one, where a
link leads from the files of one partition to those of another. -/
theorem not_durable_of_any_close :
    (∃ e host seen r failure r' r'',
      Engine.open (settingsUnder ⟨"."⟩) (Host.ofTree obstructedStore) = .ok e host ∧
        Served ⟨e, host⟩ [.put 0 [107] [118]] seen r ∧
        EngineAction.close r = .error failure r' ∧ EngineAction.close r' = .ok () r'' ∧
        (0, 1) ∈ r.engine.registry ∧ r''.host.tree.hasEntries (e.folder.partitionPath 0)
          (r.host.partition 1).entries = false) ∧
    ∃ e host seen r r',
      Engine.open (settingsUnder ⟨"."⟩) (Host.ofTree entangledStore) = .ok e host ∧
        Served ⟨e, host⟩ [.put 0 [107] [118]] seen r ∧ EngineAction.close r = .ok () r' ∧
        (1, 2) ∈ r.engine.registry ∧ r'.host.tree.hasEntries (e.folder.partitionPath 1)
          (r.host.partition 2).entries = false := by
  -- First a close that fails, and the next one that is answered without doing anything; then a
  -- close that succeeds and writes one table over another.
  constructor
  · have key : Action.succeedsWith (Engine.open (settingsUnder ⟨"."⟩)) (Host.ofTree obstructedStore)
        (fun e host =>
          let r := (Request.serve (.put 0 [107] [118]) ⟨e, host⟩).2
          decide (r.engine.handle? 0 = some 1) &&
            Action.failsWith EngineAction.close r fun _ r' =>
              Action.succeedsWith EngineAction.close r' fun _ r'' =>
                !r''.host.tree.hasEntries (e.folder.partitionPath 0) (r.host.partition 1).entries) =
        true := by decide +kernel
    obtain ⟨e, host, hopen, key⟩ := Action.exists_of_succeedsWith key
    simp only [Bool.and_eq_true, decide_eq_true_eq] at key
    obtain ⟨hlookup, key⟩ := key
    obtain ⟨failure, r', hclose, key⟩ := Action.exists_of_failsWith key
    obtain ⟨_, r'', hclose', key⟩ := Action.exists_of_succeedsWith key
    exact ⟨e, host, _, _, failure, r', r'', hopen, (Served.done _).cons, hclose, hclose',
      Engine.mem_of_handle? hlookup, by simpa using key⟩
  · have key : Action.succeedsWith (Engine.open (settingsUnder ⟨"."⟩)) (Host.ofTree entangledStore)
        (fun e host =>
          let r := (Request.serve (.put 0 [107] [118]) ⟨e, host⟩).2
          decide (r.engine.handle? 1 = some 2) &&
            Action.succeedsWith EngineAction.close r fun _ r' =>
              !r'.host.tree.hasEntries (e.folder.partitionPath 1) (r.host.partition 2).entries) =
        true := by decide +kernel
    obtain ⟨e, host, hopen, key⟩ := Action.exists_of_succeedsWith key
    simp only [Bool.and_eq_true, decide_eq_true_eq] at key
    obtain ⟨hlookup, key⟩ := key
    obtain ⟨_, r', hclose, key⟩ := Action.exists_of_succeedsWith key
    exact ⟨e, host, _, _, r', hopen, (Served.done _).cons, hclose, Engine.mem_of_handle? hlookup,
      by simpa using key⟩

end PartitionStore
