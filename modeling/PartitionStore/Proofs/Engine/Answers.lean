import PartitionStore.Proofs.Engine.FormatGuard
import PartitionStore.Proofs.Engine.LongPaths
import PartitionStore.Proofs.Engine.Refinement

/-!
# `PartitionStore.Proofs.Engine.Answers`: what an engine answers from first to last

An engine that came up on a new store is what a machine is at first, with either
backend. From then on it answers as the machine does. A machine knows nothing of
backends, so both give the same answers.

Paths are where a folder falls short of a map. The folder may hold directories
that were made on the way to it, which a store that is new takes for partitions;
`Fresh` excludes that. And a path may be too long for the file system, which
`HasPaths` excludes of the partitions that are asked for. Without either of these
the answers differ (`not_answers_at_all_paths`).

* `refines_table`, `refines_inMemory`: how it starts.
* `answers_as_machine`: how it goes on.
-/

set_option autoImplicit false

namespace PartitionStore

open FileTree Naming PartitionStore.Partition StoreFolder

variable {c : EngineSettings} {d : StoreFolder} {b : Backend}
  {inv : Host → List (Int32 × Handle) → Prop} {host host₀ : Host} {e : Engine} {r : Running}
  {registry : List (Int32 × Handle)} {requests : List Request} {seen : List Observation}

/-! ### The start -/

/-- With the metadata partition alone, if it has that, and no entries, an engine is what a machine
is at first. -/
theorem refines_initial (settings : e.settings = c) (folder : e.folder = d)
    (backend : e.backend = b) (phase : e.phase = .opened) (own : c.store = d.store)
    (hinv : inv host e.registry)
    (hids : ∀ id, id ∈ e.registry.map Prod.fst ↔ c.withMetadata = true ∧ id = metadataId)
    (hempty : ∀ id h, (id, h) ∈ e.registry → (host.partition h).entries = SortedMap.empty) :
    Refines c d b inv (Machine.initial c.store c.format c.withMetadata) ⟨e, host⟩ := by
  have hget (id : Int32) : (Machine.initial c.store c.format c.withMetadata).partitions.get? id =
      if c.withMetadata = true ∧ id = metadataId then some SortedMap.empty else none := by
    rw [Machine.initial]
    cases c.withMetadata with
    | false => simp
    | true =>
        by_cases hid : id = metadataId
        · simp [hid]
        · simp [hid, SortedMap.get?_insert_of_ne]
  refine ⟨settings, folder, backend, rfl, own, rfl, phase, fun _ => hinv, fun h => absurd rfl h,
    fun id => ?_, fun id h hmem => ?_, fun id h hmem => ?_⟩
  · rw [hids, hget]
    split <;> simp [*]
  · rw [hget, if_pos ((hids id).1 (List.mem_map.2 ⟨_, hmem, rfl⟩)), hempty id h hmem]
  · rw [hempty id h hmem]
    simp [SortedMap.empty]

/-- Without a metadata partition and with nothing on disk nothing is opened. -/
theorem openAll_of_none (hmetadata : c.withMetadata = false)
    (hfound : b.idsOnDisk d host = .ok [] host) : Restore.openAll b d c host = .ok [] host := by
  rw [Restore.openAll, Action.bind_of_ok hfound, hmetadata]
  cases hdata : c.withData <;> rfl

theorem keepRecord_of_none {t : FileTree} (hmetadata : c.withMetadata = false) :
    Engine.keepRecord d c t = .ok () t := by
  rw [Engine.keepRecord, if_neg (by simp [hmetadata])]
  rfl

/-- An engine with tables that came up on a new store is what a machine is at first. -/
theorem refines_table (fresh : Fresh c host.tree) (hkind : c.backend = .table)
    (h : Engine.open c host = .ok e host₀) :
    ∃ d loc, StoreFolder.named c.root c.store = .ok d ∧
      Refines c d Backend.table
        (fun host registry => ∃ table,
          Stored d loc table host (· ∈ registry.map Prod.fst) registry)
        (Machine.initial c.store c.format c.withMetadata) ⟨e, host₀⟩ := by
  cases hmetadata : c.withMetadata with
  | true =>
      obtain ⟨d, loc, hnamed, sound, hids, hrestored, -⟩ := sound_of_open fresh hkind hmetadata h
      refine ⟨d, loc, hnamed, hmetadata ▸ ?_⟩
      refine refines_initial sound.settings sound.folder sound.backend sound.phase sound.store
        ⟨_, sound.stored⟩ (fun id => ?_) fun id h hmem => ?_
      · rw [← Engine.mem_openIds_iff, hids, and_iff_right hmetadata]
      · rw [hrestored id h hmem]
        rfl
  -- Nothing was opened and nothing recorded: there is no table, so any does for `Stored`.
  | false =>
      obtain ⟨d, t, registry, host₁, t₁, hnamed, hprepare, hopenAll, hkeep, rfl, rfl⟩ :=
        exists_of_open h
      obtain ⟨loc, lead, hempty⟩ := fresh.leadsTo hnamed hprepare
      rw [hkind] at hopenAll ⊢
      cases hopenAll.symm.trans (openAll_of_none hmetadata (idsOnDisk_of_empty lead hempty))
      cases hkeep.symm.trans (keepRecord_of_none hmetadata)
      refine ⟨d, loc, hnamed, hmetadata ▸ ?_⟩
      refine refines_initial rfl rfl rfl rfl (store_of_named hnamed).2
        ⟨fun _ => ⟨c.format, SortedMap.empty⟩, ?_, ?_, nofun⟩ (fun id => ?_) nofun
      · exact ⟨lead, nofun, nofun, fun name hname => absurd (hempty name) hname⟩
      · exact ⟨List.nodup_nil, List.nodup_nil, nofun, nofun⟩
      · simp [hmetadata]

/-- So is one with partitions in memory. -/
theorem refines_inMemory (fresh : Fresh c host.tree) (hkind : c.backend = .inMemory)
    (h : Engine.open c host = .ok e host₀) :
    ∃ d loc, StoreFolder.named c.root c.store = .ok d ∧
      Refines c d Backend.inMemory (Remembered d loc)
        (Machine.initial c.store c.format c.withMetadata) ⟨e, host₀⟩ := by
  obtain ⟨d, t, registry, host₁, t₁, hnamed, hprepare, hopenAll, hkeep, rfl, rfl⟩ :=
    exists_of_open h
  obtain ⟨loc, lead, hempty⟩ := fresh.leadsTo hnamed hprepare
  have own := (store_of_named hnamed).2
  rw [hkind] at hopenAll ⊢
  refine ⟨d, loc, hnamed, ?_⟩
  cases hmetadata : c.withMetadata with
  | true =>
      cases hopenAll.symm.trans (openAll_inMemory hmetadata)
      obtain ⟨lead', -⟩ := record_of_keepRecord lead hempty hmetadata hkeep
      have hnew := Host.partition_add_self ⟨t, host.partitions⟩
        (Partition.inMemory (c.spec metadataId))
      refine hmetadata ▸ refines_initial rfl rfl rfl rfl own ⟨lead', ?_⟩ (fun id => ?_)
        fun id h hmem => ?_
      · refine ⟨List.nodup_singleton _, List.nodup_singleton _, fun id h hmem => ?_,
          fun id h hmem => ?_⟩
        · cases List.mem_singleton.1 hmem
          simp [Host.add]
        · cases List.mem_singleton.1 hmem
          exact ⟨congrArg Partition.closed hnew, congrArg Partition.storage hnew⟩
      · simp [hmetadata]
      · cases List.mem_singleton.1 hmem
        exact congrArg Partition.entries hnew
  | false =>
      cases hopenAll.symm.trans (openAll_of_none hmetadata rfl)
      cases hkeep.symm.trans (keepRecord_of_none hmetadata)
      exact hmetadata ▸ refines_initial rfl rfl rfl rfl own
        ⟨lead, List.nodup_nil, List.nodup_nil, by simp, by simp⟩ (fun id => by simp [hmetadata])
        (by simp)

/-! ### Sessions -/

/-- A store that was not there comes up, and its engine serves one request after another, with
nothing else at work on the host. The names of its directories and what is to be stored are not
too long. -/
structure Session (c : EngineSettings) (host : Host) (requests : List Request) (e : Engine)
    (seen : List Observation) (r : Running) : Prop where
  absent : host.tree.exists (storePath c.root c.store) = false
  names : ∀ id, (dirName c.store id).utf8ByteSize ≤ maxNameBytes
  fits : ∀ request ∈ requests, request.Fits
  run : ∃ host₀, Engine.open c host = .ok e host₀ ∧ Served ⟨e, host₀⟩ requests seen r

/-- The partitions of the store that are asked for have table files with paths that the file
system takes. -/
def HasPaths (c : EngineSettings) (requests : List Request) : Prop :=
  ∀ request ∈ requests, ∀ spec ∈ request.spec? c, spec.store = c.store →
    checkText (tableFile (partitionPath c.root c.store spec.id)) = .ok ()

instance (c : EngineSettings) (requests : List Request) : Decidable (HasPaths c requests) :=
  inferInstanceAs (Decidable (∀ request ∈ requests, ∀ spec ∈ request.spec? c,
    spec.store = c.store →
      checkText (tableFile (partitionPath c.root c.store spec.id)) = .ok ()))

/-- The partitions that are found on disk are those that are open. -/
theorem Refines.idsOnDisk_eq {m : Machine} {loc : Location}
    (refines : Refines c d Backend.table
      (fun host registry => ∃ table,
        Stored d loc table host (· ∈ registry.map Prod.fst) registry) m r)
    (hphase : r.engine.phase = .opened) :
    EngineAction.idsOnDisk r = .ok r.engine.openIds r := by
  obtain ⟨table, stored⟩ := refines.inv (refines.phase.symm.trans hphase)
  obtain ⟨found, hfound, hascending, hmem⟩ := stored.tables.idsOnDisk_ok
  have hids : found = r.engine.openIds :=
    SortedMap.keys_eq_of_mem_iff hascending (SortedMap.keys_ascending _) fun id => by
      rw [hmem, Engine.mem_openIds_iff]
  rw [EngineAction.idsOnDisk, Action.bind_of_ok (EngineAction.engine_apply r),
    if_neg (by simp [hphase]), refines.backend, refines.folder, ← hids]
  exact EngineAction.onHost_of_ok (HostAction.onTree_of_ok hfound)

/-- What is found under a key of an open partition is what was said of it last. -/
theorem Refines.get_answer {admitted : PartitionSpec → Prop}
    {closing : Host → List (Int32 × Handle) → Prop}
    (refines : Refines c d b inv
      ((Machine.initial c.store c.format c.withMetadata).after requests) r)
    (reliable : Reliable b d admitted inv closing)
    (hseen : seen = (Machine.initial c.store c.format c.withMetadata).run requests)
    (hlast : ∀ request ∈ requests, request.isLast = false) {id : Int32}
    (hid : id ∈ r.engine.openIds) (key : Bytes) :
    (Request.serve (.get id key) r).1.answer =
      .ok (.value ((Machine.lastWord requests seen id key).getD none)) := by
  have hserve := (refines.serve reliable (.get id key) trivial fun _ h => nomatch h).1
  rw [refines.mirrors.openIds_eq] at hid
  rw [hserve, hseen]
  exact Machine.serve_get_after c.store c.format c.withMetadata hlast hid

theorem Session.answers (session : Session c host requests e seen r) (fresh : Fresh c host.tree)
    (paths : c.backend = .table → HasPaths c requests) :
    e.phase = .opened ∧
      e.openIds = (Machine.initial c.store c.format c.withMetadata).partitions.keys ∧
      seen = (Machine.initial c.store c.format c.withMetadata).run requests ∧
      ((∀ request ∈ requests, request.isLast = false) → ∀ id ∈ r.engine.openIds, ∀ key,
        (Request.serve (.get id key) r).1.answer =
          .ok (.value ((Machine.lastWord requests seen id key).getD none))) ∧
      (c.backend = .table → r.engine.phase = .opened →
        EngineAction.idsOnDisk r = .ok r.engine.openIds r) := by
  obtain ⟨host₀, hopen, served⟩ := session.run
  cases hkind : c.backend with
  -- Only here do the paths matter: behind a table there has to be room for its file.
  | table =>
      obtain ⟨d, loc, hnamed, refines⟩ := refines_table fresh hkind hopen
      obtain ⟨hroot, hstore⟩ := store_of_named hnamed
      have places : ∀ request ∈ requests, ∀ spec, request.spec? c = some spec →
          spec.store = c.store → HasPlace d spec := by
        intro request hrequest spec hspec hown
        refine ⟨hstore ▸ session.names spec.id, ?_⟩
        rw [StoreFolder.partitionPath, hroot, ← hstore]
        exact paths hkind request hrequest spec hspec hown
      have reliable := reliable_table d loc
      obtain ⟨hseen, refines'⟩ := refines.run reliable served session.fits places
      exact ⟨refines.phase, refines.mirrors.openIds_eq, hseen,
        fun hlast _ hid => refines'.get_answer reliable hseen hlast hid,
        fun _ => refines'.idsOnDisk_eq⟩
  | inMemory =>
      obtain ⟨d, loc, -, refines⟩ := refines_inMemory fresh hkind hopen
      have reliable := reliable_inMemory d loc
      obtain ⟨hseen, refines'⟩ := refines.run reliable served session.fits
        fun _ _ _ _ _ => trivial
      exact ⟨refines.phase, refines.mirrors.openIds_eq, hseen,
        fun hlast _ hid => refines'.get_answer reliable hseen hlast hid, nofun⟩

/-- The answers of an engine are those of a machine, and so are its phases and the ids of its
partitions, with either backend: what is found under a key is what was put there last, unless the
key was deleted or the partition was removed since. With tables the ids that are found on disk are
the same. So both backends give the same answers. -/
theorem answers_as_machine (session : Session c host requests e seen r)
    (fresh : Fresh c host.tree) (paths : c.backend = .table → HasPaths c requests) :
    e.phase = .opened ∧
      e.openIds = (Machine.initial c.store c.format c.withMetadata).partitions.keys ∧
      seen = (Machine.initial c.store c.format c.withMetadata).run requests ∧
      ((∀ request ∈ requests, request.isLast = false) → ∀ id ∈ r.engine.openIds, ∀ key,
        (Request.serve (.get id key) r).1.answer =
          .ok (.value ((Machine.lastWord requests seen id key).getD none))) ∧
      (c.backend = .table → r.engine.phase = .opened →
        EngineAction.idsOnDisk r = .ok r.engine.openIds r) ∧
      ∀ kind host' e' seen' r', Session { c with backend := kind } host' requests e' seen' r' →
        Fresh { c with backend := kind } host'.tree →
        (kind = .table → HasPaths { c with backend := kind } requests) →
          e'.openIds = e.openIds ∧ seen' = seen := by
  obtain ⟨hphase, hids, hseen, hget, hdisk⟩ := session.answers fresh paths
  refine ⟨hphase, hids, hseen, hget, hdisk, fun kind host' e' seen' r' session' fresh' paths' => ?_⟩
  obtain ⟨-, hids', hseen', -, -⟩ := session'.answers fresh' paths'
  exact ⟨hids'.trans hids.symm, hseen'.trans hseen.symm⟩

/-- A partition that was dropped and made again is empty, with either backend. -/
theorem answers_of_both_backends : ∃ requests e e' seen r r',
    requests = [.addPartition 1, .put 1 [107] [1], .sync, .removePartition 1, .addPartition 1,
      .get 1 [107], .addPartitionAs ⟨"t", 2, .plain⟩, .close, .close, .get 1 [107]] ∧
    Session (settingsUnder ⟨"."⟩) (Host.ofTree FileTree.empty) requests e seen r ∧
    Session { settingsUnder ⟨"."⟩ with backend := .inMemory } (Host.ofTree FileTree.empty)
      requests e' seen r' ∧
    seen.map Observation.answer = [.ok (.partition 1 .blockBased), .ok .done, .ok .done, .ok .done,
      .ok (.partition 1 .blockBased), .ok (.value none), .error (.request (.foreignStore "t" "s")),
      .ok .done, .ok .done, .error .engineNotOpen] := by
  -- The requests behind a name, so that no step of the proof evaluates the run.
  obtain ⟨requests, hrequests⟩ : ∃ requests : List Request, requests =
    [.addPartition 1, .put 1 [107] [1], .sync, .removePartition 1, .addPartition 1,
      .get 1 [107], .addPartitionAs ⟨"t", 2, .plain⟩, .close, .close, .get 1 [107]] := ⟨_, rfl⟩
  obtain ⟨fresh, e, host₀, hopen⟩ := open_here (settingsUnder ⟨"."⟩) rfl rfl rfl rfl
  obtain ⟨e', host₀', hopen', -⟩ := Action.exists_of_succeedsWith (show Action.succeedsWith
    (Engine.open { settingsUnder ⟨"."⟩ with backend := .inMemory }) (Host.ofTree FileTree.empty)
    (fun _ _ => true) = true by decide +kernel)
  have names : ∀ id, (dirName "s" id).utf8ByteSize ≤ maxNameBytes := fun id =>
    Nat.le_trans (utf8ByteSize_dirName_le "s" id) (by decide)
  have fits : ∀ request ∈ requests, request.Fits := by
    rw [hrequests]
    decide
  have paths : HasPaths (settingsUnder ⟨"."⟩) requests := by
    rw [hrequests]
    decide
  obtain ⟨seen, r, served⟩ := exists_served ⟨e, host₀⟩ requests
  obtain ⟨seen', r', served'⟩ := exists_served ⟨e', host₀'⟩ requests
  have session : Session (settingsUnder ⟨"."⟩) (Host.ofTree FileTree.empty) requests e seen r :=
    ⟨fresh.absent, names, fits, host₀, hopen, served⟩
  have session' : Session { settingsUnder ⟨"."⟩ with backend := .inMemory }
      (Host.ofTree FileTree.empty) requests e' seen' r' :=
    ⟨fresh.absent, names, fits, host₀', hopen', served'⟩
  obtain ⟨-, -, hseen, -, -, hboth⟩ := answers_as_machine session fresh fun _ => paths
  obtain ⟨-, rfl⟩ := hboth .inMemory _ e' seen' r' session' ⟨fresh.absent, fresh.empty⟩ nofun
  refine ⟨requests, e, e', _, r, r', hrequests, session, session', ?_⟩
  rw [hseen, hrequests]
  rfl

set_option maxRecDepth 10000 in
/-- The folder of a store may hold the directories that were made on the way to it: this one has a
partition 0 from the start. And it may have a path so long that there is no room for the table
file of a partition that is asked for, which is refused then. -/
theorem not_answers_at_all_paths :
    (∃ e seen r,
      Session (settingsUnder ⟨"s/s_0/../.."⟩) (Host.ofTree FileTree.empty) [.get 0 [107]] e seen r ∧
        HasPaths (settingsUnder ⟨"s/s_0/../.."⟩) [.get 0 [107]] ∧
        seen ≠ (Machine.initial "s" .blockBased true).run [.get 0 [107]]) ∧
    ∃ e seen r,
      Session (settingsUnder (Path.dots 2035)) (Host.ofTree FileTree.empty)
          [.addPartition (-2147483648)] e seen r ∧
        Fresh (settingsUnder (Path.dots 2035)) FileTree.empty ∧
        seen ≠ (Machine.initial "s" .blockBased true).run [.addPartition (-2147483648)] := by
  have names : ∀ id, (dirName "s" id).utf8ByteSize ≤ maxNameBytes := fun id =>
    Nat.le_trans (utf8ByteSize_dirName_le "s" id) (by decide)
  constructor
  · -- The opening and the request are evaluated at once.
    have key : Action.succeedsWith (Engine.open (settingsUnder ⟨"s/s_0/../.."⟩))
        (Host.ofTree FileTree.empty) (fun e host =>
          (Request.serve (.get 0 [107]) ⟨e, host⟩).1.ids.contains 0) = true := by decide +kernel
    obtain ⟨e, host, hopen, key⟩ := Action.exists_of_succeedsWith key
    refine ⟨e, _, _, ⟨by decide +kernel, names, by decide, host, hopen, (Served.done _).cons⟩,
      by decide, fun hseen => ?_⟩
    have hids := congrArg (List.map Observation.ids) hseen
    have hmachine : ((Machine.initial "s" .blockBased true).run [.get 0 [107]]).map
      Observation.ids = [[metadataId]] := rfl
    rw [hmachine, List.map_singleton, List.singleton_inj] at hids
    simp only [hids] at key
    exact absurd key (by decide)
  · obtain ⟨fresh, e, host, failure, r, hopen, hadd, -⟩ :=
      not_open_of_size (FileTree.empty.leadsTo_dots (n := 2035) (by decide)) (Path.size_dots 2035)
    have hrun : Request.run (.addPartition (-2147483648)) ⟨e, host⟩ = .error failure r :=
      Action.bind_of_error hadd
    refine ⟨e, _, _, ⟨fresh.absent, names, by decide, host, hopen, (Served.done _).cons⟩, fresh,
      fun hseen => ?_⟩
    rw [Request.serve_of_error hrun] at hseen
    have hanswer := congrArg (List.map Observation.answer) hseen
    have hmachine : ((Machine.initial "s" .blockBased true).run
      [.addPartition (-2147483648)]).map Observation.answer =
        [.ok (.partition (-2147483648) .blockBased)] := rfl
    rw [hmachine, List.map_singleton, List.singleton_inj] at hanswer
    cases hanswer

end PartitionStore
