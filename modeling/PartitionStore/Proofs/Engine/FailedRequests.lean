import PartitionStore.Proofs.Engine.Housing
import PartitionStore.Proofs.Engine.LongPaths
import PartitionStore.Proofs.Engine.Run
import PartitionStore.Proofs.Engine.Sparing

/-!
# `PartitionStore.Proofs.Engine.FailedRequests`: what a request leaves when it fails

A request that has to do with one partition does nothing before the last of its checks, but
for one thing: the directory of a new partition is made before its table, and stays when the
table cannot be made. In a folder that is there, and free of symbolic links, that happens in one
case only. A path of 4095 bytes is the longest that the file system takes, and the table has a
longer one than its directory has. So a partition may be *stranded* (`Running.Strands`): its
directory can be made, and the table in it cannot.

In all other cases the engine, its host and the reports to its listener are what they were.

* `Used.lodged`: every partition of an engine has a directory of the store's, or none.
* `HostAction.eq_of_put_error`, `Lodges.eq_of_drop_error`, `Standing.openTable_of_error`: what
  one operation leaves.
* `unchanged_of_failed_request_iff`: what a request leaves.
-/

set_option autoImplicit false

namespace PartitionStore

open FileTree Naming PartitionStore.Partition StoreFolder

/-- The request has to do with one partition. -/
def Request.isForOne : Request → Bool
  | addPartition _ | addPartitionAs _ | removePartition _ | put .. | get .. | delete .. => true
  | sync | close | removeStore => false

/-- The partitions of the registry are there, and keep their tables in directories of the folder's
partitions, if anywhere. -/
def StoreFolder.Lodges (d : StoreFolder) (host : Host) (registry : List (Int32 × Handle)) : Prop :=
  ∀ entry ∈ registry, entry.2 < host.partitions.length ∧
    ∀ dir, (host.partition entry.2).storage.dir? = some dir → ∃ id, dir = d.partitionPath id

/-- The partitions of the engine are those of a backend of this kind, in its folder. -/
structure Lodged (k : BackendKind) (r : Running) : Prop where
  backend : r.engine.backend = Backend.ofKind k
  lodges : r.engine.folder.Lodges r.host r.engine.registry

/-- The directory of the partition can be made, and its table cannot: there is nothing in its place,
and the path of the table file is too long, unlike that of the directory. -/
structure StoreFolder.Strands (d : StoreFolder) (loc : Location) (t : FileTree) (id : Int32) :
    Prop where
  missing : t.node? (dirName d.store id :: loc) = none
  usable : isEntryName (dirName d.store id) = true
  long : ¬d.Takes id

/-- The engine would make the directory of a new partition of its own for nothing. -/
structure Running.Strands (r : Running) (spec : PartitionSpec) : Prop where
  phase : r.engine.phase = .opened
  tables : r.engine.backend.kind = .table
  own : spec.store = r.engine.settings.store ∧ spec.store = r.engine.folder.store
  new : r.engine.hasOpen spec.id = false
  strands : r.engine.folder.Strands r.engine.folder.place r.host.tree spec.id

/-- With the directory of a partition, and nothing in it. -/
def Running.stranded (r : Running) (id : Int32) : Running :=
  ⟨r.engine, r.host.tree.place r.engine.folder.place (dirName r.engine.folder.store id) .dir,
    r.host.partitions⟩

variable {k : BackendKind} {d : StoreFolder} {c : EngineSettings} {listener : Option Listener}
  {e : Engine} {failure : StoreError} {host₀ host host' : Host} {r r' final : Running}
  {registry : List (Int32 × Handle)} {request : Request} {spec : PartitionSpec} {h : Handle}
  {part : Partition} {t u : FileTree} {loc : Location}

/-! ### Where partitions are kept -/

/-- Both backends keep partitions where they are. -/
theorem houses_lodges (k : BackendKind) (d : StoreFolder) : (Backend.ofKind k).Houses d
    fun _ part => ∀ dir, part.storage.dir? = some dir → ∃ id, dir = d.partitionPath id := by
  refine (k.houses_home d).mono (fun id part home dir hdir => ?_) fun continues hplace dir hdir =>
    hplace dir (continues.dir ▸ hdir)
  cases k with
  | inMemory => cases hdir.symm.trans home
  | table => exact ⟨id, Option.some.inj (hdir.symm.trans home.1)⟩

/-- However it is used, an engine has its partitions where they belong. -/
theorem Used.lodged (used : Used r final) (lodged : Lodged k r) :
    Lodged k final ∧ final.engine.folder = r.engine.folder := by
  obtain ⟨hbackend, hfolder, placed⟩ :=
    used.placed (houses_lodges k _) lodged.backend lodged.lodges
  exact ⟨⟨hbackend, hfolder.symm ▸ placed⟩, hfolder⟩

/-- An engine that was opened has its partitions where they belong. -/
theorem lodged_of_open (hopen : Engine.openWith c (Backend.ofKind k) listener host₀ = .ok e host) :
    Lodged k ⟨e, host⟩ := by
  obtain ⟨hbackend, placed⟩ := placed_of_open hopen (houses_lodges k _)
  exact ⟨hbackend, placed⟩

/-! ### What one operation leaves when it fails -/

namespace HostAction

/-- A put that fails changes nothing. -/
theorem eq_of_put_error {key value : Bytes} (hput : put h key value host = .error failure host') :
    host' = host := by
  cases hpart : (host.partition h).put key value with
  | ok part => cases (put_of_ok hpart).symm.trans hput
  | error e =>
      cases (put_of_error hpart).symm.trans hput
      rfl

/-- A get that fails changes nothing. -/
theorem eq_of_get_error {key : Bytes} (hget : get h key host = .error failure host') :
    host' = host := by
  have hsame := after_get h key host
  rwa [hget] at hsame

/-- A delete that fails changes nothing. -/
theorem eq_of_delete_error {key : Bytes} (hdelete : delete h key host = .error failure host') :
    host' = host := by
  cases hpart : (host.partition h).delete key with
  | ok part => cases (delete_of_ok hpart).symm.trans hdelete
  | error e =>
      cases (delete_of_error hpart).symm.trans hdelete
      rfl

end HostAction

/-- A directory that cannot be removed is left with all that is in it. -/
theorem Partition.eq_of_drop_error
    (hplace : ∀ dir, part.storage.dir? = some dir → ∃ id, dir = d.partitionPath id)
    (hdrop : part.drop t = .error failure u) : u = t := by
  cases hstorage : part.storage with
  | memory =>
      cases (drop_of_memory hstorage t).symm.trans hdrop
  | table dir dirty =>
      obtain ⟨id, rfl⟩ := hplace dir (by rw [hstorage]; rfl)
      have hlast : (d.partitionPath id).steps.getLast? = some (.down (dirName d.store id)) := by
        rw [show d.partitionPath id = d.path.join (dirName d.store id) from rfl,
          Path.steps_join (d.isPlainName_dir id)]
        simp
      rw [drop_eq hstorage] at hdrop
      split at hdrop
      · rcases removeDirAll_cases hlast (endsWithSlash_partitionPath d id) t with
          ⟨⟨cause, hremove⟩, -⟩ | ⟨_, _, v, -, -, hremove, -⟩
        · rw [hremove] at hdrop
          cases hdrop
          rfl
        · rw [hremove] at hdrop
          cases hdrop
      · cases hdrop

/-- A drop that fails changes nothing, if the partition is where it belongs: the directory is
removed with all that is in it, or not at all. -/
theorem StoreFolder.Lodges.eq_of_drop_error {id : Int32} (lodges : d.Lodges host registry)
    (hmem : (id, h) ∈ registry) (hdrop : HostAction.drop h host = .error failure host') :
    host' = host := by
  cases hpart : (host.partition h).drop host.tree with
  | ok part t => cases (HostAction.drop_of_ok hpart).symm.trans hdrop
  | error cause t =>
      cases (HostAction.drop_of_error hpart).symm.trans hdrop
      rw [Partition.eq_of_drop_error (lodges _ hmem).2 hpart]

/-- The path of the scratch file is as long as that of the table file. -/
theorem StoreFolder.not_takes_iff {id : Int32} : ¬d.Takes id ↔
    checkText (d.partitionPath id) = .ok () ∧
      checkText ((d.partitionPath id).join scratchName) ≠ .ok () := by
  have hne := text_partitionPath_ne d id
  have hslash := endsWithSlash_partitionPath d id
  have hsame : checkText (tableFile (d.partitionPath id)) = .ok () ↔
      checkText ((d.partitionPath id).join scratchName) = .ok () :=
    ⟨fun h => Path.checkText_of_hasRoom
        (hasRoom_files (hasRoom_of_files hne hslash (.inl rfl) h)).2,
      fun h => Path.checkText_of_hasRoom
        (hasRoom_files (hasRoom_of_files hne hslash (.inr rfl) h)).1⟩
  rw [StoreFolder.Takes, hsame, Classical.not_imp]

/-- A slot that was filled with what was there is as it was. -/
theorem Partition.Slot.Filled.eq (filled : (Slot.of t loc).Filled loc t u) : u = t := by
  refine ext_node? fun l => ?_
  by_cases hl : Slot.Has loc l
  · rcases hl with rfl | rfl | rfl
    · exact congrArg Slot.dir filled.slot
    · exact congrArg Slot.table filled.slot
    · exact congrArg Slot.scratch filled.slot
  · exact filled.same l hl

/-- What an opening that fails leaves: the directory of the partition, if that is stranded, and
nothing new otherwise. -/
theorem Standing.openTable_cases (standing : Standing d loc t) (spec : PartitionSpec) :
    (d.Strands loc t spec.id ∧ ∃ cause, openTable (d.partitionPath spec.id) spec t =
        .error (.io cause) (t.place loc (dirName d.store spec.id) .dir)) ∨
      ¬d.Strands loc t spec.id ∧ ∀ e u, openTable (d.partitionPath spec.id) spec t = .error e u →
        u = t := by
  obtain ⟨v, filled, hopen⟩ := opensTo_openIn standing.way (d.isPlainName_dir spec.id)
    (standing.free.cons _) spec
  have hpath : d.path.join (dirName d.store spec.id) = d.partitionPath spec.id := rfl
  rw [hpath] at filled hopen
  -- Below a place where there is nothing there is nothing.
  have hempty (hnone : t.node? (dirName d.store spec.id :: loc) = none) (file : String) :
      t.node? (file :: dirName d.store spec.id :: loc) = none :=
    node?_below (by simp [hnone]) (List.cons_ne_nil file [])
  by_cases hstrands : d.Strands loc t spec.id
  · obtain ⟨hnone, husable, hlong⟩ := hstrands
    obtain ⟨htext, hscratch⟩ := not_takes_iff.1 hlong
    obtain ⟨cause, hscratch⟩ : ∃ cause,
        checkText ((d.partitionPath spec.id).join scratchName) = .error cause := by
      cases hcheck : checkText ((d.partitionPath spec.id).join scratchName) with
      | ok _ => exact absurd hcheck hscratch
      | error cause => exact ⟨cause, rfl⟩
    rw [Slot.openIn_of_long htext husable hnone hscratch] at filled hopen
    obtain rfl : v = t.place loc (dirName d.store spec.id) .dir := by
      refine ext_node? fun l => ?_
      by_cases hl : l = dirName d.store spec.id :: loc
      · rw [hl, node?_place_self husable standing.isDir (by simp [hnone])]
        exact congrArg Slot.dir filled.slot
      rw [node?_place_of_ne _ _ _ _ hl]
      by_cases hhas : Slot.Has (dirName d.store spec.id :: loc) l
      · rcases hhas with rfl | rfl | rfl
        · exact absurd rfl hl
        · exact congrArg Slot.table filled.slot
        · exact congrArg Slot.scratch filled.slot
      · exact filled.same l hhas
    exact .inl ⟨⟨hnone, husable, hlong⟩, cause, hopen⟩
  · refine .inr ⟨hstrands, fun e u herror => ?_⟩
    rw [hopen] at herror
    cases hanswer : ((Slot.of t (dirName d.store spec.id :: loc)).openIn (d.partitionPath spec.id)
        (dirName d.store spec.id) spec).1 with
    | ok entries =>
        rw [hanswer] at herror
        cases herror
    | error cause =>
        rw [hanswer] at herror
        cases herror
        rcases Slot.openIn_of_error hanswer fun hnone => ⟨hempty hnone _, hempty hnone _⟩ with
          hsame | ⟨hnone, htext, husable, hlong⟩
        · rw [hsame] at filled
          exact filled.eq
        · exact absurd ⟨hnone, husable, not_takes_iff.2 ⟨htext, hlong⟩⟩ hstrands

/-- A partition that a backend cannot attach is stranded, or left no trace. -/
theorem Standing.attach_of_error (standing : Standing d loc host.tree)
    (hattach : (Backend.ofKind k).attach d spec host = .error failure host') :
    (k = .table ∧ spec.store = d.store ∧ d.Strands loc host.tree spec.id) ∧
        host' = ⟨host.tree.place loc (dirName d.store spec.id) .dir, host.partitions⟩ ∨
      ¬(k = .table ∧ spec.store = d.store ∧ d.Strands loc host.tree spec.id) ∧ host' = host := by
  cases k with
  | inMemory => cases hattach
  | table =>
      by_cases hown : spec.store = d.store
      · rw [Backend.ofKind, Backend.attach_table hown] at hattach
        rcases standing.openTable_cases spec with ⟨strands, cause, hopen⟩ | ⟨hnot, hsame⟩
        · cases (HostAction.register_of_error hopen).symm.trans hattach
          exact .inl ⟨⟨rfl, hown, strands⟩, rfl⟩
        · cases hopen : openTable (d.partitionPath spec.id) spec host.tree with
          | ok part t => cases (HostAction.register_of_ok hopen).symm.trans hattach
          | error cause t =>
              cases (HostAction.register_of_error hopen).symm.trans hattach
              refine .inr ⟨fun h => hnot h.2.2, ?_⟩
              rw [hsame _ t hopen]
      · have hrefuse : Backend.table.attach d spec =
            throw (.request (.foreignStore spec.store d.store)) := if_neg hown
        rw [Backend.ofKind, hrefuse] at hattach
        cases hattach
        exact .inr ⟨fun h => hown h.2.1, rfl⟩

/-! ### What a request leaves when it fails -/

/-- A stranded directory was not there before. -/
theorem Running.stranded_ne (strands : r.Strands spec)
    (standing : Standing r.engine.folder r.engine.folder.place r.host.tree) :
    r.stranded spec.id ≠ r := by
  intro hsame
  have hnode := congrArg (fun r' : Running =>
    r'.host.tree.node? (dirName r.engine.folder.store spec.id :: r.engine.folder.place)) hsame
  simp only [Running.stranded] at hnode
  rw [node?_place_self strands.strands.usable standing.isDir (by simp [strands.strands.missing]),
    strands.strands.missing] at hnode
  cases hnode

/-- What follows an action without failing makes no difference to its failure. -/
theorem Action.error_of_bind {ε σ α β : Type} {action : EStateM ε σ α} {next : α → EStateM ε σ β}
    {s s' : σ} {e : ε} (hnext : ∀ a s, ∃ b s', next a s = .ok b s')
    (h : (action >>= next) s = .error e s') : action s = .error e s' := by
  rcases Action.bind_eq_error_iff.1 h with herror | ⟨a, s₁, -, herror⟩
  · exact herror
  · obtain ⟨b, s₂, hok⟩ := hnext a s₁
    cases hok.symm.trans herror

/-- A request for what one partition holds leaves what the operation on that leaves. -/
theorem eq_of_onPartition_error {α : Type} {id : Int32} {action : Handle → HostAction α}
    {asked : EStateM.Result StoreError Running α}
    (hasked : asked = match r.engine.handle? id with
      | none => .error (.unknownPartition id) r
      | some h => EngineAction.onHost (action h) r)
    (hkept : ∀ h host, action h r.host = .error failure host → host = r.host)
    (hfails : asked = .error failure r') : r' = r := by
  rw [hasked] at hfails
  cases hlookup : r.engine.handle? id with
  | none =>
      rw [hlookup] at hfails
      cases hfails
      rfl
  | some h =>
      simp only [hlookup] at hfails
      cases haction : action h r.host with
      | ok a host => cases (EngineAction.onHost_of_ok haction).symm.trans hfails
      | error cause host =>
          cases (EngineAction.onHost_of_error haction).symm.trans hfails
          rw [hkept h host haction]

namespace Lodged

variable (lodged : Lodged k r)
include lodged

/-- A new partition is stranded, or could not be made without a trace. -/
theorem addPartitionAs_of_error
    (standing : Standing r.engine.folder r.engine.folder.place r.host.tree)
    (hadd : EngineAction.addPartitionAs spec r = .error failure r') :
    r.Strands spec ∧ r' = r.stranded spec.id ∨ ¬r.Strands spec ∧ r' = r := by
  by_cases hphase : r.engine.phase = .opened
  · rw [EngineAction.addPartitionAs_eq hphase, lodged.backend] at hadd
    split at hadd
    · rename_i hforeign
      cases hadd
      exact .inr ⟨fun strands => hforeign strands.own.1, rfl⟩
    rename_i hstore
    split at hadd
    · rename_i hopen
      cases hadd
      exact .inr ⟨fun strands => by simp [strands.new] at hopen, rfl⟩
    rename_i hnew
    cases hattach : (Backend.ofKind k).attach r.engine.folder spec r.host with
    | ok h host => simp [hattach] at hadd
    | error cause host =>
        simp only [hattach] at hadd
        cases hadd
        have hkind : r.engine.backend.kind = k := by rw [lodged.backend, Backend.kind_ofKind]
        rcases standing.attach_of_error hattach with ⟨⟨rfl, hown, strands⟩, rfl⟩ | ⟨hnot, rfl⟩
        · exact .inl ⟨⟨hphase, hkind, ⟨not_not.1 hstore, hown⟩, by simpa using hnew, strands⟩, rfl⟩
        · exact .inr ⟨fun strands =>
            hnot ⟨hkind.symm.trans strands.tables, strands.own.2, strands.strands⟩, rfl⟩
  · -- An engine that has ended refuses, and is left as it is.
    have hkept := EngineCall.next_of_ended (lodged.backend ▸ Backend.onlyLists_ofKind k) hphase
      (.request (.addPartitionAs spec))
    have hrun : (Request.addPartitionAs spec).run r = .error failure r' := Action.bind_of_error hadd
    rw [EngineCall.next_request, Request.serve_of_error hrun] at hkept
    exact .inr ⟨fun strands => hphase strands.phase, hkept⟩

/-- Where a partition would be stranded the request for it does fail. -/
theorem addPartitionAs_of_strands
    (standing : Standing r.engine.folder r.engine.folder.place r.host.tree)
    (strands : r.Strands spec) :
    ∃ failure, EngineAction.addPartitionAs spec r = .error failure (r.stranded spec.id) := by
  obtain rfl : k = .table := by rw [← Backend.kind_ofKind k, ← lodged.backend, strands.tables]
  obtain ⟨cause, hopen⟩ := (standing.openTable_cases spec).elim And.right
    fun h => absurd strands.strands h.1
  refine ⟨.io cause, ?_⟩
  rw [EngineAction.addPartitionAs_eq strands.phase, if_neg (not_not.2 strands.own.1),
    if_neg (by simp [strands.new]), lodged.backend, Backend.ofKind,
    Backend.attach_table strands.own.2, HostAction.register_of_error hopen]
  rfl

/-- Any other request for one partition leaves no trace of its failure. -/
theorem eq_of_error (hone : request.isForOne = true)
    (hadds : request.spec? r.engine.settings = none)
    (hrun : request.run r = .error failure r') : r' = r := by
  by_cases hphase : r.engine.phase = .opened
  · -- What reaches no partition has failed before it touched the host; what reaches one is refused
    -- by it or fails in it, and then leaves it as it was.
    cases request with
    | addPartition | addPartitionAs => cases hadds
    | sync | close | removeStore => cases hone
    | removePartition id =>
        have hremove := Action.error_of_bind (fun _ _ => ⟨_, _, rfl⟩) hrun
        rw [EngineAction.removePartition_eq hphase] at hremove
        cases hlookup : r.engine.handle? id with
        | none => simp [hlookup] at hremove
        | some h =>
            cases hdrop : r.engine.backend.drop h r.host with
            | ok _ host => simp [hlookup, hdrop] at hremove
            | error cause host =>
                simp only [hlookup, hdrop] at hremove
                cases hremove
                rw [lodged.backend, Backend.drop_ofKind] at hdrop
                rw [lodged.lodges.eq_of_drop_error (Engine.mem_of_handle? hlookup) hdrop]
    | put id key value =>
        exact eq_of_onPartition_error (EngineAction.put_eq hphase id key value)
          (fun h host hput => HostAction.eq_of_put_error (by simpa [lodged.backend] using hput))
          (Action.error_of_bind (fun _ _ => ⟨_, _, rfl⟩) hrun)
    | get id key =>
        exact eq_of_onPartition_error (EngineAction.get_eq hphase id key)
          (fun h host hget => HostAction.eq_of_get_error (by simpa [lodged.backend] using hget))
          (Action.error_of_bind (fun _ _ => ⟨_, _, rfl⟩) hrun)
    | delete id key =>
        exact eq_of_onPartition_error (EngineAction.delete_eq hphase id key)
          (fun h host hdelete =>
            HostAction.eq_of_delete_error (by simpa [lodged.backend] using hdelete))
          (Action.error_of_bind (fun _ _ => ⟨_, _, rfl⟩) hrun)
  · have hkept := EngineCall.next_of_ended (lodged.backend ▸ Backend.onlyLists_ofKind k) hphase
      (.request request)
    rwa [EngineCall.next_request, Request.serve_of_error hrun] at hkept

end Lodged

/-- A request for one partition leaves everything as it was when it fails, the engine with its
reports, all partitions and the whole tree, unless it is to make a partition that is stranded. Then
the directory of that is left, and nothing else. -/
theorem unchanged_of_failed_request_iff
    (hopen : Engine.openWith c (Backend.ofKind c.backend) listener host₀ = .ok e host)
    (used : Used ⟨e, host⟩ r) (free : r.host.tree.LinkFree [])
    (hthere : r.host.tree.isDir e.folder.path = true) (hone : request.isForOne = true)
    (hfails : request.run r = .error failure r') :
    (r' = r ↔ ∀ spec, request.spec? r.engine.settings = some spec → ¬r.Strands spec) ∧
      ∀ spec, request.spec? r.engine.settings = some spec → r.Strands spec →
        r' = r.stranded spec.id := by
  obtain ⟨lodged, hfolder⟩ := used.lodged (lodged_of_open hopen)
  have standing : Standing r.engine.folder r.engine.folder.place r.host.tree :=
    (r.engine.folder.sited_place free).standing_of_isDir (by rw [hfolder]; exact hthere)
  cases hspec : request.spec? r.engine.settings with
  | none =>
      have hsame := lodged.eq_of_error hone hspec hfails
      exact ⟨iff_of_true hsame nofun, nofun⟩
  | some spec =>
      -- Two requests make a partition, and both come down to this.
      have hadd : EngineAction.addPartitionAs spec r = .error failure r' := by
        cases request with
        | addPartition id =>
            cases hspec
            rw [← EngineAction.addPartition_eq]
            exact Action.error_of_bind (fun _ _ => ⟨_, _, rfl⟩) hfails
        | addPartitionAs made =>
            cases hspec
            exact Action.error_of_bind (fun _ _ => ⟨_, _, rfl⟩) hfails
        | removePartition | put | get | delete | sync | close | removeStore => cases hspec
      simp only [Option.some.injEq, forall_eq']
      rcases lodged.addPartitionAs_of_error standing hadd with ⟨strands, rfl⟩ | ⟨hnot, rfl⟩
      · exact ⟨iff_of_false (Running.stranded_ne strands standing) (not_not.2 strands),
          fun _ => rfl⟩
      · exact ⟨iff_of_true rfl hnot, fun strands => absurd strands hnot⟩

/-- Below a path of this length the table file of the partition with the longest id is out of reach:
it takes nine bytes, the slash before it included, and there is room for eight. -/
theorem not_takes_of_size {d : StoreFolder} {p : Path} (room : p.HasRoom 0)
    (hnamed : StoreFolder.named (settingsUnder p).root (settingsUnder p).store = .ok d)
    (hsize : p.text.utf8ByteSize = 4071) : ¬d.Takes (-2147483648) := by
  have hname : dirName "s" (-2147483648) = "s_-2147483648" := by decide +kernel
  have hroom (n : Nat) :=
    @hasRoom_partitionPath_settingsUnder_iff d (-2147483648) p 0 n room hnamed
  have hdir := (hroom 0).2 (by rw [hname, hsize]; decide)
  refine not_takes_iff.2 ⟨Path.checkText_of_hasRoom hdir, fun h => ?_⟩
  have hlong := (hroom 9).1 (hasRoom_of_files hdir.nonempty hdir.noSlash (.inr rfl) h)
  rw [hname, hsize] at hlong
  exact absurd hlong.1 (by decide)

/-- A folder with nothing in it, and nothing beside it. -/
def bareFolder : FileTree := FileTree.empty.place [] "s" .dir

/-- In the bare tree there is the folder and nothing else. -/
theorem node?_bareFolder (l : Location) :
    bareFolder.node? l = if l = ["s"] then some .dir else FileTree.empty.node? l := by
  split
  · rename_i hl
    rw [hl]
    exact node?_place_self (by decide) (node?_nil _)
      (by rw [show FileTree.empty.node? ["s"] = none from rfl]; simp)
  · rename_i hl
    exact node?_place_of_ne _ _ _ _ hl

/-- It has no links. -/
theorem linkFree_bareFolder : bareFolder.LinkFree [] :=
  linkFree_of_listsNoLink (by decide +kernel) []

/-- After others emptied the folder the partition with the longest id is stranded in it, if the path
of the folder has the length at which the table file is out of reach. -/
theorem strands_of_size {p : Path} (lead : FileTree.empty.LeadsTo p [])
    (hsize : p.text.utf8ByteSize = 4071) : ∃ e host r,
      Engine.open (settingsUnder p) (Host.ofTree FileTree.empty) = .ok e host ∧
        Used ⟨e, host⟩ r ∧ r.host.tree.LinkFree [] ∧ r.host.tree.isDir e.folder.path = true ∧
        r.Strands (r.engine.settings.spec (-2147483648)) ∧ r.engine.hasOpen (-1) = true := by
  obtain ⟨fresh, e, host, -, -, hopen, -⟩ := not_open_of_size lead hsize
  obtain ⟨d, loc, hnamed, sound, hids, -, -⟩ := sound_of_open fresh rfl rfl hopen
  obtain ⟨hroot, hstore⟩ := store_of_named hnamed
  obtain rfl : e.folder = d := sound.folder
  replace hroot : e.folder.root = p := hroot
  replace hstore : e.folder.store = "s" := hstore.symm
  have hthere : bareFolder.node? ["s"] = some .dir := (node?_bareFolder _).trans (if_pos rfl)
  have lead' : bareFolder.LeadsTo p [] := lead.congr fun l hl =>
    (node?_bareFolder l).trans (if_neg fun e : l = ["s"] => hl (e ▸ Location.inside_cons "s" []))
  have hfolder : (p.join "s").HasRoom 0 :=
    (Path.hasRoom_join_iff lead.room.nonempty lead.room.noSlash (by decide)).2
      ⟨lead.room.iff_short.2 (hsize ▸ by decide), by decide⟩
  have hpath : e.folder.path = p.join "s" := by
    rw [StoreFolder.path, hroot, hstore]
    rfl
  have hplace : e.folder.place = ["s"] := by
    have hfollow := loc_eq_follow (linkFree_empty []) lead.resolveSteps
    rw [StoreFolder.place, hroot, hstore, ← hfollow]
    rfl
  -- Others empty the folder, which the engine does not notice.
  have used : Used ⟨e, host⟩ ⟨e, bareFolder, host.partitions⟩ :=
    @Used.meanwhile ⟨e, host⟩ _ e.registry ⟨bareFolder, host.partitions⟩ (List.Perm.refl _)
      ⟨Nat.le_refl _, fun _ _ => .refl _⟩ (.done _)
  refine ⟨e, host, _, hopen, used, linkFree_bareFolder, ?_, ?_,
    Engine.hasOpen_iff.2 (Engine.mem_openIds_iff.1 ((hids (-1)).2 rfl))⟩
  · rw [hpath]
    exact (lead'.join hthere hfolder).isDir
  · have hspec : (e.settings.spec (-2147483648)).id = -2147483648 := rfl
    have hnew : (-2147483648 : Int32) ∉ e.openIds := fun h => absurd ((hids _).1 h) (by decide)
    refine ⟨sound.phase, by rw [sound.backend]; rfl, ⟨rfl, sound.settings ▸ hstore.symm⟩, ?_,
      ⟨?_, ?_, not_takes_of_size lead.room hnamed hsize⟩⟩
    · rw [hspec, ← Bool.not_eq_true, Engine.hasOpen_iff, ← Engine.mem_openIds_iff]
      exact hnew
    · rw [hplace, node?_bareFolder, if_neg (by simp)]
      exact node?_below (by decide) (List.cons_ne_nil _ [])
    · rw [hspec, hstore]
      decide +kernel

/-- A partition that is stranded leaves a trace of its failure. One that is open already does
not. -/
theorem failed_request_leaves_stranded_directory :
    ∃ e host r failure r' failure' r'', Engine.open (settingsUnder (Path.dots 2035))
        (Host.ofTree FileTree.empty) = .ok e host ∧ Used ⟨e, host⟩ r ∧
      (Request.addPartition (-2147483648)).run r = .error failure r' ∧
      r' = r.stranded (-2147483648) ∧ r' ≠ r ∧
      (Request.addPartition (-1)).run r = .error failure' r'' ∧ r'' = r := by
  -- For any path of that length, since one of 4071 characters is not to be evaluated.
  have below (p : Path) (lead : FileTree.empty.LeadsTo p []) (hsize : p.text.utf8ByteSize = 4071) :
      ∃ e host r failure r' failure' r'', Engine.open (settingsUnder p)
          (Host.ofTree FileTree.empty) = .ok e host ∧ Used ⟨e, host⟩ r ∧
        (Request.addPartition (-2147483648)).run r = .error failure r' ∧
        r' = r.stranded (-2147483648) ∧ r' ≠ r ∧
        (Request.addPartition (-1)).run r = .error failure' r'' ∧ r'' = r := by
    obtain ⟨e, host, r, hopen, used, free, hthere, strands, hhas⟩ := strands_of_size lead hsize
    obtain ⟨lodged, hfolder⟩ := used.lodged (lodged_of_open (k := .table) hopen)
    obtain ⟨failure, hadd⟩ := lodged.addPartitionAs_of_strands
      ((r.engine.folder.sited_place free).standing_of_isDir (hfolder ▸ hthere)) strands
    have hrun : (Request.addPartition (-2147483648)).run r =
        .error failure (r.stranded (-2147483648)) :=
      Action.bind_of_error ((EngineAction.addPartition_eq _).trans hadd)
    have hown : (r.engine.settings.spec (-1)).store = r.engine.settings.store := rfl
    have hagain : (Request.addPartition (-1)).run r = .error (.duplicatePartition (-1)) r := by
      refine Action.bind_of_error ((EngineAction.addPartition_eq _).trans ?_)
      rw [EngineAction.addPartitionAs_eq strands.phase, if_neg (not_not.2 hown)]
      exact if_pos hhas
    have hopened : Engine.openWith (settingsUnder p) (Backend.ofKind (settingsUnder p).backend) none
      (Host.ofTree FileTree.empty) = .ok e host := hopen
    obtain ⟨hiff, hleft⟩ := unchanged_of_failed_request_iff hopened used free hthere rfl hrun
    have hspec : (Request.addPartition (-2147483648)).spec? r.engine.settings =
      some (r.engine.settings.spec (-2147483648)) := rfl
    have hid : (r.engine.settings.spec (-2147483648)).id = -2147483648 := rfl
    replace hleft := hleft _ hspec strands
    rw [hid] at hleft
    exact ⟨e, host, r, failure, _, _, _, hopen, used, hrun, hleft,
      fun hsame => hiff.1 hsame _ hspec strands, hagain, rfl⟩
  exact below (Path.dots 2035) (FileTree.empty.leadsTo_dots (by decide)) (Path.size_dots 2035)

end PartitionStore
