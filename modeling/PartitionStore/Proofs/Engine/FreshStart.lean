import PartitionStore.Proofs.Engine.Fresh
import PartitionStore.Proofs.StoreFolder.Guarding

/-!
# `PartitionStore.Proofs.Engine.FreshStart`: opening a store over another format

A store whose record tells another format than the one it is opened with is emptied, and then
opened. A store that is not there is made, and then opened; the guard is not asked. The two
meet as soon as the folder is ready: they leave the same tree (`prepare_of_conflict`), and all
that follows hangs on that alone. So nothing of the old store makes a difference, whatever it
held (`opensAfresh_of_conflict`).

The folder is made again along its path. What is asked for is therefore that the root's path
does not lead through the folder (`StoreFolder.RootApart`). Where a link on the way leads there,
the way is lost with the folder, and the two openings fail in different words.
-/

set_option autoImplicit false

namespace PartitionStore

open FileTree Naming StoreFolder

/-- Opening the store comes to the same as opening it in the tree without its folder: the answer is
the same, the partitions are, and the tree that is left. -/
def Engine.OpensAfresh (d : StoreFolder) (c : EngineSettings) (host : Host) : Prop :=
  ∃ parent, host.tree.resolveSteps .followed d.root.steps = .ok (.occupied parent .dir) ∧
    Engine.open c host = Engine.open c { host with tree := host.tree.prune (d.store :: parent) }

variable {d : StoreFolder} {c : EngineSettings} {host : Host} {t u : FileTree}
  {recorded : TableFormat}

/-- Once the folder is ready nothing else of the tree that it was made ready in counts. -/
theorem open_congr {host' : Host} (hnamed : StoreFolder.named c.root c.store = .ok d)
    (hparts : host'.partitions = host.partitions) (hprepare : Engine.prepare d c host.tree = .ok () u)
    (hprepare' : Engine.prepare d c host'.tree = .ok () u) :
    Engine.open c host' = Engine.open c host := by
  have hready : HostAction.onTree (Engine.prepare d c) host = .ok () { host with tree := u } :=
    HostAction.onTree_of_ok hprepare
  have hready' : HostAction.onTree (Engine.prepare d c) host' = .ok () { host with tree := u } := by
    rw [HostAction.onTree_of_ok hprepare', hparts]
  have hfolder (host : Host) :
      (HostAction.ofExcept (.ok d) : HostAction StoreFolder) host = .ok d host := rfl
  rw [Engine.open, Engine.openWith, hnamed, Action.bind_of_ok (hfolder host'),
    Action.bind_of_ok (hfolder host)]
  exact Action.bind_congr (hready'.trans hready.symm)

/-- A folder with a record of another format is made ready by emptying it. That leaves the tree in
which the folder was made where none was. -/
theorem prepare_of_conflict (hguard : c.guardOnReopen = true) (records : d.Records t recorded)
    (hdiffer : recorded ≠ c.format) (apart : d.RootApart t) :
    ∃ parent u, t.resolveSteps .followed d.root.steps = .ok (.occupied parent .dir) ∧
      Engine.prepare d c t = .ok () u ∧
      Engine.prepare d c (t.prune (d.store :: parent)) = .ok () u := by
  obtain ⟨parent, hroot, named', -, hempty⟩ := exists_empty_eq records apart
  have hnone : (t.prune (d.store :: parent)).node? (d.store :: parent) = none := by
    rw [node?_prune_cons, if_pos (List.suffix_refl _)]
  have hmake := createDirAll_ok named' hnone
  generalize (t.prune (d.store :: parent)).place parent d.store .dir = u at hempty hmake
  refine ⟨parent, u, hroot, ?_, ?_⟩
  · -- A folder with a record is there, and so it is for the guard to look at it.
    obtain ⟨_, loc, -, hway, named, -⟩ := exists_of_records records
    have hfind := find_of_resolveSteps (Path.hasRoom_of_checkText named.text named.noSlash) hway
    have hensure : d.ensure t = .ok false t :=
      ensure_of_isDir (by rw [FileTree.isDir, hfind])
    have hverdict : d.guard c.format t = .ok (.emptied recorded) u := by
      rw [guard_of_records records, if_neg hdiffer, Action.bind_of_ok hempty, Action.pure_apply]
    rw [Engine.prepare, Action.bind_of_ok hensure]
    simp only [hguard, Bool.not_false, Bool.and_self, if_true]
    exact Action.bind_of_ok hverdict
  · have hmissing : ¬d.isThere (t.prune (d.store :: parent)) = true := by
      rw [isThere, named'.exists_of_none hnone]
      exact Bool.false_ne_true
    have hmade : d.ensure (t.prune (d.store :: parent)) = .ok true u := by
      rw [ensure, Action.bind_of_ok (Action.get_apply _), if_neg hmissing,
        Action.bind_of_ok (StoreAction.ofFiles_of_ok hmake)]
      rfl
    rw [Engine.prepare, Action.bind_of_ok hmade]
    rfl

/-- Opening a store over a record of another format comes to the same as opening it where nothing is
left of it. -/
theorem opensAfresh_of_conflict (hnamed : StoreFolder.named c.root c.store = .ok d)
    (hguard : c.guardOnReopen = true) (records : d.Records host.tree recorded)
    (hdiffer : recorded ≠ c.format) (apart : d.RootApart host.tree) :
    Engine.OpensAfresh d c host := by
  obtain ⟨parent, u, hroot, hprepare, hprepare'⟩ :=
    prepare_of_conflict hguard records hdiffer apart
  exact ⟨parent, hroot, open_congr hnamed rfl hprepare' hprepare⟩

/-- So it is with a store below a directory of its own. -/
theorem opensAfresh_below_data :
    (settingsUnder ⟨"data"⟩).guardOnReopen = true ∧
      Records ⟨⟨"data"⟩, "s", by decide⟩ (recordedUnder ⟨"data"⟩) .plain ∧
      Engine.OpensAfresh ⟨⟨"data"⟩, "s", by decide⟩ (settingsUnder ⟨"data"⟩)
        (Host.ofTree (recordedUnder ⟨"data"⟩)) := by
  have records : Records ⟨⟨"data"⟩, "s", by decide⟩ (recordedUnder ⟨"data"⟩) .plain :=
    records_iff.2 ⟨EngineRecord.ofFormat .plain, by decide +kernel, by decide +kernel⟩
  exact ⟨rfl, records,
    opensAfresh_of_conflict rfl rfl records (by decide) rootApart_recordedUnder_data⟩

/-- A store at the top whose record tells plain tables, and a link beside it to the directory of its
partition 0. -/
def linkedStore : FileTree :=
  ((recordedUnder ⟨"."⟩).place ["s"] "s_0" .dir).place [] "l" (.link ⟨"s/s_0"⟩)

/-- Where the root's path follows that link, the way to the root is lost with the folder. Opening the
store fails either way, but it is the folder's making in the one case and its making again in the
other that failed. -/
theorem not_opensAfresh_at_all_roots :
    Records ⟨⟨"l/../.."⟩, "s", by decide⟩ linkedStore .plain ∧
      ¬Engine.OpensAfresh ⟨⟨"l/../.."⟩, "s", by decide⟩ (settingsUnder ⟨"l/../.."⟩)
        (Host.ofTree linkedStore) := by
  refine ⟨records_iff.2 ⟨EngineRecord.ofFormat .plain, by decide +kernel, by decide +kernel⟩, ?_⟩
  rintro ⟨parent, hroot, hsame⟩
  have htop : linkedStore.resolveSteps .followed (Path.steps ⟨"l/../.."⟩) =
      .ok (.occupied [] .dir) := by decide +kernel
  cases hroot.symm.trans htop
  have key : Action.failsWith (Engine.open (settingsUnder ⟨"l/../.."⟩)) (Host.ofTree linkedStore)
      (fun e _ => decide (e = .initializationFailure (.remakeFolder ⟨"l/../../s"⟩)
        .alreadyExists)) = true := by decide +kernel
  have key' : Action.failsWith (Engine.open (settingsUnder ⟨"l/../.."⟩))
      (Host.ofTree (linkedStore.prune ["s"]))
      (fun e _ => decide (e = .initializationFailure (.makeFolder ⟨"l/../../s"⟩)
        .alreadyExists)) = true := by decide +kernel
  obtain ⟨e, host, hopen, key⟩ := Action.exists_of_failsWith key
  obtain ⟨e', host', hopen', key'⟩ := Action.exists_of_failsWith key'
  obtain rfl := of_decide_eq_true key
  obtain rfl := of_decide_eq_true key'
  cases hopen.symm.trans (hsame.trans hopen')

end PartitionStore
