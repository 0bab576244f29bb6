import PartitionStore.Inspector.Run
import PartitionStore.Proofs.Engine.Listing

/-!
# `PartitionStore.Proofs.Inspector.Agreement`: the inspector agrees with itself

The summary of a store tells the partitions of an engine that has just opened it, and the size of
the folder before the engine is closed. The listing and the size are looked up in the folder
without an engine. After a summary they tell the same.

Where the folder is made ready anew its path may come to lead to another directory than before. So
what is asked for is that there are no symbolic links in the one or in the other
(`StoreFolder.ClearOfLinks`).

* `eq_of_question`: a listing or a size changes nothing.
* `agrees_with_summary`: what the summary tells is told again.
* `not_agrees_at_all_roots`: without links in the folder alone it is not.
-/

set_option autoImplicit false

namespace PartitionStore.Inspector

open FileTree Naming

/-- What is printed of a store that was opened. -/
def summaryText (root store : String) (ids : List Int32) (bytes : Nat) : String :=
  "store:      " ++ store ++ "\n" ++
  "directory:  " ++ (storePath ⟨root⟩ store).text ++ "\n" ++
  "partitions: " ++ idSet ids ++ "\n" ++
  "size:       " ++ number bytes ++ " bytes\n"

/-- What is printed of ids: one on each line. -/
def listingText (ids : List Int32) : String :=
  String.join (ids.map fun id => StoreError.idText id ++ "\n")

variable {workingDir : Path} {a : Arguments} {args : List String} {t u : FileTree}
  {host host' : Host} {text output : String}

/-! ### Questions -/

/-- To list a store's partitions or to measure it changes nothing. -/
theorem eq_of_question (hread : Invocation.read args = .run a) (h : a.command ≠ .summary)
    (workingDir : Path) (t : FileTree) : (run workingDir args t).2 = t := by
  have hids (d : StoreFolder) := (d.idsOnDisk_nodup t).1
  simp only [run, hread, Arguments.run]
  cases StoreFolder.named (workingDir.join a.root) a.store with
  | error e => rfl
  | ok d =>
      cases hcommand : a.command with
      | summary => exact absurd hcommand h
      | size => rfl
      | ids =>
          have hsame := hids d
          cases hrun : d.idsOnDisk t with
          | error e t' =>
              rw [hrun] at hsame
              simp only [hrun]
              exact hsame
          | ok ids t' =>
              rw [hrun] at hsame
              simp only [hrun]
              exact hsame

/-! ### The summary -/

/-- A summary is that of an engine that came up and was closed. -/
theorem exists_of_summarize (h : summarize a workingDir host = .ok text host') :
    ∃ e host₁ closed, Engine.open (a.settings workingDir) host = .ok e host₁ ∧
      EngineAction.close ⟨e, host₁⟩ = .ok () closed ∧ host' = closed.host ∧
      text = summaryText a.root a.store e.openIds (e.folder.size host₁.tree) := by
  obtain ⟨e, host₁, hopen, h⟩ := Action.bind_eq_ok_iff.1 h
  obtain ⟨_, _, hget, h⟩ := Action.bind_eq_ok_iff.1 h
  cases hget
  have hstore : e.settings.store = a.store := by
    obtain ⟨_, _, _, _, _, _, _, _, _, _, rfl⟩ := exists_of_open hopen
    rfl
  cases hclose : EngineAction.close ⟨e, host₁⟩ with
  | error fault closed =>
      simp only [hclose] at h
      cases h
  | ok _ closed =>
      simp only [hclose] at h
      cases h
      refine ⟨e, host₁, closed, hopen, hclose, rfl, ?_⟩
      rw [hstore]
      rfl

/-! ### After a summary -/

variable {root store : String} {plainTable : Bool} {idsArgs sizeArgs : List String}

/-- What a summary tells of a store, and that it is still so afterwards. -/
theorem exists_of_summary (hread : Invocation.read args = .run ⟨root, store, plainTable, .summary⟩)
    (clear : ∀ d, StoreFolder.named (workingDir.join root) store = .ok d → d.ClearOfLinks t)
    (h : run workingDir args t = (⟨0, output⟩, u)) :
    ∃ d ids, StoreFolder.named (workingDir.join root) store = .ok d ∧
      output = summaryText root store ids (d.size u) ∧
      ids.Pairwise (compare · · = .lt) ∧ d.idsOnDisk u = .ok ids u := by
  simp only [run, hread, Arguments.run] at h
  cases hnamed : StoreFolder.named (workingDir.join root) store with
  | error e =>
      simp only [hnamed] at h
      cases h
  | ok d =>
      simp only [hnamed] at h
      cases hsummary : summarize ⟨root, store, plainTable, .summary⟩ workingDir (Host.ofTree t) with
      | error e host =>
          simp only [hsummary] at h
          cases h
      | ok text host =>
          simp only [hsummary] at h
          cases h
          obtain ⟨e, host₁, closed, hopen, hclose, rfl, rfl⟩ := exists_of_summarize hsummary
          -- The size was taken before the engine was closed, and that changed nothing.
          obtain ⟨hids, closed', hclose', htree⟩ := idsOnDisk_of_open rfl rfl rfl clear hopen
          cases hclose.symm.trans hclose'
          obtain ⟨d', _, _, _, _, hnamed', _, _, _, _, rfl⟩ := exists_of_open hopen
          cases hnamed.symm.trans hnamed'
          rw [htree]
          exact ⟨d, _, rfl, rfl, SortedMap.keys_ascending _, hids⟩

/-- What a summary tells of a store is told again: a listing afterwards prints the same partitions,
one on each line and in ascending order, and a measuring prints the same number of bytes. -/
def Agrees (workingDir : Path) (root store : String) (t : FileTree) : Prop :=
  ∀ plainTable idsPlain sizePlain args idsArgs sizeArgs output u,
    Invocation.read args = .run ⟨root, store, plainTable, .summary⟩ →
    Invocation.read idsArgs = .run ⟨root, store, idsPlain, .ids⟩ →
    Invocation.read sizeArgs = .run ⟨root, store, sizePlain, .size⟩ →
    run workingDir args t = (⟨0, output⟩, u) →
    ∃ ids bytes, output = summaryText root store ids bytes ∧
      ids.Pairwise (compare · · = .lt) ∧
      run workingDir idsArgs u = (⟨0, listingText ids⟩, u) ∧
      run workingDir sizeArgs u = (⟨0, number bytes ++ "\n"⟩, u)

/-- A listing or a measuring changes nothing, of any store. Where a store has no links in its
folder, they agree with a summary that was made before. -/
theorem agrees_with_summary :
    (∀ workingDir args a t, Invocation.read args = .run a → a.command ≠ .summary →
        (run workingDir args t).2 = t) ∧
      ∀ workingDir root store t,
        (∀ d, StoreFolder.named (workingDir.join root) store = .ok d → d.ClearOfLinks t) →
        Agrees workingDir root store t := by
  refine ⟨fun workingDir args a t hread h => eq_of_question hread h workingDir t, ?_⟩
  intro workingDir root store t clear plainTable idsPlain sizePlain args idsArgs sizeArgs output u
    hread hids hsize h
  obtain ⟨d, ids, hnamed, houtput, hascending, hondisk⟩ := exists_of_summary hread clear h
  refine ⟨ids, d.size u, houtput, hascending, ?_, ?_⟩
  · simp only [run, hids, Arguments.run, hnamed, hondisk]
    rfl
  · simp only [run, hsize, Arguments.run, hnamed]

/-- A run is its outcome and the tree that it leaves. -/
theorem run_eq {outcome : Outcome} (h : (run workingDir args t).1 = outcome) :
    run workingDir args t = (outcome, (run workingDir args t).2) := Prod.ext h rfl

/-- A store with a record of another format is emptied for a summary, and a new metadata partition
is all that it tells of. -/
theorem agrees_after_emptying :
    (recordedUnder ⟨"data"⟩).LinkFree [] ∧
      ∃ u, run ⟨""⟩ ["--root=data", "--store", "s", "open"] (recordedUnder ⟨"data"⟩) =
          (⟨0, summaryText "data" "s" [-1] 64⟩, u) ∧
        ∃ ids bytes, summaryText "data" "s" [-1] 64 = summaryText "data" "s" ids bytes ∧
          run ⟨""⟩ ["-r", "data", "-ss", "ids"] u = (⟨0, listingText ids⟩, u) ∧
          run ⟨""⟩ ["-rdata", "-s=s", "size"] u = (⟨0, number bytes ++ "\n"⟩, u) := by
  have free := linkFree_recordedUnder ⟨"data"⟩
  have houtcome : (run ⟨""⟩ ["--root=data", "--store", "s", "open"] (recordedUnder ⟨"data"⟩)).1 =
      ⟨0, summaryText "data" "s" [-1] 64⟩ := by decide +kernel
  have hrun := run_eq houtcome
  generalize (run ⟨""⟩ ["--root=data", "--store", "s", "open"] (recordedUnder ⟨"data"⟩)).2 = u
    at hrun
  obtain ⟨ids, bytes, htext, -, hids, hsize⟩ := agrees_with_summary.2 ⟨""⟩ "data" "s"
    (recordedUnder ⟨"data"⟩) (fun d _ => .of_linkFree free) false false false _
    ["-r", "data", "-ss", "ids"] ["-rdata", "-s=s", "size"] _ u (by decide +kernel)
    (by decide +kernel) (by decide +kernel) hrun
  exact ⟨free, u, hrun, ids, bytes, htext, hids, hsize⟩

/-- A store whose path ends in a link and has led through it once before, and up again. Behind the
link is a directory with a record of plain tables, and without links. Once the link is taken out the
path leads to another directory, and in that there is a link by the name of the metadata
partition. -/
def relinkedStore : FileTree :=
  ((((((((FileTree.empty.place [] "a" .dir).place ["a"] "s_-1" .dir).place ["s_-1", "a"]
    StoreFolder.recordFileName (.file (EngineRecord.ofFormat .plain).bytes)).place [] "m"
    .dir).place [] "x" .dir).place ["x"] "x" .dir).place ["x", "x"] "s" .dir).place
    ["s", "x", "x"] "s_-1" (.link ⟨"../../../m"⟩)).place ["x"] "s" (.link ⟨"../a"⟩)

/-- Behind the link there are no links. -/
theorem linkFreeInside_relinkedStore : relinkedStore.LinkFreeInside ["a"] := by
  have hlisted : relinkedStore.toList.filter (fun entry => ["a"].isSuffixOf entry.1) =
      [(["a"], .dir), (["s_-1", "a"], .dir), ([StoreFolder.recordFileName, "s_-1", "a"],
        .file (EngineRecord.ofFormat .plain).bytes)] := by decide +kernel
  intro l target hl hnode
  obtain ⟨⟨node, es⟩, hat, hlink⟩ := Option.map_eq_some_iff.1 hnode
  obtain rfl : node = .link target := hlink
  have hne : l ≠ [] := fun e => by simpa [e] using hl.1
  have hin : (l, Node.link target) ∈
      relinkedStore.toList.filter fun entry => ["a"].isSuffixOf entry.1 :=
    List.mem_filter.2 ⟨(mem_toList_of_at? hat).1 hne, List.isSuffixOf_iff_suffix.2 hl.1⟩
  rw [hlisted] at hin
  simp at hin

/-- Where nothing is listed there was nothing to list. -/
theorem eq_nil_of_listingText {ids : List Int32} (h : listingText ids = "") : ids = [] := by
  cases ids with
  | nil => rfl
  | cons id rest => simp [listingText, String.join_cons] at h

/-- One summary tells of a partition and the other of none: they differ behind the brace. -/
theorem summaryText_ne_of_nil (root store : String) (bytes bytes' : Nat) :
    summaryText root store [-1] bytes ≠ summaryText root store [] bytes' := by
  have hsplit (front text a b c d : String) : (front ++ text ++ a ++ b ++ c ++ d).toList =
      front.toList ++ (text.toList ++ (a ++ b ++ c ++ d).toList) := by
    simp only [String.toList_append, List.append_assoc]
  have hone : (idSet [-1]).toList = ['\x7b', '-', '1', '\x7d'] := by decide +kernel
  have hnone : (idSet []).toList = ['\x7b', '\x7d'] := by decide +kernel
  intro h
  replace h := congrArg String.toList h
  unfold summaryText at h
  rw [hsplit _ (idSet [-1]), hsplit _ (idSet [])] at h
  have hids := List.append_cancel_left h
  rw [hone, hnone] at hids
  have hsecond : '-' = '\x7d' := (List.cons.inj (List.cons.inj hids).2).1
  exact absurd hsecond (by decide)

/-- That there is no link in the folder that the path leads to is not enough. -/
theorem not_agrees_at_all_roots :
    ∃ d loc, StoreFolder.named (Path.join ⟨""⟩ "x/s/../x") "s" = .ok d ∧
      relinkedStore.find .followed d.path = .ok (loc, .dir) ∧ relinkedStore.LinkFreeInside loc ∧
      ¬Agrees ⟨""⟩ "x/s/../x" "s" relinkedStore := by
  refine ⟨⟨⟨"x/s/../x"⟩, "s", by decide⟩, ["a"], rfl, by decide +kernel,
    linkFreeInside_relinkedStore, fun agrees => ?_⟩
  have houtcome : (run ⟨""⟩ ["--root=x/s/../x", "--store", "s", "open"] relinkedStore).1 =
      ⟨0, summaryText "x/s/../x" "s" [-1] 0⟩ := by decide +kernel
  have hlisting : (run ⟨""⟩ ["--root=x/s/../x", "--store", "s", "ids"]
      (run ⟨""⟩ ["--root=x/s/../x", "--store", "s", "open"] relinkedStore).2).1 = ⟨0, ""⟩ := by
    decide +kernel
  have hrun := run_eq houtcome
  generalize (run ⟨""⟩ ["--root=x/s/../x", "--store", "s", "open"] relinkedStore).2 = u
    at hlisting hrun
  obtain ⟨ids, bytes, htext, -, hids, -⟩ := agrees false false false _
    ["--root=x/s/../x", "--store", "s", "ids"] ["--root=x/s/../x", "--store", "s", "size"] _ u
    (by decide +kernel) (by decide +kernel) (by decide +kernel) hrun
  rw [hids] at hlisting
  obtain rfl := eq_nil_of_listingText (congrArg Outcome.output hlisting)
  exact summaryText_ne_of_nil _ _ _ _ htext

end PartitionStore.Inspector
