import PartitionStore.Proofs.Engine.Ending
import PartitionStore.Proofs.Engine.FailedRequests
import PartitionStore.Proofs.StoreFolder.Neighbours

/-!
# `PartitionStore.Proofs.Engine.Removal`: what removing a store deletes

An engine that answers for its store removes the folder with all that is in it. One that does not
removes the directories of its registered partitions, and nothing else that may be in the folder:
not the partitions that it did not open, nor the record, nor what others put there.

Each directory is found by its path, and all the paths go by way of the root's. Nothing keeps
that way from leading through the directory of a partition, and then the directories that are
left are out of reach once that one is gone, and stay. So the root is asked to be reached
without the directories that are to go (`Reached`), if any of them is there. An engine that answers
for its store needs nothing of the kind: its folder is removed by its path, and the path leads
nowhere then.

* `Partition.outside_drop`, `Partition.eq_prune_of_drop`: what one partition takes with it.
* `without_of_drops`: what all of them take with them.
* `removes_exactly`: what is gone once the store was removed, and what is left.
-/

set_option autoImplicit false

namespace PartitionStore

open FileTree Naming StoreFolder

/-- Where the directory of a partition is in a tree without links. -/
def StoreFolder.partitionPlace (d : StoreFolder) (id : Int32) : Location :=
  dirName d.store id :: d.place

/-- If any of the partitions has its directory in the tree, the root is reached by its path, and
also without these directories. -/
def StoreFolder.Reached (d : StoreFolder) (ids : List Int32) (t : FileTree) : Prop :=
  (∃ id ∈ ids, t.node? (d.partitionPlace id) ≠ none) →
    ∃ loc, (t.without (ids.map d.partitionPlace)).resolveSteps .followed d.root.steps =
      .ok (.occupied loc .dir)

variable {k : BackendKind} {d : StoreFolder} {c : EngineSettings} {listener : Option Listener}
  {e : Engine} {host₀ host host' : Host} {r r' : Running} {registry : List (Int32 × Handle)}
  {id : Int32} {h : Handle} {part part' : Partition} {t u : FileTree} {loc l : Location}
  {node : Node}

/-! ### One directory -/

/-- What is found at the path of a partition's directory is in its place. -/
theorem StoreFolder.loc_eq_partitionPlace (free : t.LinkFree [])
    (hfind : t.find .itself (d.partitionPath id) = .ok (loc, node)) :
    loc = d.partitionPlace id :=
  (d.sited_place free).points.loc_eq_of_find (d.isPlainName_dir id) hfind

/-- The root's way to a partition's directory that is there. -/
theorem StoreFolder.namesEntry_partition (free : t.LinkFree [])
    (htext : checkText (d.partitionPath id) = .ok ())
    (hroot : t.resolveSteps .followed d.root.steps = .ok (.occupied loc .dir))
    (hplace : t.node? d.place = some .dir) (husable : isEntryName (dirName d.store id) = true) :
    t.NamesEntry (d.partitionPath id) d.place (dirName d.store id) := by
  refine ⟨htext, d.endsWithSlash_partitionPath id, husable, d.path.steps,
    Path.steps_join (d.isPlainName_dir id), ?_⟩
  have hloc : loc = Location.follow d.root.steps := loc_eq_follow free hroot
  have hstore : t.node? (d.store :: loc) = some .dir := hloc ▸ hplace
  rw [path_steps, resolveSteps_down .followed hroot (isEntryName_of_node? hstore)
    (by simp [hstore]), hstore, hloc]
  rfl

namespace Partition

/-- To drop a partition in memory leaves the tree alone. -/
theorem tree_drop_inMemory (home : BackendKind.inMemory.Home d id part) (t : FileTree) :
    Action.after (part.drop t) = t := by
  cases hstorage : part.storage with
  | memory =>
      rw [drop_of_memory hstorage, Action.after]
  | table dir dirty => cases (congrArg Storage.dir? hstorage).symm.trans home

/-- Whatever comes of dropping a partition, nothing changes outside its directory. -/
theorem outside_drop (home : k.Home d id part) (free : t.LinkFree [])
    (hl : ¬d.partitionPlace id <:+ l) : (Action.after (part.drop t)).node? l = t.node? l := by
  cases k with
  | inMemory => rw [tree_drop_inMemory home]
  | table =>
      obtain ⟨dirty, hstorage⟩ := Storage.eq_table_of_dir? home.1
      rw [drop_eq hstorage]
      split
      · rcases removeDirAll_cases (d.getLast?_partitionPath id) (d.endsWithSlash_partitionPath id) t
          with ⟨⟨cause, hremove⟩, -⟩ | ⟨loc, node, u, hfind, -, hremove, gone⟩
        · rw [hremove]
          rfl
        · rw [hremove]
          obtain rfl := loc_eq_partitionPlace free hfind
          exact gone.outside l hl
      · rfl

/-- A partition that is dropped takes its directory with it, and nothing else, if the directory is
in reach also when it is gone. -/
theorem eq_prune_of_drop (home : BackendKind.table.Home d id part) (free : t.LinkFree [])
    (hroot : t.node? (d.partitionPlace id) ≠ none → ∃ loc,
      (t.prune (d.partitionPlace id)).resolveSteps .followed d.root.steps =
        .ok (.occupied loc .dir))
    (hdrop : part.drop t = .ok part' u) : u = t.prune (d.partitionPlace id) := by
  obtain ⟨hdir, htext⟩ := home
  obtain ⟨dirty, hstorage⟩ := Storage.eq_table_of_dir? hdir
  rw [drop_eq hstorage] at hdrop
  have hslash := d.endsWithSlash_partitionPath id
  cases hnode : t.node? (d.partitionPlace id) with
  | none =>
      -- There is nothing to be removed, and nothing is.
      have hsame : t.prune (d.partitionPlace id) = t := by
        refine ext_node? fun l => ?_
        rw [partitionPlace, node?_prune_cons]
        split
        · rename_i hin
          obtain ⟨inner, rfl⟩ := hin
          cases inner with
          | nil => exact hnode.symm
          | cons name inner =>
              have hdir : t.node? (dirName d.store id :: d.place) ≠ some .dir := by
                rw [show t.node? (dirName d.store id :: d.place) = none from hnode]
                simp
              exact (node?_below hdir (List.cons_ne_nil name inner)).symm
        · rfl
      rw [hsame]
      split at hdrop
      · rename_i hthere
        obtain ⟨loc, node, hentry⟩ :=
          exists_entry_of_exists (d.getLast?_partitionPath id) hslash hthere
        obtain rfl := loc_eq_partitionPlace free ((find_itself_eq_ok_iff hslash).2 hentry)
        have hsome := resolveSteps_isIn (resolveSteps_of_resolveEntry hentry).2
        cases hnode.symm.trans hsome
      · cases hdrop
        rfl
  | some node =>
      obtain ⟨loc, hroot⟩ := hroot (by simp [hnode])
      have hplace : t.node? d.place = some .dir := node?_parent_of_node? hnode
      have less := Less.prune t (d.partitionPlace id)
      have hleft : (t.prune (d.partitionPlace id)).node? d.place = some .dir := by
        rw [partitionPlace, node?_prune_cons, if_neg (not_cons_suffix _ _), hplace]
      have named := namesEntry_partition (less.linkFree free) htext hroot hleft
        (isEntryName_of_node? hnode)
      have hlink (target : Path) : node ≠ .link target := fun e =>
        free _ target List.nil_suffix (hnode.trans (congrArg some e))
      have hthere := (less.namesEntry named).exists_of_some hnode hlink
      rw [if_pos hthere] at hdrop
      cases node with
      | link target => exact absurd rfl (hlink target)
      | dir =>
          rw [named.removeDirAll (.inl hnode)] at hdrop
          cases hdrop
          rfl
      | file data =>
          rw [Files.removeDirAll, (less.namesEntry named).find .itself hnode
            fun hne => absurd rfl hne] at hdrop
          cases hdrop

end Partition

/-! ### One partition after another -/

/-- The top is no partition's place. -/
theorem nil_not_mem_places (d : StoreFolder) (ids : List Int32) :
    [] ∉ ids.map d.partitionPlace := by
  simp [partitionPlace]

/-- The directories that are left are in reach while others are removed. -/
theorem StoreFolder.Reached.prune {ids done rest : List Int32} (reached : d.Reached ids t)
    (hids : ids = done ++ id :: rest)
    (hthere : (t.without (done.map d.partitionPlace)).node? (d.partitionPlace id) ≠ none) :
    ∃ loc, ((t.without (done.map d.partitionPlace)).prune (d.partitionPlace id)).resolveSteps
      .followed d.root.steps = .ok (.occupied loc .dir) := by
  have hmem : id ∈ ids := by
    rw [hids]
    simp
  have hbefore : t.node? (d.partitionPlace id) ≠ none := by
    rcases Less.without t (done.map d.partitionPlace) (d.partitionPlace id) with e | hnone
    · rwa [← e]
    · exact absurd hnone hthere
  obtain ⟨loc, hroot⟩ := reached ⟨id, hmem, hbefore⟩
  refine ⟨loc, Less.resolveSteps ?_ hroot⟩
  have hsplit : ids.map d.partitionPlace =
      done.map d.partitionPlace ++ [d.partitionPlace id] ++ rest.map d.partitionPlace := by
    simp [hids]
  rw [← without_concat, hsplit]
  exact Less.without_append t _ _

/-- Of the partitions those of `rest` are still to be dropped. The directories of the others are
gone from the tree that there was at first. -/
structure Dropping (d : StoreFolder) (start : FileTree) (registry rest : List (Int32 × Handle))
    (host : Host) : Prop where
  placed : Placed (BackendKind.table.Home d) host registry
  gone : ∃ done, registry = done ++ rest ∧
    host.tree = start.without ((done.map Prod.fst).map d.partitionPlace)

/-- One more partition is dropped, and its directory is gone. -/
theorem Dropping.drop {start : FileTree} {rest : List (Int32 × Handle)}
    (free : start.LinkFree []) (reached : d.Reached (registry.map Prod.fst) start)
    (dropping : Dropping d start registry ((id, h) :: rest) host)
    (hdrop : HostAction.drop h host = .ok () host') : Dropping d start registry rest host' := by
  obtain ⟨placed, done, hregistry, htree⟩ := dropping
  have houses : (Backend.ofKind .table).Houses d (BackendKind.table.Home d) :=
    BackendKind.houses_home .table d
  have confined := HostAction.confines_drop h host
  rw [hdrop] at confined
  refine ⟨placed.persists houses confined.persists, done ++ [(id, h)], by simp [hregistry], ?_⟩
  obtain ⟨-, home⟩ := placed (id, h) (by rw [hregistry]; simp)
  cases hrun : (host.partition h).drop host.tree with
  | error cause u => cases (HostAction.drop_of_error hrun).symm.trans hdrop
  | ok part u =>
      cases (HostAction.drop_of_ok hrun).symm.trans hdrop
      have hprune : u = host.tree.prune (d.partitionPlace id) := by
        refine Partition.eq_prune_of_drop home (htree ▸ (Less.without _ _).linkFree free) ?_ hrun
        rw [htree]
        exact reached.prune (by rw [hregistry, List.map_append]; rfl)
      show u = _
      rw [hprune, htree, List.map_append, List.map_append]
      exact (without_concat ..).symm

/-- Partitions that are dropped one after another take their directories with them, and nothing
else. -/
theorem without_of_drops {r₁ : Running}
    (placed : Placed (BackendKind.table.Home d) host registry) (free : host.tree.LinkFree [])
    (reached : d.Reached (registry.map Prod.fst) host.tree)
    (heach : EngineAction.forEachAttempt
      (fun (entry : Int32 × Handle) => EngineAction.onHost (HostAction.drop entry.2)) registry
      ⟨e, host⟩ = .ok none r₁) :
    r₁.host.tree = host.tree.without ((registry.map Prod.fst).map d.partitionPlace) := by
  have step : ∀ (entry : Int32 × Handle) (rest : List (Int32 × Handle)) (current current' : Host),
      Dropping d host.tree registry (entry :: rest) current →
        HostAction.drop entry.2 current = .ok () current' →
          Dropping d host.tree registry rest current' :=
    fun _ _ _ _ dropping hdrop => dropping.drop free reached hdrop
  obtain ⟨-, done, hregistry, htree⟩ := @EngineAction.inv_of_forEachAttempt _ ⟨e, host⟩ r₁
    (fun (entry : Int32 × Handle) => HostAction.drop entry.2) _ registry step
    ⟨placed, [], rfl, rfl⟩ heach
  rw [htree, hregistry, List.append_nil]

/-! ### The store -/

/-- While partitions are dropped, and also when the folder is removed, nothing changes outside the
folder. -/
structure Inside (k : BackendKind) (d : StoreFolder) (start : FileTree)
    (registry : List (Int32 × Handle)) (host : Host) : Prop where
  placed : Placed (k.Home d) host registry
  less : Less start host.tree
  outside : ∀ l, ¬d.place <:+ l → host.tree.node? l = start.node? l

/-- A drop of a registered partition takes away what is inside the store, if anything. -/
theorem Inside.drop {start : FileTree} (inside : Inside k d start registry host)
    (free : start.LinkFree []) (hmem : (id, h) ∈ registry) :
    Inside k d start registry (Action.after (HostAction.drop h host)) := by
  obtain ⟨-, home⟩ := inside.placed _ hmem
  refine ⟨inside.placed.persists (k.houses_home d) (HostAction.confines_drop h host).persists,
    inside.less.trans ?_, fun l hl => ?_⟩
  · rw [HostAction.tree_after_drop]
    exact less_drop _ _
  · rw [HostAction.tree_after_drop,
      Partition.outside_drop home (inside.less.linkFree free)
        fun hin => hl ((List.suffix_cons ..).trans hin)]
    exact inside.outside l hl

/-- Whatever comes of removing the folder, nothing changes outside it. -/
theorem StoreFolder.outside_remove (free : t.LinkFree []) (hl : ¬d.place <:+ l) :
    (Action.after (d.remove t)).node? l = t.node? l := by
  rcases (d.sited_place free).remove_cases with hnone | ⟨e, hfails⟩ | ⟨u, hremoved, gone⟩
  · rw [hnone]
    rfl
  · rw [hfails]
    rfl
  · rw [hremoved]
    exact gone.outside l hl

/-- So does the removal of the folder. -/
theorem Inside.remove {start : FileTree} (inside : Inside k d start registry host)
    (free : start.LinkFree []) :
    Inside k d start registry (Action.after (HostAction.onTree d.remove host)) := by
  rw [HostAction.after_onTree]
  refine ⟨inside.placed.persists (k.houses_home d) (Confines.setTree 0 host _).persists,
    inside.less.trans (d.less_remove host.tree), fun l hl => ?_⟩
  rw [outside_remove (inside.less.linkFree free) hl]
  exact inside.outside l hl

/-- Where the store was removed all partitions were dropped, and then the folder was removed. -/
theorem exists_swept (hphase : r.engine.phase = .opened)
    (hremove : EngineAction.removeStore r = .ok () r') : ∃ swept,
      EngineAction.forEachAttempt
        (fun (entry : Int32 × Handle) => EngineAction.onHost (r.engine.backend.drop entry.2))
        r.engine.registry ⟨{ r.engine with registry := [] }, r.host⟩ =
          .ok none ⟨{ r.engine with registry := [] }, swept⟩ ∧
      r.engine.lastRemoval swept = .ok () r'.host := by
  obtain ⟨r₁, r₂, heach, hfolder, rfl⟩ := (EngineAction.removeStore_eq_ok_iff hphase).1 hremove
  obtain ⟨log, swept, -, -, hsweep⟩ := forEachAttempt_eq r.engine.backend.drop r.engine.registry
    ⟨{ r.engine with registry := [] }, r.host⟩
  have hend := heach.symm.trans hsweep
  simp only [EStateM.Result.ok.injEq] at hend
  obtain ⟨-, rfl⟩ := hend
  rw [EngineAction.removeFolder_eq] at hfolder
  obtain ⟨host', hlast, rfl⟩ := EngineAction.onHost_eq_ok_iff.1 hfolder
  exact ⟨swept, heach, hlast⟩

/-- Partitions in memory leave the tree alone. -/
theorem tree_of_drops_inMemory {r₁ : Running}
    (placed : Placed (BackendKind.inMemory.Home d) host registry)
    (heach : EngineAction.forEachAttempt
      (fun (entry : Int32 × Handle) => EngineAction.onHost (HostAction.drop entry.2)) registry
      ⟨e, host⟩ = .ok none r₁) : r₁.host.tree = host.tree := by
  have step : ∀ entry ∈ registry, ∀ current : Host,
      Placed (BackendKind.inMemory.Home d) current registry ∧ current.tree = host.tree →
        Placed (BackendKind.inMemory.Home d) (Action.after (HostAction.drop entry.2 current))
          registry ∧ (Action.after (HostAction.drop entry.2 current)).tree = host.tree := by
    rintro entry hentry current ⟨placed, htree⟩
    refine ⟨placed.persists (BackendKind.houses_home .inMemory d)
      (HostAction.confines_drop entry.2 current).persists, ?_⟩
    rw [HostAction.tree_after_drop,
      Partition.tree_drop_inMemory (placed entry hentry).2, htree]
  obtain ⟨failure?, last, hrun, -, htree⟩ :=
    @EngineAction.after_forEachAttempt_onHost _ ⟨e, host⟩ _ registry _ step ⟨placed, rfl⟩
  cases heach.symm.trans hrun
  exact htree

/-- What is gone once a store was removed. If the engine answers for the store that is the folder, and
nothing outside it. If it does not, it is the directories of the registered partitions and
nothing else, with partitions in memory nothing at all. -/
theorem removes_exactly
    (hopen : Engine.openWith c (Backend.ofKind k) listener host₀ = .ok e host)
    (used : Used ⟨e, host⟩ r) (free : r.host.tree.LinkFree [])
    (hphase : r.engine.phase = .opened) (hremove : EngineAction.removeStore r = .ok () r') :
    (r.engine.ownsFolder = true →
        r.engine.folder.isThere r'.host.tree = false ∧
        r.engine.folder.size r'.host.tree = 0 ∧
        ∀ l, ¬r.engine.folder.place <:+ l → r'.host.tree.node? l = r.host.tree.node? l) ∧
      (r.engine.ownsFolder = false → k = .inMemory → r'.host.tree = r.host.tree) ∧
      (r.engine.ownsFolder = false → k = .table →
        r.engine.folder.Reached (r.engine.registry.map Prod.fst) r.host.tree →
          ∀ l, r'.host.tree.node? l =
            if ∃ id ∈ r.engine.registry.map Prod.fst, r.engine.folder.partitionPlace id <:+ l then
              none
            else r.host.tree.node? l) := by
  obtain ⟨hbackend, hplaced⟩ := placed_of_open hopen (k.houses_home _)
  obtain ⟨hbackend', hfolder, placed⟩ := used.placed (k.houses_home _) hbackend hplaced
  rw [← hfolder] at placed
  refine ⟨fun howns => ?_, fun hnot hkind => ?_, fun hnot hkind reached => ?_⟩
  · -- The folder goes with all that is in it, and the drops before have not left it.
    obtain ⟨swept, -, hlast⟩ := exists_swept hphase hremove
    have hgone := Engine.isThere_of_lastRemoval howns hlast
    obtain ⟨host', hafter, inside⟩ := EngineAction.after_removeStore hphase
      (fun entry hentry current inside => by
        rw [hbackend', Backend.drop_ofKind]
        exact Inside.drop inside free hentry)
      (fun current inside => Inside.remove inside free)
      (⟨placed, .refl _, fun _ _ => rfl⟩ :
        Inside k r.engine.folder r.host.tree r.engine.registry r.host)
    rw [hremove] at hafter
    obtain rfl : r' = _ := hafter
    exact ⟨hgone, size_eq_zero (inside.less.linkFree free) hgone, inside.outside⟩
  · -- What is in memory has nothing on disk to drop.
    subst hkind
    obtain ⟨swept, heach, hlast⟩ := exists_swept hphase hremove
    rw [Engine.lastRemoval, hnot] at hlast
    cases hlast
    rw [hbackend', Backend.drop_ofKind] at heach
    have htree := tree_of_drops_inMemory placed heach
    exact htree
  · -- Each drop prunes the directory of its partition, and does nothing else.
    subst hkind
    obtain ⟨swept, heach, hlast⟩ := exists_swept hphase hremove
    rw [Engine.lastRemoval, hnot] at hlast
    cases hlast
    rw [hbackend', Backend.drop_ofKind] at heach
    have htree := without_of_drops placed free reached heach
    intro l
    rw [show r'.host.tree = _ from htree, node?_without (nil_not_mem_places _ _)]
    simp only [List.mem_map, exists_exists_and_eq_and]

/-- A tree with the directories of two partitions of a store at its top. -/
def twoPartitions : FileTree :=
  ((FileTree.empty.place [] "s" .dir).place ["s"] "s_0" .dir).place ["s"] "s_1" .dir

/-- Settings for the data partitions of a store under the root, and no others. -/
def dataUnder (root : Path) : EngineSettings :=
  { settingsUnder root with withMetadata := false, withData := true }

set_option maxRecDepth 10000 in
/-- Partitions 0 and 1 are opened and removed, and partition 2, which comes after that, is left
alone. -/
theorem removes_two_partitions : ∃ e host r',
    Engine.openWith (dataUnder ⟨"."⟩) (Backend.ofKind .table) none (Host.ofTree twoPartitions) =
        .ok e host ∧
      e.registry.map Prod.fst = [0, 1] ∧
      EngineAction.removeStore ⟨e, { host with tree := host.tree.place ["s"] "s_2" .dir }⟩ =
        .ok () r' ∧
      r'.host.tree.node? ["s_0", "s"] = none ∧ r'.host.tree.node? ["data.tbl", "s_1", "s"] = none ∧
      r'.host.tree.node? ["s_2", "s"] = some .dir := by
  have key : Action.succeedsWith
      (Engine.openWith (dataUnder ⟨"."⟩) (Backend.ofKind .table) none) (Host.ofTree twoPartitions)
      (fun e host =>
        let tree := host.tree.place ["s"] "s_2" .dir
        tree.listsNoLink && decide (e.registry.map Prod.fst = [0, 1]) &&
          decide (e.phase = .opened) && !e.ownsFolder && decide (e.folder.root = ⟨"."⟩) &&
          decide (e.folder.partitionPlace 0 = ["s_0", "s"]) &&
          decide (e.folder.partitionPlace 1 = ["s_1", "s"]) &&
          decide (tree.node? ["s_2", "s"] = some .dir) &&
          Action.succeedsWith EngineAction.removeStore ⟨e, { host with tree }⟩
            fun _ _ => true) = true := by decide +kernel
  obtain ⟨e, host, hopen, key⟩ := Action.exists_of_succeedsWith key
  simp only [Bool.and_eq_true, decide_eq_true_eq, Bool.not_eq_true'] at key
  obtain ⟨⟨⟨⟨⟨⟨⟨⟨hlinks, hids⟩, hphase⟩, hnot⟩, hroot⟩, hfirst⟩, hsecond⟩, hother⟩, hremove⟩ := key
  obtain ⟨⟨⟩, r', hremove, -⟩ := Action.exists_of_succeedsWith hremove
  have used : Used ⟨e, host⟩ ⟨e, { host with tree := host.tree.place ["s"] "s_2" .dir }⟩ :=
    @Used.meanwhile ⟨e, host⟩ _ e.registry { host with tree := host.tree.place ["s"] "s_2" .dir }
      (List.Perm.refl _) (Confines.setTree 0 host _).persists (.done _)
  have reached : e.folder.Reached (e.registry.map Prod.fst)
      (host.tree.place ["s"] "s_2" .dir) := fun _ => ⟨[], by rw [hroot]; rfl⟩
  obtain ⟨-, -, hexact⟩ :=
    removes_exactly hopen used (linkFree_of_listsNoLink hlinks []) hphase hremove
  replace hexact := hexact hnot rfl reached
  simp only [hids, List.mem_cons, List.not_mem_nil, or_false, exists_eq_or_imp, exists_eq_left,
    hfirst, hsecond] at hexact
  refine ⟨e, host, r', hopen, hids, hremove, ?_, ?_, ?_⟩
  · rw [hexact, if_pos (by decide)]
  · rw [hexact, if_pos (by decide)]
  · rw [hexact, if_neg (by decide)]
    exact hother

set_option maxRecDepth 10000 in
/-- Where the way to the root leads through the directories of both partitions, whichever of them is
removed first takes the other one out of reach. -/
theorem not_removes_exactly_at_all_roots : ¬∀ (c : EngineSettings) (host₀ host : Host) (e : Engine)
    (r' : Running), Engine.open c host₀ = .ok e host → c.backend = .table →
      host.tree.LinkFree [] → e.ownsFolder = false →
      EngineAction.removeStore ⟨e, host⟩ = .ok () r' →
      ∀ id ∈ e.registry.map Prod.fst, r'.host.tree.node? (e.folder.partitionPlace id) = none := by
  intro hall
  have key : Action.succeedsWith (Engine.open (dataUnder ⟨"s/s_0/../s_1/../.."⟩))
      (Host.ofTree twoPartitions) (fun e host =>
        host.tree.listsNoLink && !e.ownsFolder && decide (1 ∈ e.registry.map Prod.fst) &&
          decide (e.folder.partitionPlace 1 = ["s_1", "s"]) &&
          Action.succeedsWith EngineAction.removeStore ⟨e, host⟩ fun _ r' =>
            decide (r'.host.tree.node? ["s_1", "s"] = some .dir)) = true := by decide +kernel
  obtain ⟨e, host, hopen, key⟩ := Action.exists_of_succeedsWith key
  simp only [Bool.and_eq_true, decide_eq_true_eq, Bool.not_eq_true'] at key
  obtain ⟨⟨⟨⟨hlinks, hnot⟩, hmem⟩, hplace⟩, hremove⟩ := key
  obtain ⟨⟨⟩, r', hremove, hleft⟩ := Action.exists_of_succeedsWith hremove
  have hgone := hall _ _ _ _ _ hopen rfl (linkFree_of_listsNoLink hlinks []) hnot hremove 1 hmem
  rw [hplace, of_decide_eq_true hleft] at hgone
  cases hgone

end PartitionStore
