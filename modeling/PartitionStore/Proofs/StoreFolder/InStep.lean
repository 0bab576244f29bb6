import PartitionStore.Proofs.StoreFolder.Neighbours

/-!
# `PartitionStore.Proofs.StoreFolder.InStep`: the folder of a store in step

Two runs of a store are in step as long as their trees are alike to it. Every operation of its
folder keeps them so, and answers the same in both. This is proved from the bottom up: looking,
making, removing, writing and renaming, on paths of the store, and from these the operations of the
folder.

Of the ways to the root that there can be, only one takes more than a look. Where the root is there
the two trees are changed in the same place, which is in the folder (`Rooted`). Where it is blocked
nothing happens. Where it is missing nothing is found, and what is left is making the folder, by way
of a root that is made in both trees (`respects_createDirAll_path`).

* `respects_createDirAll_path`, `respects_createDirAll_partitionPath`: making directories.
* `respects_removeDirAll`, `respects_replace`: removing them, and writing files.
* `respects_ensure`, `respects_guard`, `respects_recordOnce`, `respects_remove`,
  `respects_idsOnDisk`: the operations of a folder.
-/

set_option autoImplicit false

namespace PartitionStore

open FileTree Naming PartitionStore.Action

namespace FileTree

variable {t u : FileTree} {steps : List Step} {e : IoError}

/-- A path that cannot be one is refused or ignored. Else the directory is made, with all above
it. -/
theorem createDirAll_cases (p : Path) : Files.createDirAll p = pure () ∨
    (∃ e, Files.createDirAll p = throw e) ∨ Files.createDirAll p =
      Files.ensureDir p.steps (Files.ensureDirs p.properSteps.reverse.tail) := by
  by_cases htext : p.text = ""
  · exact .inl (if_pos htext)
  · rw [Files.createDirAll, if_neg htext]
    cases hcheck : checkText p with
    | error e => exact .inr (.inl ⟨e, rfl⟩)
    | ok _ => exact .inr (.inr rfl)

/-- Once the directories above are there, it is as if none had to be made. -/
theorem ensureDir_of_made {parents : Files Unit} (hmake : t.makeDir steps = .error .notFound)
    (hparents : parents t = .ok () u) :
    Files.ensureDir steps parents t = Files.ensureDir steps (pure ()) u := by
  rw [Files.ensureDir, Files.ensureDir]
  cases hagain : u.makeDir steps with
  | ok v => simp only [hmake, hparents, hagain]
  | error e => cases e <;> simp only [hmake, hparents, hagain, pure_apply]

/-- Where the steps are refused, and not for something missing, no directory is made. -/
theorem ensureDir_of_refused {parents : Files Unit} (hne : e ≠ .notFound)
    (h : ∀ last, t.resolveSteps last steps = .error e) :
    Files.ensureDir steps parents t = .error e t := by
  have hmake : t.makeDir steps = .error e := by
    rw [makeDir, h]
    rfl
  rw [Files.ensureDir]
  simp only [hmake, h]

end FileTree

namespace StoreFolder

variable {d : StoreFolder} {start t t' u u' : FileTree} {p q : Path} {names others : List String}
  {l loc parent : Location} {steps : List Step} {last : LastLink} {name : String} {node : Node}
  {spot : Spot} {e : IoError} {id : Int32} {α : Type} {data : Bytes}

/-! ### Making directories -/

namespace Rooted

/-- Where the root is there, steps that stay on the way to it or in the folder lead to the same
place in both trees. -/
theorem resolveSteps (h : d.Rooted start t u) (covers : d.Covers steps) (last : LastLink) :
    u.resolveSteps last steps = t.resolveSteps last steps :=
  covers.resolveSteps h.alike.free h.dirs h.dirs' h.alike.same last

/-- What is free on the way is in the folder, since the root is there. -/
theorem place_suffix_of_none (h : d.Rooted start t u) (covers : d.Covers steps)
    (hspot : t.resolveSteps last steps = .ok (.vacant parent name)) :
    d.place <:+ name :: parent := by
  obtain ⟨-, -, hnone⟩ := resolveSteps_isIn hspot
  have hloc : name :: parent = Location.follow steps := loc_eq_follow h.alike.free hspot
  rcases covers steps (List.prefix_refl _) with hway | hin
  · cases hnone.symm.trans (hloc ▸ h.dirs _ hway)
  · exact hloc ▸ hin

/-- A directory on the way or in the folder is made in both trees or in neither. -/
theorem makeDir (h : d.Rooted start t u) (covers : d.Covers steps) :
    Agree (d.Rooted start) (t.makeDir steps) (u.makeDir steps) := by
  have hsame := h.resolveSteps covers .itself
  rw [FileTree.makeDir, FileTree.makeDir, hsame]
  refine .bind fun spot hspot => ?_
  cases spot with
  | occupied loc node => exact .error _
  | vacant parent name =>
      obtain ⟨usable, hparent, hnone⟩ := resolveSteps_isIn hspot
      obtain ⟨-, hparent', -⟩ := resolveSteps_isIn (hsame.trans hspot)
      exact .ok (h.place (h.place_suffix_of_none covers hspot) usable hparent hparent'
        (by simp [hnone]) (by simp))

end Rooted

/-- So it is with a directory and those above it, if those are made in step. -/
theorem respects_ensureDir (covers : d.Covers steps) {parents : Files Unit}
    (hparents : Respects (d.Rooted start) parents) :
    Respects (d.Rooted start) (Files.ensureDir steps parents) := by
  intro t u h
  rw [Files.ensureDir, Files.ensureDir]
  rcases (h.makeDir covers).cases with ⟨t', u', ht, hu, h'⟩ | ⟨e, ht, hu⟩
  · simp only [ht, hu]
    exact ⟨rfl, h'⟩
  · by_cases he : e = .notFound
    · subst he
      simp only [ht, hu]
      rcases hparents.cases h with ⟨_, t₁, u₁, ht₁, hu₁, h₁⟩ | ⟨e, t₁, u₁, ht₁, hu₁, h₁⟩
      · rw [ht₁, hu₁]
        rcases (h₁.makeDir covers).cases with ⟨t₂, u₂, ht₂, hu₂, h₂⟩ | ⟨e, ht₂, hu₂⟩
        · simp only [ht₂, hu₂]
          exact ⟨rfl, h₂⟩
        · simp only [ht₂, hu₂, h₁.resolveSteps covers .followed]
          split <;> exact ⟨rfl, h₁⟩
      · rw [ht₁, hu₁]
        exact ⟨rfl, h₁⟩
    · simp only [ht, hu, h.resolveSteps covers .followed]
      split <;> exact ⟨rfl, h⟩

/-- So it is with all directories of some steps, by induction from the inside out. -/
theorem respects_ensureDirs {outer : List Step} (covers : d.Covers outer.reverse) :
    Respects (d.Rooted start) (Files.ensureDirs outer) := by
  induction outer with
  | nil => exact respects_pure _ ()
  | cons step outer ih =>
      refine respects_ensureDir covers (ih (covers.of_front ?_))
      rw [List.reverse_cons]
      exact List.prefix_append _ _

/-- So it is with what a path of the store needs. -/
theorem respects_ensureDirAll (below : d.Below p names) : Respects (d.Rooted start)
    (Files.ensureDir p.steps (Files.ensureDirs p.properSteps.reverse.tail)) := by
  refine respects_ensureDir below.covers (respects_ensureDirs ?_)
  rw [List.tail_reverse, List.reverse_reverse]
  exact below.covers.proper.of_front (List.dropLast_prefix _)

/-- An action keeps two runs in step if it does in each of the ways that there are to the root. -/
theorem respects_of_ways {ε : Type} {x : EStateM ε FileTree α}
    (rooted : Respects (d.Rooted start) x)
    (missing : ∀ t u, d.InStep start t u → d.Apart → t.OpenWay d.path.steps →
      u.OpenWay d.path.steps → t.node? d.place = none → u.node? d.place = none →
      answer (x u) = answer (x t) ∧ d.InStep start (after (x t)) (after (x u)))
    (blocked : ∀ t u e, d.InStep start t u → t.BlockedWay d.root.steps e →
      u.BlockedWay d.root.steps e →
      answer (x u) = answer (x t) ∧ d.InStep start (after (x t)) (after (x u))) :
    Respects (d.InStep start) x := by
  intro t u h
  cases h.alike.way with
  | there apart dirs dirs' =>
      obtain ⟨hanswer, h'⟩ := rooted t u ⟨h, apart, dirs, dirs'⟩
      exact ⟨hanswer, h'.toInStep⟩
  | missing apart isOpen isOpen' absent absent' =>
      exact missing t u h apart isOpen isOpen' absent absent'
  | blocked e hblocked hblocked' => exact blocked t u e h hblocked hblocked'

/-- Behind a blocked way no directory is made. -/
theorem ensureDir_of_blocked (below : d.Below p names) {parents : Files Unit}
    (h : d.InStep start t u) (blocked : t.BlockedWay d.root.steps e)
    (blocked' : u.BlockedWay d.root.steps e) :
    answer (Files.ensureDir p.steps parents u) = answer (Files.ensureDir p.steps parents t) ∧
      d.InStep start (after (Files.ensureDir p.steps parents t))
        (after (Files.ensureDir p.steps parents u)) := by
  rw [ensureDir_of_refused blocked.present (below.resolveSteps_of_blocked blocked),
    ensureDir_of_refused blocked'.present (below.resolveSteps_of_blocked blocked')]
  exact ⟨rfl, h⟩

/-- The folder is made, with all that is missing on the way. -/
theorem respects_createDirAll_path (d : StoreFolder) (start : FileTree) :
    Respects (d.InStep start) (Files.createDirAll d.path) := by
  have hgrown (t : FileTree) (free : t.LinkFree []) := grownAt_createDirAll free d.path
  rcases createDirAll_cases d.path with hmake | ⟨e, hmake⟩ | hmake
  · exact hmake ▸ respects_pure _ ()
  · exact hmake ▸ respects_throw _ e
  rw [hmake] at hgrown ⊢
  refine respects_of_ways (respects_ensureDirAll d.below_path)
    (fun t u h apart isOpen isOpen' absent absent' => ?_)
    fun t u e h => ensureDir_of_blocked d.below_path h
  -- What is missing on the way need not be the same in both trees. It is all made in both.
  obtain ⟨t', ht, dirs⟩ := isOpen.ensureDirAll d.path_steps
  obtain ⟨u', hu, dirs'⟩ := isOpen'.ensureDirAll d.path_steps
  have grown := hgrown t h.alike.free
  have grown' := hgrown u h.alike.free'
  rw [ht] at grown
  rw [hu] at grown'
  rw [ht, hu]
  have rooted := h.rooted_of_made apart isOpen absent absent' grown grown'
    (forall_onWay_iff.2 dirs) (forall_onWay_iff.2 dirs')
  exact ⟨rfl, rooted.toInStep⟩

/-- The directory of a partition is made, with the folder if that is missing. -/
theorem respects_createDirAll_partitionPath (d : StoreFolder) (start : FileTree) (id : Int32) :
    Respects (d.InStep start) (Files.createDirAll (d.partitionPath id)) := by
  have below := d.below_partitionPath id
  rcases createDirAll_cases (d.partitionPath id) with hmake | ⟨e, hmake⟩ | hmake
  · exact hmake ▸ respects_pure _ ()
  · exact hmake ▸ respects_throw _ e
  rw [hmake]
  refine respects_of_ways (respects_ensureDirAll below)
    (fun t u h apart isOpen isOpen' absent absent' => ?_)
    fun t u e h => ensureDir_of_blocked below h
  have hproper : (d.partitionPath id).properSteps.reverse.tail = d.path.properSteps.reverse := by
    simp [Path.properSteps, below.steps]
  -- Nothing can be made before the folder is, and then the root is there.
  have hrefused {t : FileTree} (isOpen : t.OpenWay d.path.steps) (absent : t.node? d.place = none) :
      t.makeDir (d.partitionPath id).steps = .error .notFound := by
    rw [makeDir, below.steps, isOpen.resolveSteps_append (d.follow_path ▸ absent) (by simp)]
    rfl
  obtain ⟨t', ht, -, dirs⟩ := isOpen.ensureProperDirs
  obtain ⟨u', hu, -, dirs'⟩ := isOpen'.ensureProperDirs
  have grown := grownAt_ensureDirs h.alike.free d.path
  have grown' := grownAt_ensureDirs h.alike.free' d.path
  rw [ht] at grown
  rw [hu] at grown'
  have rooted := h.rooted_of_made apart isOpen absent absent' grown grown'
    (forall_onWay_iff.2 dirs) (forall_onWay_iff.2 dirs')
  rw [hproper, ensureDir_of_made (hrefused isOpen absent) ht,
    ensureDir_of_made (hrefused isOpen' absent') hu]
  obtain ⟨hanswer, h'⟩ := respects_ensureDir below.covers (respects_pure _ ()) t' u' rooted
  exact ⟨hanswer, h'.toInStep⟩

/-! ### Where something is found -/

/-- Where the steps of something below the folder lead anywhere, the root is there in both runs. -/
theorem InStep.rooted_of_ok (h : d.InStep start t u) (below : d.Below p names) (hne : names ≠ [])
    (hok : t.resolveSteps last p.steps = .ok spot) : d.Rooted start t u := by
  cases h.alike.way with
  | there apart dirs dirs' => exact ⟨h, apart, dirs, dirs'⟩
  | missing apart isOpen isOpen' absent absent' =>
      rw [below.steps, isOpen.resolveSteps_append (d.follow_path ▸ absent) (by simpa using hne)]
        at hok
      cases hok
  | blocked e blocked blocked' =>
      rw [below.resolveSteps_of_blocked blocked] at hok
      cases hok

/-- Where a path of the store leads to a node, the root is there in both runs. -/
theorem InStep.rooted_of_find (h : d.InStep start t u) (below : d.Below p names)
    (hfind : t.find last p = .ok (loc, node)) : d.Rooted start t u := by
  have hrefused (e : IoError) : (checkText p >>= fun _ => Except.error e) ≠ .ok (loc, node) := by
    cases checkText p <;> simp [bind, Except.bind]
  cases h.alike.way with
  | there apart dirs dirs' => exact ⟨h, apart, dirs, dirs'⟩
  | missing apart isOpen isOpen' absent absent' =>
      exact absurd ((below.find_of_missing isOpen absent last).symm.trans hfind) (hrefused _)
  | blocked e blocked blocked' =>
      exact absurd ((below.find_of_blocked blocked last).symm.trans hfind) (hrefused _)

/-! ### Removing -/

/-- A path of the store names the same entry in both trees. -/
theorem Rooted.resolveEntry (h : d.Rooted start t u) (below : d.Below p names) :
    u.resolveEntry p = t.resolveEntry p := by
  rw [FileTree.resolveEntry, FileTree.resolveEntry, h.resolveSteps below.covers]

/-- An emptied directory of the store goes from both trees or stays in both. -/
theorem respects_removeEmptied (below : d.Below p names) (hloc : d.place <:+ loc) :
    Respects (d.Rooted start) (Files.removeEmptied p loc) := by
  intro t u h
  rw [Files.removeEmptied, Files.removeEmptied, h.resolveEntry below]
  split
  · exact ⟨rfl, h⟩
  · exact ⟨rfl, h⟩
  · exact ⟨rfl, h⟩
  · split
    · exact ⟨rfl, h.prune hloc⟩
    · exact ⟨rfl, h⟩
    · exact ⟨rfl, h⟩
    · exact ⟨rfl, h⟩

/-- A directory is removed with everything in it. -/
theorem respects_removeDirAll (below : d.Below p names) :
    Respects (d.InStep start) (Files.removeDirAll p) := by
  intro t u h
  rw [Files.removeDirAll, Files.removeDirAll, h.alike.find below]
  cases hfind : t.find .itself p with
  | error e => exact ⟨rfl, h⟩
  | ok found =>
      obtain ⟨loc, node⟩ := found
      have rooted := h.rooted_of_find below hfind
      have hloc := h.alike.place_suffix_of_find below hfind
      cases node with
      | file data => exact ⟨rfl, h⟩
      | link target => exact ⟨rfl, (rooted.prune hloc).toInStep⟩
      | dir =>
          obtain ⟨hanswer, h'⟩ := respects_removeEmptied below hloc _ _ (rooted.clear hloc)
          exact ⟨hanswer, h'.toInStep⟩

/-! ### Writing and renaming -/

/-- Where a path of the store leads is the same place of both trees, and in the folder. -/
theorem Alike.isIn (h : d.Alike t u) (below : d.Below p names) (hne : names ≠ [])
    (hspot : t.resolveSteps last p.steps = .ok spot) :
    Spot.IsIn t spot ∧ Spot.IsIn u spot ∧ d.place <:+ spot.loc := by
  have hloc : spot.loc = Location.follow p.steps := loc_eq_follow h.free hspot
  exact ⟨resolveSteps_isIn hspot, resolveSteps_isIn ((h.resolveSteps below hne last).trans hspot),
    hloc ▸ below.place_suffix⟩

/-- A file is written in the folder. -/
theorem respects_write (below : d.Below p names) (hne : names ≠ []) (data : Bytes) :
    Respects (d.InStep start) (Files.change (·.write p data)) := by
  refine Files.respects_change fun t u h => ?_
  rw [FileTree.write, FileTree.write, below.noSlash, h.alike.resolveSteps below hne]
  refine .bind fun _ _ => .bind fun spot hspot => ?_
  have rooted := h.rooted_of_ok below hne hspot
  obtain ⟨isIn, isIn', hin⟩ := h.alike.isIn below hne hspot
  cases spot with
  | vacant parent name =>
      obtain ⟨usable, hparent, hnone⟩ := isIn
      exact .ok (rooted.place hin usable hparent isIn'.2.1 (by simp [hnone]) (by simp)).toInStep
  | occupied there node =>
      cases there with
      | nil => exact .error _
      | cons name parent =>
          cases node with
          | dir | link => exact .error _
          | file old =>
              replace isIn : t.node? (name :: parent) = some (.file old) := isIn
              replace isIn' : u.node? (name :: parent) = some (.file old) := isIn'
              exact .ok (rooted.place hin (isEntryName_of_node? isIn) (node?_parent_of_node? isIn)
                (node?_parent_of_node? isIn') (by simp [isIn]) (by simp)).toInStep

/-- What is no directory is not above one. -/
theorem not_suffix_of_ne_dir (hne : t.node? loc ≠ some .dir) (hdir : t.node? l = some .dir) :
    ¬loc <:+ l := by
  rintro ⟨inner, rfl⟩
  by_cases hinner : inner = []
  · subst hinner
    exact hne hdir
  · cases (node?_below hne hinner).symm.trans hdir

/-- So does a path below the folder in trees that are alike, also where the root is not there. -/
theorem Alike.resolveEntry (h : d.Alike t u) (below : d.Below p names) (hne : names ≠ []) :
    u.resolveEntry p = t.resolveEntry p := by
  rw [FileTree.resolveEntry, FileTree.resolveEntry, h.resolveSteps below hne]

/-- What is found in the folder gets a free place in it. -/
theorem Rooted.rename_of_free (h : d.Rooted start t u) (hloc : d.place <:+ loc)
    (hplace : d.place <:+ name :: parent) (hold : t.resolveEntry p = .ok (.occupied loc node))
    (hold' : u.resolveEntry p = .ok (.occupied loc node))
    (hnew : t.resolveEntry q = .ok (.vacant parent name))
    (hnew' : u.resolveEntry q = .ok (.vacant parent name)) :
    Agree (d.InStep start) (t.rename p q) (u.rename p q) := by
  have hthere : t.node? loc = some node := resolveSteps_isIn (resolveSteps_of_resolveEntry hold).2
  obtain ⟨usable, hparent, -⟩ := resolveSteps_isIn (resolveSteps_of_resolveEntry hnew).2
  obtain ⟨-, hparent', -⟩ := resolveSteps_isIn (resolveSteps_of_resolveEntry hnew').2
  simp only [FileTree.rename, hold, hold', hnew, hnew', bind, Except.bind]
  split
  · exact .error _
  split
  · exact .error _
  split
  · exact .error _
  rename_i hsuffix
  exact .ok (h.move hloc hplace usable hparent hparent' (by simpa using hsuffix)
    (by simp [hthere])).toInStep

/-- Or it takes the place of something else, if that is allowed. -/
theorem Rooted.rename_of_taken (h : d.Rooted start t u) {taken : Node} (hloc : d.place <:+ loc)
    (hplace : d.place <:+ l) (hold : t.resolveEntry p = .ok (.occupied loc node))
    (hold' : u.resolveEntry p = .ok (.occupied loc node))
    (hnew : t.resolveEntry q = .ok (.occupied l taken))
    (hnew' : u.resolveEntry q = .ok (.occupied l taken)) :
    Agree (d.InStep start) (t.rename p q) (u.rename p q) := by
  have hthere : t.node? loc = some node := resolveSteps_isIn (resolveSteps_of_resolveEntry hold).2
  have htaken : t.node? l = some taken := resolveSteps_isIn (resolveSteps_of_resolveEntry hnew).2
  simp only [FileTree.rename, hold, hold', hnew, hnew', bind, Except.bind]
  rw [children_congr (h.alike.same_below hplace)]
  split
  · exact .error _
  split
  · exact .error _
  split
  · exact .ok h.toInStep
  cases l with
  | nil => exact .error _
  | cons name parent =>
      -- A file gives way to a file, and an empty directory to a directory that is not above it.
      have hmove (hsuffix : ¬loc <:+ parent) : Agree (d.InStep start)
          (.ok (t.move loc parent name)) (.ok (u.move loc parent name) : Except IoError _) := by
        have htaken' := (h.same_of_in hplace).trans htaken
        exact .ok (h.move hloc hplace (isEntryName_of_node? htaken) (node?_parent_of_node? htaken)
          (node?_parent_of_node? htaken') hsuffix (by simp [hthere])).toInStep
      have hfile (hne : node ≠ .dir) : ¬loc <:+ parent :=
        not_suffix_of_ne_dir (by simpa [hthere] using hne) (node?_parent_of_node? htaken)
      cases node with
      | dir =>
          cases taken with
          | file | link => exact .error _
          | dir =>
              dsimp only
              split
              · exact .error _
              rename_i hsuffix
              split
              · refine hmove fun hparent => hsuffix ?_
                exact List.isSuffixOf_iff_suffix.2 (hparent.trans (List.suffix_cons _ _))
              · exact .error _
      | file | link =>
          cases taken with
          | dir => exact .error _
          | file | link => exact hmove (hfile (by simp))

/-- What is found in the folder is renamed to something in the folder. -/
theorem respects_rename (below : d.Below p names) (hne : names ≠ []) (below' : d.Below q others)
    (hne' : others ≠ []) : Respects (d.InStep start) (Files.change (·.rename p q)) := by
  refine Files.respects_change fun t u h => ?_
  have hsame := h.alike.resolveEntry below hne
  have hsame' := h.alike.resolveEntry below' hne'
  cases hold : t.resolveEntry p with
  | error e =>
      rw [FileTree.rename, FileTree.rename, hsame, hold]
      exact .error e
  | ok old =>
      cases hnew : t.resolveEntry q with
      | error e =>
          rw [FileTree.rename, FileTree.rename, hsame, hold, hsame', hnew]
          exact .error e
      | ok new =>
          -- Both ends are below the folder's names, where the trees agree.
          have hspot := (resolveSteps_of_resolveEntry hold).2
          have rooted := h.rooted_of_ok below hne hspot
          obtain ⟨-, -, hloc⟩ := h.alike.isIn below hne hspot
          obtain ⟨-, -, hplace⟩ := h.alike.isIn below' hne' (resolveSteps_of_resolveEntry hnew).2
          cases old with
          | vacant parent name =>
              simp only [FileTree.rename, hsame, hold, hsame', hnew, bind, Except.bind]
              split <;> exact .error _
          | occupied loc node =>
              cases new with
              | vacant parent name =>
                  exact rooted.rename_of_free hloc hplace hold (hsame.trans hold) hnew
                    (hsame'.trans hnew)
              | occupied l taken =>
                  exact rooted.rename_of_taken hloc hplace hold (hsame.trans hold) hnew
                    (hsame'.trans hnew)

/-- A file of the folder is replaced by way of another one. -/
theorem respects_replace (below : d.Below p names) (hne : names ≠ []) (below' : d.Below q others)
    (hne' : others ≠ []) (data : Bytes) : Respects (d.InStep start) (Files.replace p q data) :=
  (respects_write below' hne' data).bind fun _ => respects_rename below' hne' below hne

/-! ### The operations of a folder -/

/-- The record is two names below the folder. -/
theorem below_recordPath (d : StoreFolder) :
    d.Below d.recordPath [dirName d.store metadataId, recordFileName] :=
  (d.below_partitionPath metadataId).join (by decide)

/-- The folder is there in both runs or in neither. -/
theorem InStep.isThere (h : d.InStep start t u) : d.isThere u = d.isThere t :=
  h.alike.exists d.below_path

/-- The folder takes as many bytes in both runs. -/
theorem InStep.size (h : d.InStep start t u) : d.size u = d.size t := h.alike.size d.below_path

/-- A question with the same answer in both runs keeps them in step. -/
theorem respects_observe {question : FileTree → α}
    (h : ∀ t u, d.InStep start t u → question u = question t) :
    Respects (d.InStep start) (StoreAction.observe question) := fun t u hs =>
  ⟨congrArg Except.ok (h t u hs), hs⟩

/-- Both runs read the same record, or none, or fail alike. -/
theorem respects_readRecord (d : StoreFolder) (start : FileTree) :
    Respects (d.InStep start) d.readRecord := by
  rw [readRecord, EngineRecord.read]
  refine StoreAction.respects_io (Files.respects_ask fun t u h => ?_)
  rw [EngineRecord.readFrom, EngineRecord.readFrom, EngineRecord.readText, EngineRecord.readText,
    h.alike.read d.below_recordPath]

/-- Both runs find the same ids. -/
theorem respects_idsOnDisk (d : StoreFolder) (start : FileTree) :
    Respects (d.InStep start) d.idsOnDisk := by
  refine respects_get_bind (fun t u h => ?_) fun t => ?_
  · rw [h.isThere, h.alike.isDir d.below_path]
  · refine respects_ite (respects_pure _ _) (respects_ite (respects_throw _ _) ?_)
    refine .bind (StoreAction.respects_io (Files.respects_ask fun t u h => ?_))
      fun entries => respects_pure _ _
    exact h.alike.list d.below_path

/-- The folder is made in both runs, or found in both. -/
theorem respects_ensure (d : StoreFolder) (start : FileTree) :
    Respects (d.InStep start) d.ensure := by
  refine respects_get_bind (fun t u h => ?_) fun t => ?_
  · rw [h.isThere, h.alike.isDir d.below_path]
  · refine respects_ite (respects_ite (respects_pure _ _) (respects_throw _ _)) ?_
    exact .bind (StoreAction.respects_ofFiles (respects_createDirAll_path d start))
      fun _ => respects_pure _ _

/-- The folder is emptied in both runs. -/
theorem respects_empty (d : StoreFolder) (start : FileTree) : Respects (d.InStep start) d.empty :=
  .bind (StoreAction.respects_ofFiles (respects_removeDirAll d.below_path)) fun _ =>
    StoreAction.respects_ofFiles (respects_createDirAll_path d start)

/-- The guard finds the same record in both runs, and empties the folder in both or in neither. -/
theorem respects_guard (d : StoreFolder) (start : FileTree) (format : TableFormat) :
    Respects (d.InStep start) (d.guard format) := by
  refine .bind (StoreAction.respects_during (respects_readRecord d start)) fun record? => ?_
  cases record? with
  | none => exact respects_pure _ _
  | some record =>
      cases hformat : record.format? with
      | none =>
          simp only [hformat]
          exact respects_pure _ _
      | some recorded =>
          simp only [hformat]
          exact respects_ite (respects_pure _ _)
            ((respects_empty d start).bind fun _ => respects_pure _ _)

/-- The record is written in both runs, or found in both. -/
theorem respects_recordOnce (d : StoreFolder) (start : FileTree) (record : EngineRecord) :
    Respects (d.InStep start) (d.recordOnce record) := by
  refine respects_get_bind (fun t u h => ?_) fun t => ?_
  · rw [h.alike.exists d.below_recordPath]
  · have hwrite : Respects (d.InStep start) (record.write d.recordPath) := by
      rw [EngineRecord.write, withExtension_recordPath]
      exact StoreAction.respects_io (respects_replace d.below_recordPath (List.cons_ne_nil _ _)
        ((d.below_partitionPath metadataId).join (by decide)) (List.cons_ne_nil _ _) _)
    refine respects_ite (respects_pure _ _) (.bind ?_ fun _ =>
      hwrite.bind fun _ => respects_pure _ _)
    exact StoreAction.respects_io (respects_createDirAll_partitionPath d start metadataId)

/-- The folder is removed in both runs, or missing in both. -/
theorem respects_remove (d : StoreFolder) (start : FileTree) :
    Respects (d.InStep start) d.remove := by
  refine respects_get_bind (fun t u h => ?_) fun t => ?_
  · rw [h.isThere]
  · exact respects_ite (.bind (StoreAction.respects_io (respects_removeDirAll d.below_path))
      fun _ => respects_pure _ _) (respects_pure _ _)

end StoreFolder

end PartitionStore
