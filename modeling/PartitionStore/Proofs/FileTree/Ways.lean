import PartitionStore.Proofs.FileTree.OnWay

/-!
# `PartitionStore.Proofs.FileTree.Ways`: what a way is made of

Where there are no links, where steps lead hangs on the nodes on their way, and on no others
(`resolveSteps_congr`). Three kinds of ways are of interest to what is below their end:

* The way may lead to a directory. Then what is on it makes no difference to what is below.
* Something may be missing on it, with nothing but directories otherwise (`OpenWay`). Then nothing
  is found below it (`OpenWay.resolveSteps_append`), and the way can be made
  (`OpenWay.ensureDirs`).
* A file may be in the way, or a name that no entry can have, before anything is missing
  (`BlockedWay`). Then nothing is found below it. Such a way is neither there nor open
  (`BlockedWay.not_dirs`, `BlockedWay.not_openWay`).
-/

set_option autoImplicit false

namespace PartitionStore.FileTree

/-- All that is on the way of the steps are directories, and whatever is missing could be one. -/
structure OpenWay (t : FileTree) (steps : List Step) : Prop where
  usable : ∀ name, .down name ∈ steps → isEntryName name = true
  clear : ∀ front, front <+: steps →
    t.node? (Location.follow front) = none ∨ t.node? (Location.follow front) = some .dir

/-- The way of the steps ends before anything is missing, so that nothing is found below it. -/
structure BlockedWay (t : FileTree) (steps : List Step) (e : IoError) : Prop where
  present : e ≠ .notFound
  refused : ∀ last more, more ≠ [] → t.resolveSteps last (steps ++ more) = .error e

/-- What comes of walking an open way from a directory: all of it is there, or only its last name is
free, or something is missing before that. -/
inductive OpenEnd (t : FileTree) (start : Location) : List Step → Except IoError Spot → Prop
  | there {steps : List Step}
      (dirs : ∀ front, front <+: steps → t.node? (front.foldl Location.step start) = some .dir) :
      OpenEnd t start steps (.ok (.occupied (steps.foldl Location.step start) .dir))
  | free {steps : List Step} {name : String}
      (dirs : ∀ front, front <+: steps → t.node? (front.foldl Location.step start) = some .dir)
      (absent : t.node? (name :: steps.foldl Location.step start) = none) :
      OpenEnd t start (steps ++ [.down name]) (.ok (.vacant (steps.foldl Location.step start) name))
  | missing {steps front : List Step} (hfront : front <+: steps) (proper : front ≠ steps)
      (absent : t.node? (front.foldl Location.step start) = none) :
      OpenEnd t start steps (.error .notFound)

variable {t u : FileTree} {steps front more outer : List Step} {step : Step} {start : Location}
  {last last' : LastLink} {name : String} {jump jump' : Location → List Step → Except IoError Spot}

/-- What holds on the way of a path holds where each front of its steps goes. -/
theorem forall_onWay_iff {p : Path} {P : Location → Prop} : (∀ l, OnWay p l → P l) ↔
    ∀ front, front <+: p.steps → P (Location.follow front) :=
  ⟨fun h front hfront => h _ ⟨front, hfront, rfl⟩,
    fun h _ ⟨front, hfront, hl⟩ => hl ▸ h front hfront⟩

/-! ### Ways that are the same -/

/-- To resolve steps is to walk them from the top, with some way to go on behind links. -/
theorem exists_resolveSteps_eq_walk (t : FileTree) (last : LastLink) :
    ∃ jump, ∀ steps, t.resolveSteps last steps = t.walk last jump [] steps := by
  cases hlinks : maxLinks with
  | zero => exact ⟨_, fun steps => by rw [resolveSteps_eq, hlinks]; rfl⟩
  | succ links => exact ⟨_, fun steps => by rw [resolveSteps_eq, hlinks]; rfl⟩

/-- A walk without links is the same in trees with the same nodes on its way. How either goes on
behind links, or takes the last one, does not matter then. -/
theorem walk_congr (free : t.LinkFree [])
    (same : ∀ front, front <+: steps →
      u.node? (front.foldl Location.step start) = t.node? (front.foldl Location.step start)) :
    u.walk last' jump' start steps = t.walk last jump start steps := by
  -- Without links a walk passes just the prefixes of its steps.
  induction steps generalizing start with
  | nil => rfl
  | cons step rest ih =>
      have hrest {next : Location} (hnext : next = Location.step start step) (front : List Step)
          (hfront : front <+: rest) :
          u.node? (front.foldl Location.step next) = t.node? (front.foldl Location.step next) := by
        subst hnext
        exact same (step :: front) (List.cons_prefix_cons.2 ⟨rfl, hfront⟩)
      cases step with
      | here => exact ih (hrest rfl)
      | up => exact ih (hrest rfl)
      | down name =>
          have hnode : u.node? (name :: start) = t.node? (name :: start) :=
            same [.down name] (List.cons_prefix_cons.2 ⟨rfl, List.nil_prefix⟩)
          rw [walk, walk, hnode]
          split
          · rfl
          split
          · rfl
          · exact ih (hrest rfl)
          · rfl
          · rename_i target hlink
            exact absurd hlink (free _ target List.nil_suffix)

/-- Where steps lead hangs on the nodes on their way. -/
theorem resolveSteps_congr (free : t.LinkFree [])
    (same : ∀ front, front <+: steps →
      u.node? (Location.follow front) = t.node? (Location.follow front)) (last : LastLink) :
    u.resolveSteps last steps = t.resolveSteps last steps := by
  obtain ⟨jump, h⟩ := exists_resolveSteps_eq_walk t last
  obtain ⟨jump', h'⟩ := exists_resolveSteps_eq_walk u last
  rw [h, h']
  exact walk_congr free same

/-- Without links it makes no difference what becomes of one at the end. -/
theorem find_last (free : t.LinkFree []) (last last' : LastLink) (p : Path) :
    t.find last p = t.find last' p := by
  have hsteps (steps : List Step) : t.resolveSteps last steps = t.resolveSteps last' steps := by
    obtain ⟨jump, h⟩ := exists_resolveSteps_eq_walk t last
    obtain ⟨jump', h'⟩ := exists_resolveSteps_eq_walk t last'
    rw [h, h']
    exact walk_congr free fun _ _ => rfl
  rw [FileTree.find, FileTree.find, FileTree.resolve, FileTree.resolve, hsteps]

/-- What is not there has no size. -/
theorem size_eq_zero (free : t.LinkFree []) {p : Path} (h : t.exists p = false) :
    t.size p = 0 := by
  rw [FileTree.size, find_last free .itself .followed]
  rw [FileTree.exists] at h
  cases hfind : t.find .followed p with
  | error e => rfl
  | ok found =>
      rw [hfind] at h
      cases h

/-! ### What is below a location -/

/-- What is below a location hangs on the nodes there. -/
theorem at?_congr {loc : Location} (same : ∀ l, loc <:+ l → u.node? l = t.node? l) :
    u.at? loc = t.at? loc := by
  have hnode := same loc (List.suffix_refl loc)
  rw [node?, node?] at hnode
  cases hu : u.at? loc with
  | none =>
      rw [hu] at hnode
      exact (Option.map_eq_none_iff.1 hnode.symm).symm
  | some there =>
      rw [hu] at hnode
      obtain ⟨there', ht, hfirst⟩ := Option.map_eq_some_iff.1 hnode.symm
      obtain ⟨node, es⟩ := there
      obtain ⟨node', es'⟩ := there'
      obtain rfl : node' = node := hfirst
      obtain ⟨hempty, hes⟩ := u.wellFormed.at? hu
      obtain ⟨hempty', hes'⟩ := t.wellFormed.at? ht
      rw [ht]
      by_cases hdir : node' = .dir
      · -- The entries of a directory are known by what is looked up in them.
        subst hdir
        refine congrArg (fun es => some (Node.dir, es))
          (Entries.eq_of_node_at? hes hes' fun inner => ?_)
        have hinner := same (inner ++ loc) (List.suffix_append inner loc)
        rw [FileTree.at?] at hu ht
        rwa [node?, node?, FileTree.at?, FileTree.at?, Entries.at?_append, Entries.at?_append, hu,
          ht] at hinner
      · rw [show es = .none from hempty hdir, show es' = .none from hempty' hdir]

/-- A directory has the same entries in trees that are the same below it. -/
theorem children_congr {loc : Location} (same : ∀ l, loc <:+ l → u.node? l = t.node? l) :
    u.children loc = t.children loc := by
  rw [children, children, at?_congr same]

/-- So it has as many bytes. -/
theorem totalSize_congr {loc : Location} (same : ∀ l, loc <:+ l → u.node? l = t.node? l)
    (room : Nat) : u.totalSize room loc = t.totalSize room loc := by
  rw [totalSize, totalSize, at?_congr same]

/-! ### Open ways -/

/-- Steps end openly from a directory if those behind the first one do from where that goes. -/
theorem OpenEnd.cons {result : Except IoError Spot} (hstart : t.node? start = some .dir)
    (h : OpenEnd t (Location.step start step) steps result) :
    OpenEnd t start (step :: steps) result := by
  have hdirs {front : List Step} (dirs : ∀ front', front' <+: front →
      t.node? (front'.foldl Location.step (Location.step start step)) = some .dir) :
      ∀ front', front' <+: step :: front →
        t.node? (front'.foldl Location.step start) = some .dir := by
    intro front' hfront'
    rcases List.prefix_cons_iff.1 hfront' with rfl | ⟨front'', rfl, hfront''⟩
    · exact hstart
    · exact dirs front'' hfront''
  cases h with
  | there dirs => exact @there t start _ (hdirs dirs)
  | free dirs absent => exact @free t start (step :: _) _ (hdirs dirs) absent
  | missing hfront proper absent =>
      exact @missing t start _ (step :: _) (List.cons_prefix_cons.2 ⟨rfl, hfront⟩)
        (fun e => proper (List.cons.inj e).2) absent

/-- One step on an open way: it goes to a directory, or down to a name that is missing. -/
theorem walk_cons_of_open (hstart : t.node? start = some .dir)
    (usable : ∀ name, step = .down name → isEntryName name = true)
    (clear : t.node? (Location.step start step) = none ∨
      t.node? (Location.step start step) = some .dir) :
    t.node? (Location.step start step) = some .dir ∧ (∀ rest,
        t.walk last jump start (step :: rest) = t.walk last jump (Location.step start step) rest) ∨
      ∃ name, step = .down name ∧ t.node? (name :: start) = none ∧ ∀ rest,
        t.walk last jump start (step :: rest) =
          if rest = [] then .ok (.vacant start name) else .error .notFound := by
  cases step with
  | here => exact .inl ⟨hstart, fun rest => rfl⟩
  | up =>
      refine .inl ⟨?_, fun rest => rfl⟩
      cases start with
      | nil => exact hstart
      | cons name parent => exact node?_parent_of_node? hstart
  | down name =>
      have hname := usable name rfl
      rcases clear with hnone | hdir
      · replace hnone : t.node? (name :: start) = none := hnone
        exact .inr ⟨name, rfl, hnone, fun rest => by simp only [walk, hname, hnone]; simp⟩
      · replace hdir : t.node? (name :: start) = some .dir := hdir
        exact .inl ⟨hdir, fun rest => by simp only [walk, hname, hdir]; simp [Location.step]⟩

/-- A walk through nothing but directories and free places ends openly, by induction on its steps.
-/
theorem walk_of_open (hstart : t.node? start = some .dir)
    (usable : ∀ name, .down name ∈ steps → isEntryName name = true)
    (clear : ∀ front, front <+: steps → t.node? (front.foldl Location.step start) = none ∨
      t.node? (front.foldl Location.step start) = some .dir) :
    OpenEnd t start steps (t.walk last jump start steps) := by
  induction steps generalizing start with
  | nil => exact .there fun front hfront => by rwa [List.prefix_nil.1 hfront]
  | cons step rest ih =>
      have hfirst : [step] <+: step :: rest := List.cons_prefix_cons.2 ⟨rfl, List.nil_prefix⟩
      rcases @walk_cons_of_open t step start last jump hstart
        (fun name hname => usable name (hname ▸ List.mem_cons_self ..)) (clear [step] hfirst) with
        ⟨hdir, hwalk⟩ | ⟨name, rfl, hnone, hwalk⟩
      · rw [hwalk]
        exact .cons hstart <| ih hdir (fun name hname => usable name (List.mem_cons_of_mem _ hname))
          fun front hfront => clear (step :: front) (List.cons_prefix_cons.2 ⟨rfl, hfront⟩)
      · rw [hwalk]
        by_cases hlast : rest = []
        · subst hlast
          exact @OpenEnd.free t start [] name
            (fun front hfront => by rwa [List.prefix_nil.1 hfront]) hnone
        · rw [if_neg hlast]
          exact .missing hfirst (fun e => hlast (List.cons.inj e).2.symm) hnone

/-- So do the steps of an open way from the top. -/
theorem OpenWay.resolveSteps (h : t.OpenWay steps) (last : LastLink) :
    OpenEnd t [] steps (t.resolveSteps last steps) := by
  obtain ⟨jump, hwalk⟩ := exists_resolveSteps_eq_walk t last
  rw [hwalk]
  exact walk_of_open (node?_nil t) h.usable h.clear

/-- Where an open way leads nowhere something is missing on it. -/
theorem OpenWay.eq_notFound {e : IoError} (h : t.OpenWay steps)
    (herror : t.resolveSteps last steps = .error e) : e = .notFound := by
  have hend := h.resolveSteps last
  rw [herror] at hend
  cases hend
  rfl

/-- Where nothing is at the end of an open way the way leads to a free name, if anywhere. -/
theorem OpenWay.resolveSteps_of_none (h : t.OpenWay steps)
    (hnone : t.node? (Location.follow steps) = none) (last : LastLink) :
    t.resolveSteps last steps = .error .notFound ∨
      ∃ parent name, t.resolveSteps last steps = .ok (.vacant parent name) := by
  have hend := h.resolveSteps last
  generalize t.resolveSteps last steps = result at hend
  cases hend with
  | there dirs => cases hnone.symm.trans (dirs _ (List.prefix_refl _))
  | free => exact .inr ⟨_, _, rfl⟩
  | missing => exact .inl rfl

/-- A way of directories is open. -/
theorem openWay_of_dirs
    (dirs : ∀ front, front <+: steps → t.node? (Location.follow front) = some .dir) :
    t.OpenWay steps := by
  refine ⟨fun name hname => ?_, fun front hfront => .inr (dirs front hfront)⟩
  obtain ⟨front, more, rfl⟩ := List.append_of_mem hname
  have hdir := dirs (front ++ [.down name]) ⟨more, by simp⟩
  rw [Location.follow, List.foldl_append] at hdir
  exact isEntryName_of_node? hdir

/-- More directories leave a way open. -/
theorem OpenWay.grown (h : t.OpenWay steps) (grown : Grown t u) : u.OpenWay steps := by
  refine ⟨h.usable, fun front hfront => ?_⟩
  rcases h.clear front hfront with hnone | hdir
  · exact (grown _).imp (fun hsame => hsame.trans hnone) And.right
  · exact .inr (grown.eq_of_some hdir)

/-- Nothing is found behind the end of an open way where nothing is. -/
theorem walk_append_of_missing (hstart : t.node? start = some .dir)
    (usable : ∀ name, .down name ∈ steps → isEntryName name = true)
    (clear : ∀ front, front <+: steps → t.node? (front.foldl Location.step start) = none ∨
      t.node? (front.foldl Location.step start) = some .dir)
    (hnone : t.node? (steps.foldl Location.step start) = none) (hmore : more ≠ []) :
    t.walk last jump start (steps ++ more) = .error .notFound := by
  induction steps generalizing start with
  | nil => cases hnone.symm.trans hstart
  | cons step rest ih =>
      have hfirst : [step] <+: step :: rest := List.cons_prefix_cons.2 ⟨rfl, List.nil_prefix⟩
      rw [List.cons_append]
      rcases @walk_cons_of_open t step start last jump hstart
        (fun name hname => usable name (hname ▸ List.mem_cons_self ..)) (clear [step] hfirst) with
        ⟨hdir, hwalk⟩ | ⟨name, rfl, -, hwalk⟩
      · rw [hwalk]
        exact ih hdir (fun name hname => usable name (List.mem_cons_of_mem _ hname))
          (fun front hfront => clear (step :: front) (List.cons_prefix_cons.2 ⟨rfl, hfront⟩)) hnone
      · rw [hwalk, if_neg (by simp [hmore])]

/-- Behind the end of an open way, where nothing is there, nothing is found. -/
theorem OpenWay.resolveSteps_append (h : t.OpenWay steps)
    (hnone : t.node? (Location.follow steps) = none) (hmore : more ≠ []) (last : LastLink) :
    t.resolveSteps last (steps ++ more) = .error .notFound := by
  obtain ⟨jump, hwalk⟩ := exists_resolveSteps_eq_walk t last
  rw [hwalk]
  exact walk_append_of_missing (node?_nil t) h.usable h.clear hnone hmore

/-- A way of directories leads to the last one. -/
theorem OpenWay.resolveSteps_of_dirs (h : t.OpenWay steps)
    (dirs : ∀ front, front <+: steps → t.node? (Location.follow front) = some .dir)
    (last : LastLink) :
    t.resolveSteps last steps = .ok (.occupied (Location.follow steps) .dir) := by
  have hend := h.resolveSteps last
  generalize t.resolveSteps last steps = result at hend
  cases hend with
  | there => rfl
  | free _ hnone =>
      have hdir := dirs _ (List.prefix_refl _)
      rw [Location.follow, List.foldl_append] at hdir
      cases hnone.symm.trans hdir
  | missing hfront _ hnone => cases hnone.symm.trans (dirs _ hfront)

/-! ### Making an open way -/

/-- A directory at the end of an open way is there, or is made, or lacks one above it. -/
theorem OpenWay.makeDir_cases (h : t.OpenWay steps) :
    ((∀ front, front <+: steps → t.node? (Location.follow front) = some .dir) ∧
        t.makeDir steps = .error .alreadyExists) ∨
      (∃ u, t.makeDir steps = .ok u ∧
        ∀ front, front <+: steps → u.node? (Location.follow front) = some .dir) ∨
      ((∃ front, front <+: steps ∧ front ≠ steps ∧ t.node? (Location.follow front) = none) ∧
        t.makeDir steps = .error .notFound) := by
  have hend := h.resolveSteps .itself
  rw [makeDir]
  cases hspot : t.resolveSteps .itself steps with
  | error e =>
      rw [hspot] at hend
      cases hend with
      | missing hfront proper hnone => exact .inr (.inr ⟨⟨_, hfront, proper, hnone⟩, rfl⟩)
  | ok spot =>
      rw [hspot] at hend
      cases hend with
      | there dirs => exact .inl ⟨dirs, rfl⟩
      | free dirs hnone =>
          rename_i front name
          refine .inr (.inl ⟨_, rfl, fun front' hfront' => ?_⟩)
          have usable := h.usable name (List.mem_append_right _ (List.mem_singleton_self _))
          have hdir := dirs front (List.prefix_refl _)
          rcases List.prefix_concat_iff.1 hfront' with rfl | hproper
          · rw [Location.follow, List.foldl_append]
            exact node?_place_self usable hdir (by simp [hnone])
          · -- What was there stays there.
            have hthere := dirs front' hproper
            refine (node?_place_of_ne _ _ _ _ fun e => ?_).trans hthere
            cases hnone.symm.trans ((congrArg t.node? e).symm.trans hthere)

/-- A directory is made at the end of an open way, once the directories above it were made. -/
theorem OpenWay.ensureDir (h : t.OpenWay (front ++ [step])) {parents : Files Unit}
    (hparents : ∃ u, parents t = .ok () u ∧ Grown t u ∧
      ∀ front', front' <+: front → u.node? (Location.follow front') = some .dir) :
    ∃ u, Files.ensureDir (front ++ [step]) parents t = .ok () u ∧
      ∀ front', front' <+: front ++ [step] → u.node? (Location.follow front') = some .dir := by
  have hsettle {u : FileTree} (h : u.OpenWay (front ++ [step])) (dirs : ∀ front',
      front' <+: front ++ [step] → u.node? (Location.follow front') = some .dir) :=
    h.resolveSteps_of_dirs dirs .followed
  rw [Files.ensureDir]
  rcases h.makeDir_cases with ⟨dirs, hmake⟩ | ⟨u, hmake, dirs⟩ | ⟨-, hmake⟩
  · refine ⟨t, ?_, dirs⟩
    simp only [hmake, hsettle h dirs]
  · exact ⟨u, by simp only [hmake], dirs⟩
  · obtain ⟨u, hrun, grown, hdirs⟩ := hparents
    have h' := h.grown grown
    rcases h'.makeDir_cases with
      ⟨dirs, hmake'⟩ | ⟨v, hmake', dirs⟩ | ⟨⟨front', hfront, hne, hnone⟩, -⟩
    · refine ⟨u, ?_, dirs⟩
      simp only [hmake, hrun, hmake', hsettle h' dirs]
    · exact ⟨v, by simp only [hmake, hrun, hmake'], dirs⟩
    · -- Nothing is missing any more but the last one.
      have hproper := (List.prefix_concat_iff.1 hfront).resolve_left hne
      cases hnone.symm.trans (hdirs front' hproper)

/-- To make directories from the outside in adds directories and changes nothing else, also where it
stops. -/
theorem grown_ensureDirs (outer : List Step) (t : FileTree) :
    Grown t (Action.after (Files.ensureDirs outer t)) :=
  rel_ensureDirs Grown.refl Grown.trans (fun _ _ => grown_makeDir) t

/-- An open way is made, the outermost directory first. -/
theorem OpenWay.ensureDirs (h : t.OpenWay outer.reverse) :
    ∃ u, Files.ensureDirs outer t = .ok () u ∧ Grown t u ∧
      ∀ front, front <+: outer.reverse → u.node? (Location.follow front) = some .dir := by
  have hgrown := grown_ensureDirs outer t
  suffices hmade : ∃ u, Files.ensureDirs outer t = .ok () u ∧
      ∀ front, front <+: outer.reverse → u.node? (Location.follow front) = some .dir by
    obtain ⟨u, hrun, dirs⟩ := hmade
    rw [hrun] at hgrown
    exact ⟨u, hrun, hgrown, dirs⟩
  induction outer generalizing t with
  | nil => exact ⟨t, rfl, fun front hfront => by rw [List.prefix_nil.1 hfront]; exact node?_nil t⟩
  | cons step outer ih =>
      rw [List.reverse_cons] at h ⊢
      have above : t.OpenWay outer.reverse :=
        ⟨fun name hname => h.usable name (List.mem_append_left _ hname),
          fun front hfront => h.clear front (hfront.trans (List.prefix_append _ _))⟩
      have hgrown' := grown_ensureDirs outer t
      obtain ⟨u, hrun, dirs⟩ := ih above hgrown'
      rw [hrun] at hgrown'
      rw [Files.ensureDirs, List.reverse_cons]
      exact h.ensureDir ⟨u, hrun, hgrown', dirs⟩

/-- The steps that stay may be left out. -/
theorem OpenWay.proper {p : Path} (h : t.OpenWay p.steps) : t.OpenWay p.properSteps := by
  refine ⟨fun name hname => h.usable name (List.mem_filter.1 hname).1, fun front hfront => ?_⟩
  obtain ⟨front', hfront', rfl⟩ := List.prefix_filter_iff.1 hfront
  rw [follow_filter]
  exact h.clear front' hfront'

/-- Making the directories on a way changes nothing else. -/
theorem grownAt_ensureDirs (free : t.LinkFree []) (p : Path) :
    GrownAt (OnWay p) t (Action.after (Files.ensureDirs p.properSteps.reverse t)) := by
  refine rel_ensureDirs (R := fun t u => t.LinkFree [] → GrownAt (OnWay p) t u)
    (fun t _ => .refl _ t) (fun h h' free => ?_) (fun front hfront hmake free => ?_) t free
  · exact (h free).trans (h' (free.congr (h free).grown.sameLinks))
  · rw [List.reverse_reverse] at hfront
    exact (grownAt_makeDir free hmake).mono fun l hl => hl ▸ onWay_of_prefix_properSteps hfront

/-- An open way is made by making it without the steps that stay. -/
theorem OpenWay.ensureProperDirs {p : Path} (h : t.OpenWay p.steps) :
    ∃ u, Files.ensureDirs p.properSteps.reverse t = .ok () u ∧ Grown t u ∧
      ∀ front, front <+: p.steps → u.node? (Location.follow front) = some .dir := by
  have isOpen := h.proper
  rw [← List.reverse_reverse p.properSteps] at isOpen
  obtain ⟨u, hrun, grown, dirs⟩ := isOpen.ensureDirs
  rw [List.reverse_reverse] at dirs
  refine ⟨u, hrun, grown, fun front hfront => ?_⟩
  rw [← follow_filter]
  exact dirs _ (hfront.filter _)

/-- All directories on an open way to a name are made. -/
theorem OpenWay.ensureDirAll {p q : Path} (h : t.OpenWay q.steps)
    (hsteps : q.steps = p.steps ++ [.down name]) :
    ∃ u, Files.ensureDir q.steps (Files.ensureDirs q.properSteps.reverse.tail) t = .ok () u ∧
      ∀ front, front <+: q.steps → u.node? (Location.follow front) = some .dir := by
  have hproper : q.properSteps.reverse.tail = p.properSteps.reverse := by
    simp [Path.properSteps, hsteps]
  have above : t.OpenWay p.steps :=
    ⟨fun name hname => h.usable name (hsteps ▸ List.mem_append_left _ hname),
      fun front hfront => h.clear front (hsteps ▸ hfront.trans (List.prefix_append _ _))⟩
  rw [hsteps] at h ⊢
  rw [hproper]
  exact h.ensureDir above.ensureProperDirs

/-- At the end of an open way a directory can be made, with all above it. -/
theorem OpenWay.createDirAll {p q : Path} (h : t.OpenWay q.steps)
    (hsteps : q.steps = p.steps ++ [.down name]) (htext : checkText q = .ok ()) :
    ∃ u, Files.createDirAll q t = .ok () u := by
  obtain ⟨u, hmake, -⟩ := h.ensureDirAll hsteps
  rw [Files.createDirAll]
  split
  · exact ⟨t, rfl⟩
  · exact ⟨u, (Action.bind_of_ok (Files.ask_of_ok htext)).trans hmake⟩

/-! ### Blocked ways -/

/-- A way that is open one step further is not blocked. -/
theorem BlockedWay.not_openWay {e : IoError} (h : t.BlockedWay steps e) (step : Step) :
    ¬t.OpenWay (steps ++ [step]) := by
  intro isOpen
  have herror := h.refused .followed [step] (List.cons_ne_nil _ _)
  exact h.present (isOpen.eq_notFound herror)

/-- So it does not lead to a directory, in which one could stay. -/
theorem BlockedWay.not_dirs {e : IoError} (h : t.BlockedWay steps e) :
    ¬∀ front, front <+: steps → t.node? (Location.follow front) = some .dir := by
  intro dirs
  -- A step that stays adds nothing to the way, and so it would still be one of directories.
  refine h.not_openWay .here (openWay_of_dirs fun front hfront => ?_)
  rcases List.prefix_concat_iff.1 hfront with rfl | hproper
  · rw [Location.follow, List.foldl_append]
    exact dirs steps (List.prefix_refl _)
  · exact dirs front hproper

end PartitionStore.FileTree
