import PartitionStore.Proofs.FileTree.Course

/-!
# `PartitionStore.Proofs.FileTree.Outcomes`: all that an action on directories can do

Making a directory may fail half-way, and removing one may empty it only. Here is
what either leaves in the tree in every case, wherever the path leads.

* `grown_createDirAll`: where there was nothing there may be directories, and all
  else is as it was.
* `removeDirAll_cases`: either nothing changed, or what was at one location is gone
  with all that was below, except that an empty directory may be left of it.
* `Within`: that what changed did so at some places only, apart from new directories.
-/

set_option autoImplicit false

namespace PartitionStore.FileTree

variable {t u v : FileTree} {p : Path} {loc start : Location} {steps : List Step} {spot : Spot}
  {links : Nat} {name : String}

/-! ### Making directories -/

/-- The second tree has everything that the first one has, and maybe more directories. -/
def Grown (t u : FileTree) : Prop :=
  ∀ l, u.node? l = t.node? l ∨ t.node? l = none ∧ u.node? l = some .dir

/-- A tree has what it has. -/
theorem Grown.refl (t : FileTree) : Grown t t := fun _ => .inl rfl

/-- More directories and then more are more directories. -/
theorem Grown.trans (h : Grown t u) (h' : Grown u v) : Grown t v := by
  intro l
  rcases h' l with e | ⟨hnone, hdir⟩
  · rw [e]
    exact h l
  · rcases h l with e | ⟨-, hdir'⟩
    · exact .inr ⟨e ▸ hnone, hdir⟩
    · cases hnone.symm.trans hdir'

/-- What is there stays. -/
theorem Grown.eq_of_some (h : Grown t u) {node : Node} (hnode : t.node? loc = some node) :
    u.node? loc = some node := by
  rcases h loc with e | ⟨hnone, -⟩
  · rw [e, hnode]
  · cases hnone.symm.trans hnode

/-- No link comes or goes. -/
theorem Grown.sameLinks (h : Grown t u) : SameLinks t u := by
  refine .of_changed fun l hl target => ?_
  rcases h l with e | ⟨hnone, hdir⟩
  · exact absurd e hl
  · simp [hnone, hdir]

/-- A file that is read is read where there are more directories, too. -/
theorem Grown.read {data : Bytes} (h : Grown t u) (hslash : p.endsWithSlash = false)
    (hread : t.read p = .ok data) : u.read p = .ok data := by
  obtain ⟨htext, loc, hway⟩ := (read_eq_ok_iff hslash).1 hread
  refine (read_eq_ok_iff hslash).2 ⟨htext, loc, ?_⟩
  refine resolveSteps_frame (fun l hl => takesFile_of_none hl) (fun l hl => ?_) hway ?_
  · exact (h l).resolve_right fun ⟨hnone, _⟩ => hl hnone
  · intro hnone
    cases (show t.node? loc = _ from resolveSteps_isIn hway).symm.trans hnone

/-- A directory that is made is made where there was nothing. -/
theorem grown_makeDir (h : t.makeDir steps = .ok u) : Grown t u := by
  cases hspot : t.resolveSteps .itself steps with
  | error e => simp [makeDir, hspot, bind, Except.bind] at h
  | ok spot =>
      cases spot with
      | occupied loc node => simp [makeDir, hspot, bind, Except.bind] at h
      | vacant parent name =>
          obtain ⟨hname, hparent, hnone⟩ := resolveSteps_isIn hspot
          simp only [makeDir, hspot, bind, Except.bind, Except.ok.injEq] at h
          subst h
          intro l
          by_cases hl : l = name :: parent
          · rw [hl]
            exact .inr ⟨hnone, node?_place_self hname hparent (by simp [hnone])⟩
          · exact .inl (node?_place_of_ne _ _ _ _ hl)

section

variable {R : FileTree → FileTree → Prop} (refl : ∀ t, R t t)
  (trans : ∀ {t u v}, R t u → R u v → R t v)
include refl trans

/-- What holds between a tree and one with a new directory, and of what `parents` does, holds of
making a directory with those above it. The relation is one that chains. -/
theorem rel_ensureDir {parents : Files Unit} (hmake : ∀ {t u}, t.makeDir steps = .ok u → R t u)
    (hparents : ∀ t, R t (Action.after (parents t))) (t : FileTree) :
    R t (Action.after (Files.ensureDir steps parents t)) := by
  rw [Files.ensureDir]
  split
  · rename_i u hmade
    exact hmake hmade
  · have habove := hparents t
    split
    · rename_i e u hrun
      rwa [hrun] at habove
    · rename_i u hrun
      rw [hrun] at habove
      split
      · rename_i v hmade
        exact trans habove (hmake hmade)
      · -- What is asked then, whether the directory is there, changes nothing.
        dsimp only
        split <;> exact habove
  · dsimp only
    split <;> exact refl t

/-- The steps come innermost first, so those above one of them come after it. -/
theorem rel_ensureDirs {outer : List Step}
    (hmake : ∀ {t u} front, front <+: outer.reverse → t.makeDir front = .ok u → R t u)
    (t : FileTree) : R t (Action.after (Files.ensureDirs outer t)) := by
  induction outer generalizing t with
  | nil => exact refl t
  | cons step outer ih =>
      refine rel_ensureDir refl trans (hmake _ (List.prefix_refl _)) (ih fun front hfront => ?_) t
      refine hmake front (hfront.trans ?_)
      rw [List.reverse_cons]
      exact List.prefix_append _ _

/-- What making single directories on the way comes to, making one with all above it comes to. -/
theorem rel_createDirAll {p : Path}
    (hmake : ∀ {t u} front, front <+: p.properSteps ∨ front = p.steps →
      t.makeDir front = .ok u → R t u) (t : FileTree) :
    R t (Action.after (Files.createDirAll p t)) := by
  rw [Files.createDirAll]
  split
  · exact refl t
  have hsame : Action.after (Files.ask (fun _ => checkText p) t) = t := by
    rw [Files.ask]
    split <;> rfl
  cases hask : Files.ask (fun _ => checkText p) t with
  | error e u =>
      rw [hask] at hsame
      obtain rfl : u = t := hsame
      rw [Action.bind_of_error hask]
      exact refl u
  | ok _ u =>
      rw [hask] at hsame
      obtain rfl : u = t := hsame
      rw [Action.bind_of_ok hask]
      refine rel_ensureDir refl trans (hmake _ (.inr rfl)) (rel_ensureDirs refl trans ?_) u
      intro t u front hfront
      rw [List.tail_reverse, List.reverse_reverse] at hfront
      exact hmake front (.inl (hfront.trans (List.dropLast_prefix _)))

end

/-- Nothing else comes of making a directory than directories. -/
theorem grown_createDirAll (p : Path) (t : FileTree) :
    Grown t (Action.after (Files.createDirAll p t)) :=
  rel_createDirAll Grown.refl Grown.trans (fun _ _ => grown_makeDir) t

/-! ### Walking where something is missing -/

/-- Where nodes are missing a walk ends as it did, or it ends at the first of them. -/
theorem walk_itself_of_missing {jump jump' : Location → List Step → Except IoError Spot}
    (missing : ∀ l, u.node? l = t.node? l ∨ u.node? l = none)
    (hjump : ∀ start steps, jump start steps = .ok spot →
      jump' start steps = .ok spot ∨ jump' start steps = .error .notFound ∨
        ∃ parent name, spot.loc = name :: parent ∧ jump' start steps = .ok (.vacant parent name))
    (h : t.walk .itself jump start steps = .ok spot) :
    u.walk .itself jump' start steps = .ok spot ∨
      u.walk .itself jump' start steps = .error .notFound ∨
        ∃ parent name, spot.loc = name :: parent ∧
          u.walk .itself jump' start steps = .ok (.vacant parent name) := by
  induction steps generalizing start with
  | nil => exact .inl h
  | cons step rest ih =>
      cases step with
      | here => exact ih h
      | up => exact ih h
      | down name =>
          obtain ⟨usable, down⟩ := walk_down_eq_ok_iff.1 h
          rcases missing (name :: start) with hsame | hnone
          · cases down with
            | vacant free atEnd here =>
                exact .inl (walk_down_eq_ok_iff.2 ⟨usable, .vacant (hsame.trans free) atEnd here⟩)
            | dir isDir goesOn => simpa [walk, usable, hsame.trans isDir] using ih goesOn
            | file isFile atEnd here =>
                exact .inl (walk_down_eq_ok_iff.2 ⟨usable, .file (hsame.trans isFile) atEnd here⟩)
            | itself isLink atEnd here =>
                exact .inl (walk_down_eq_ok_iff.2 ⟨usable, .itself (hsame.trans isLink) atEnd here⟩)
            | link isLink notItself _ follows =>
                have hrest : rest ≠ [] := fun e => notItself ⟨e, rfl⟩
                simpa [walk, usable, hsame.trans isLink, hrest] using hjump _ _ follows
          · by_cases hrest : rest = []
            · -- The name is the last one, so this is where the walk ended.
              subst hrest
              refine .inr (.inr ⟨start, name, ?_, by simp [walk, usable, hnone]⟩)
              cases down with
              | vacant _ _ here | file _ _ here | itself _ _ here => rw [here]; rfl
              | dir _ goesOn => cases goesOn; rfl
              | link _ notItself => exact absurd ⟨rfl, rfl⟩ notItself
            · exact .inr (.inl (by simp [walk, usable, hnone, hrest]))

/-- Where some nodes are missing a walk ends where it did, or at a free place, or for something
missing, by induction on the links. -/
theorem walkWithin_itself_of_missing (missing : ∀ l, u.node? l = t.node? l ∨ u.node? l = none)
    (h : t.walkWithin .itself links start steps = .ok spot) :
    u.walkWithin .itself links start steps = .ok spot ∨
      u.walkWithin .itself links start steps = .error .notFound ∨
        ∃ parent name, spot.loc = name :: parent ∧
          u.walkWithin .itself links start steps = .ok (.vacant parent name) := by
  induction links generalizing start steps with
  | zero => exact walk_itself_of_missing missing (fun _ _ h => by simp at h) h
  | succ links ih => exact walk_itself_of_missing missing (fun _ _ h => ih h) h

/-- A path that ends in a name leads, taken for itself, to an entry of that name. -/
theorem exists_loc_eq_cons (hlast : steps.getLast? = some (.down name))
    (h : t.resolveSteps .itself steps = .ok spot) : ∃ parent, spot.loc = name :: parent := by
  obtain ⟨front, rfl⟩ := List.getLast?_eq_some_iff.1 hlast
  obtain ⟨parent, hfront⟩ := exists_resolveSteps_of_append (by simp) h
  refine ⟨parent, ?_⟩
  cases hname : isEntryName name with
  | false =>
      rw [resolveSteps_down_of_unusable .itself hfront hname] at h
      cases h
  | true =>
      rw [resolveSteps_down .itself hfront hname fun hne => absurd rfl hne] at h
      cases hnode : t.node? (name :: parent) <;>
        · simp only [hnode, Except.ok.injEq] at h
          rw [← h]
          rfl

/-! ### Removing directories -/

/-- From `t` to `u` what was at the location is gone with all that was below it, and nothing
else, except that an empty directory may be left. -/
structure Gone (loc : Location) (t u : FileTree) : Prop where
  outside : ∀ l, ¬loc <:+ l → u.node? l = t.node? l
  inside : ∀ l, loc <:+ l → u.node? l = none ∨ l = loc ∧ u.node? l = some .dir
  differs : u ≠ t

/-- Without a closing slash a path finds exactly the entry that it names. -/
theorem find_itself_eq_ok_iff (hslash : p.endsWithSlash = false) {node : Node} :
    t.find .itself p = .ok (loc, node) ↔ t.resolveEntry p = .ok (.occupied loc node) := by
  rw [FileTree.find, FileTree.resolve, FileTree.resolveEntry, Path.demandingSteps, hslash]
  cases checkText p with
  | error e => simp [bind, Except.bind]
  | ok _ =>
      cases hspot : t.resolveSteps .itself p.steps with
      | error e => simp [bind, Except.bind, hspot]
      | ok spot => cases spot <;> simp [bind, Except.bind, hspot]

/-- The entry that a path names is where its steps lead. -/
theorem resolveSteps_of_resolveEntry (h : t.resolveEntry p = .ok spot) :
    checkText p = .ok () ∧ t.resolveSteps .itself p.steps = .ok spot := by
  rw [FileTree.resolveEntry] at h
  cases htext : checkText p with
  | error e => simp [htext, bind, Except.bind] at h
  | ok _ => exact ⟨rfl, by simpa [htext, bind, Except.bind] using h⟩

/-- What a name below a path leads to, taken for itself, is the entry that it points to. -/
theorem PointsTo.loc_eq_of_find {dir : Path} {node : Node} (points : t.PointsTo dir start)
    (hname : Path.isPlainName name = true)
    (hfind : t.find .itself (dir.join name) = .ok (loc, node)) : loc = name :: start := by
  have hslash := Path.endsWithSlash_join dir hname
  obtain ⟨htext, hspot⟩ := resolveSteps_of_resolveEntry ((find_itself_eq_ok_iff hslash).1 hfind)
  have named := points.namesEntry hname htext hspot
  rw [named.resolveSteps .itself fun hne => absurd rfl hne] at hspot
  cases hnode : t.node? (name :: start) with
  | none => simp [hnode] at hspot
  | some node' =>
      simp only [hnode, Except.ok.injEq, Spot.occupied.injEq] at hspot
      exact hspot.1.symm

/-- A directory that was cleared is looked up again, or it is not found: the way to it may go
through what was in it. -/
theorem resolveEntry_clear (h : t.resolveEntry p = .ok (.occupied loc .dir)) :
    (t.clear loc).resolveEntry p = .ok (.occupied loc .dir) ∨
      (t.clear loc).resolveEntry p = .error .notFound := by
  obtain ⟨htext, hsteps⟩ := resolveSteps_of_resolveEntry h
  have hdir : (t.clear loc).node? loc = some .dir := by
    rw [node?_clear_of_not_inside fun hin => hin.2 rfl]
    exact resolveSteps_isIn hsteps
  have missing : ∀ l, (t.clear loc).node? l = t.node? l ∨ (t.clear loc).node? l = none := by
    intro l
    rw [node?_clear]
    split
    · exact .inr rfl
    · exact .inl rfl
  have hentry : (t.clear loc).resolveEntry p = (t.clear loc).resolveSteps .itself p.steps := by
    rw [FileTree.resolveEntry, htext]
    rfl
  rw [hentry]
  rw [resolveSteps_eq] at hsteps ⊢
  rcases walkWithin_itself_of_missing missing hsteps with hsame | hnot | ⟨parent, name, hloc, hvacant⟩
  · exact .inl hsame
  · exact .inr hnot
  · -- The directory itself is not missing.
    have hnone := (walkWithin_isIn (node?_nil _) hvacant).2.2
    rw [← hloc] at hnone
    cases hdir.symm.trans hnone

/-- What was pruned is gone. -/
theorem Gone.of_pruned {node : Node} (hthere : t.node? loc = some node)
    (hnode : ∀ l, u.node? l = if loc <:+ l then none else t.node? l) : Gone loc t u := by
  refine ⟨fun l hl => ?_, fun l hl => ?_, fun e => ?_⟩
  · rw [hnode, if_neg hl]
  · rw [hnode, if_pos hl]
    exact .inl rfl
  · have hself := hnode loc
    rw [e, hthere, if_pos (List.suffix_refl _)] at hself
    cases hself

/-- Removing what a path that ends in a name leads to, taken for itself, either fails and
changes nothing or leaves none of it. -/
theorem removeDirAll_cases (hlast : p.steps.getLast? = some (.down name))
    (hslash : p.endsWithSlash = false) (t : FileTree) :
    ((∃ e, Files.removeDirAll p t = .error e t) ∧
        ∀ loc node, t.find .itself p = .ok (loc, node) → ∃ data, node = .file data) ∨
      ∃ loc node u, t.find .itself p = .ok (loc, node) ∧ (∀ data, node ≠ .file data) ∧
        Files.removeDirAll p t = .ok () u ∧ Gone loc t u := by
  cases hfind : t.find .itself p with
  | error e =>
      refine .inl ⟨⟨e, ?_⟩, by simp⟩
      rw [Files.removeDirAll, hfind]
  | ok found =>
      obtain ⟨loc, node⟩ := found
      have hentry := (find_itself_eq_ok_iff hslash).1 hfind
      have hsteps := (resolveSteps_of_resolveEntry hentry).2
      have hthere : t.node? loc = some node := resolveSteps_isIn hsteps
      obtain ⟨parent, hloc⟩ := exists_loc_eq_cons hlast hsteps
      obtain rfl : loc = name :: parent := hloc
      cases node with
      | file data =>
          refine .inl ⟨⟨_, by rw [Files.removeDirAll, hfind]⟩, ?_⟩
          intro loc' node' h
          cases h
          exact ⟨data, rfl⟩
      | link target =>
          exact .inr ⟨_, _, _, rfl, by simp, by rw [Files.removeDirAll, hfind],
            .of_pruned hthere (node?_prune_cons t name parent)⟩
      | dir =>
          rcases resolveEntry_clear hentry with hagain | hnot
          · have hnode := node?_prune_clear t name parent
            refine .inr ⟨_, _, (t.clear (name :: parent)).prune (name :: parent), rfl, by simp, ?_,
              .of_pruned hthere hnode⟩
            rw [Files.removeDirAll, hfind]
            simp only [Files.removeEmptied, hagain, hlast]
          · -- The emptied directory is left, since the way to it went through what was in it.
            refine .inr ⟨_, _, t.clear (name :: parent), rfl, by simp, ?_, ?_, ?_, ?_⟩
            · rw [Files.removeDirAll, hfind]
              simp only [Files.removeEmptied, hnot]
            · intro l hl
              exact node?_clear_of_not_inside fun hin => hl hin.1
            · intro l hl
              by_cases hself : l = name :: parent
              · subst hself
                refine .inr ⟨rfl, ?_⟩
                rw [node?_clear_of_not_inside fun hin => hin.2 rfl, hthere]
              · exact .inl (by rw [node?_clear, if_pos ⟨hl, hself⟩])
            · intro e
              rw [e, hentry] at hnot
              cases hnot

/-- If no links were there, the links are what they were. -/
theorem Gone.sameLinks (gone : Gone loc t u) (free : t.LinkFree loc) : SameLinks t u := by
  refine .of_changed fun l hl target => ?_
  by_cases hin : loc <:+ l
  · refine ⟨?_, free l target hin⟩
    rcases gone.inside l hin with hnone | ⟨-, hdir⟩
    · simp [hnone]
    · simp [hdir]
  · exact absurd (gone.outside l hin) hl

/-! ### Changes at some places only -/

/-- From `t` to `u` nothing changed but at the places `S`, except that directories were made. No
link was made or removed. -/
structure Within (S : Location → Prop) (t u : FileTree) : Prop where
  links : SameLinks t u
  outside : ∀ l, ¬S l → u.node? l = t.node? l ∨ t.node? l = none ∧ u.node? l = some .dir

namespace Within

variable {S S' : Location → Prop}

/-- Nothing changed. -/
theorem refl (S : Location → Prop) (t : FileTree) : Within S t t :=
  ⟨.refl t, fun _ _ => .inl rfl⟩

/-- New directories may be anywhere. -/
theorem of_grown (grown : Grown t u) : Within S t u := ⟨grown.sameLinks, fun l _ => grown l⟩

/-- What was at a location, or below it, may be gone if there was no link among it. -/
theorem of_gone (gone : Gone loc t u) (free : t.LinkFree loc) : Within (loc <:+ ·) t u :=
  ⟨gone.sameLinks free, fun l hl => .inl (gone.outside l hl)⟩

/-- What changed at some places changed at more of them. -/
theorem mono (h : Within S t u) (hsub : ∀ l, S l → S' l) : Within S' t u :=
  ⟨h.links, fun l hl => h.outside l fun hS => hl (hsub l hS)⟩

/-- What is at another place stays there. -/
theorem eq_of_some (h : Within S t u) (hloc : ¬S loc) {node : Node}
    (hnode : t.node? loc = some node) : u.node? loc = some node := by
  rcases h.outside loc hloc with e | ⟨hnone, -⟩
  · rw [e, hnode]
  · cases hnone.symm.trans hnode

/-- Changes at some places and again at some of them are changes at these places. -/
theorem trans (h : Within S t u) (h' : Within S u v) : Within S t v := by
  refine ⟨h.links.trans h'.links, fun l hl => ?_⟩
  rcases h.outside l hl with e | ⟨hnone, hdir⟩
  · rw [← e]
    exact h'.outside l hl
  · exact .inr ⟨hnone, h'.eq_of_some hl hdir⟩

end Within

end PartitionStore.FileTree
