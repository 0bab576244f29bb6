import PartitionStore.Proofs.FileTree.Entry
import PartitionStore.Proofs.Path

/-!
# `PartitionStore.Proofs.FileTree.Directory`: paths to directories

`LeadsTo t p loc` says that the path `p` leads to the directory at `loc`, and
that it would if the directory were empty: the way does not go through anything
inside. So it leads there whatever becomes of the directory's contents
(`LeadsTo.congr`), and what is in the directory is named by the paths below it
(`LeadsTo.namesEntry`, `LeadsTo.join`).

* `createDirAll_ok`, `createDirAll_of_unusable`: making a directory in one.
* `removeDirAll_ok`: removing one with everything in it.
-/

set_option autoImplicit false

namespace PartitionStore

/-- Strictly below `loc`. -/
def Location.Inside (loc l : Location) : Prop := loc <:+ l ∧ l ≠ loc

/-- An entry is inside its directory. -/
theorem Location.inside_cons (name : String) (loc : Location) : Location.Inside loc (name :: loc) :=
  ⟨List.suffix_cons .., by simp⟩

/-- What is inside an entry is inside the directory. -/
theorem Location.inside_of_inside_cons {name : String} {loc l : Location}
    (h : Location.Inside (name :: loc) l) : Location.Inside loc l := by
  refine ⟨(List.suffix_cons ..).trans h.1, ?_⟩
  rintro rfl
  exact FileTree.not_cons_suffix name l h.1

/-- So are the entries of an entry. -/
theorem Location.inside_cons_cons (file name : String) (loc : Location) :
    Location.Inside loc (file :: name :: loc) :=
  Location.inside_of_inside_cons (Location.inside_cons file (name :: loc))

namespace FileTree

/-- The path leads to the directory at `loc`, without going through anything in it. -/
structure LeadsTo (t : FileTree) (p : Path) (loc : Location) : Prop where
  room : p.HasRoom 0
  way : (t.clear loc).resolveSteps .followed p.steps = .ok (.occupied loc .dir)

section

variable {t u : FileTree} {p q : Path} {loc parent : Location} {name other : String}

/-- In a cleared directory there is nothing, and everything else is as it was. -/
theorem node?_clear_of_not_inside {l : Location} (h : ¬Location.Inside loc l) :
    (t.clear loc).node? l = t.node? l := by
  rw [node?_clear]
  exact if_neg h

/-- In a cleared directory there is nothing in the way. -/
theorem takesFile_clear {l : Location} (h : Location.Inside loc l) : (t.clear loc).TakesFile l := by
  refine takesFile_of_none ?_
  rw [node?_clear]
  exact if_pos h

/-- What happens inside a directory does not change which paths lead to it. -/
theorem LeadsTo.congr (h : t.LeadsTo p loc)
    (same : ∀ l, ¬Location.Inside loc l → u.node? l = t.node? l) : u.LeadsTo p loc := by
  -- Cleared, the two trees are the same one, and the way is said of that.
  have hclear : u.clear loc = t.clear loc := by
    refine ext_node? fun l => ?_
    rw [node?_clear, node?_clear]
    split
    · rfl
    · rename_i hl
      exact same l hl
  exact ⟨h.room, hclear ▸ h.way⟩

/-- Nor do changes at two places in it. -/
theorem LeadsTo.congr_of_ne (h : t.LeadsTo p loc) {a b : Location} (ha : Location.Inside loc a)
    (hb : Location.Inside loc b) (same : ∀ l, l ≠ a → l ≠ b → u.node? l = t.node? l) :
    u.LeadsTo p loc := by
  refine h.congr fun l hl => same l ?_ ?_
  · intro e
    exact hl (e ▸ ha)
  · intro e
    exact hl (e ▸ hb)

/-- The steps of a path that leads to a directory do so. -/
theorem LeadsTo.resolveSteps (h : t.LeadsTo p loc) :
    t.resolveSteps .followed p.steps = .ok (.occupied loc .dir) :=
  resolveSteps_frame (fun _ hl => takesFile_clear hl)
    (fun _ hl => (node?_clear_of_not_inside hl).symm) h.way fun hloc => hloc.2 rfl

/-- What it leads to is a directory of the tree. -/
theorem LeadsTo.isDir_node (h : t.LeadsTo p loc) : t.node? loc = some .dir :=
  resolveSteps_isIn h.resolveSteps

/-- The directory is found. -/
theorem LeadsTo.find (h : t.LeadsTo p loc) : t.find .followed p = .ok (loc, .dir) := by
  have hresolve : t.resolve .followed p = .ok (.occupied loc .dir) := by
    rw [FileTree.resolve, Path.checkText_of_hasRoom h.room, Path.demandingSteps, h.room.noSlash]
    exact h.resolveSteps
  rw [FileTree.find, hresolve]
  rfl

/-- So it is there. -/
theorem LeadsTo.exists (h : t.LeadsTo p loc) : t.exists p = true := by
  rw [FileTree.exists, h.find]
  rfl

/-- It is a directory. -/
theorem LeadsTo.isDir (h : t.LeadsTo p loc) : t.isDir p = true := by
  rw [FileTree.isDir, h.find]

/-- Its entries are listed. -/
theorem LeadsTo.list (h : t.LeadsTo p loc) : t.list p = .ok (t.children loc) := by
  rw [FileTree.list, h.find]
  rfl

/-- Nothing is inside an empty directory, at any depth. -/
theorem node?_of_inside (hempty : ∀ name, t.node? (name :: loc) = none) {l : Location}
    (h : Location.Inside loc l) : t.node? l = none := by
  obtain ⟨⟨inner, rfl⟩, hne⟩ := h
  rcases List.eq_nil_or_concat inner with rfl | ⟨inner, name, rfl⟩
  · exact absurd rfl hne
  · rw [List.concat_eq_append, List.append_assoc, List.singleton_append]
    by_cases hinner : inner = []
    · rw [hinner]
      exact hempty name
    · exact node?_below (by simp [hempty]) hinner

/-- A path under which an empty directory is listed does not go through anything in it. -/
theorem leadsTo_of_list_nil (hslash : p.endsWithSlash = false) (h : t.list p = .ok []) :
    ∃ loc, t.LeadsTo p loc ∧ ∀ name, t.node? (name :: loc) = none := by
  have htext : checkText p = .ok () := by
    cases htext : checkText p with
    | ok _ => rfl
    | error e =>
        simp [FileTree.list, FileTree.find, FileTree.resolve, htext, bind, Except.bind] at h
  have hresolve : t.resolve .followed p = t.resolveSteps .followed p.steps := by
    rw [FileTree.resolve, htext, Path.demandingSteps, hslash]
    rfl
  rw [FileTree.list, FileTree.find, hresolve] at h
  cases hsteps : t.resolveSteps .followed p.steps with
  | error e => simp [hsteps, bind, Except.bind] at h
  | ok spot =>
      cases spot with
      | vacant parent name => simp [hsteps, bind, Except.bind] at h
      | occupied loc node =>
          cases node with
          | file data => simp [hsteps, bind, Except.bind] at h
          | link target => simp [hsteps, bind, Except.bind] at h
          | dir =>
              have hchildren : t.children loc = [] := by
                simpa [hsteps, bind, Except.bind] using h
              have hdir : t.node? loc = some .dir := resolveSteps_isIn hsteps
              have hempty : ∀ name, t.node? (name :: loc) = none := by
                intro name
                cases hnode : t.node? (name :: loc) with
                | none => rfl
                | some node =>
                    have := (mem_children_iff hdir).2 hnode
                    simp [hchildren] at this
              -- Clearing an empty directory does nothing, so the way is one that goes round it.
              have hclear : t.clear loc = t := by
                refine ext_node? fun l => ?_
                rw [node?_clear]
                split
                · rename_i hinside
                  exact (node?_of_inside hempty hinside).symm
                · rfl
              exact ⟨loc, ⟨Path.hasRoom_of_checkText htext hslash, hclear.symm ▸ hsteps⟩, hempty⟩

/-- Dots lead nowhere but to the top. -/
theorem leadsTo_dots (t : FileTree) {n : Nat} (h : 2 * n + 1 ≤ Path.maxBytes) :
    t.LeadsTo (Path.dots n) [] := by
  refine ⟨Path.hasRoom_dots_iff.2 h, ?_⟩
  clear h
  -- Each dot is one more step that stays where it is.
  induction n with
  | zero => rfl
  | succ n ih =>
      have hsteps : (Path.dots (n + 1)).steps = (Path.dots n).steps ++ [.here] := by
        have hlast : "/.".toList = ['/', '.'] := rfl
        rw [Path.steps, Path.dots, String.toList_append, hlast, Text.pieces_append_separator,
          List.filterMap_append]
        rfl
      rw [hsteps]
      exact resolveSteps_here .followed ih

/-! ### Names in the directory -/

/-- A name that an entry can have is one step down. -/
theorem isPlainName_of_isEntryName (h : isEntryName name = true) :
    Path.isPlainName name = true := by
  simp only [isEntryName, Bool.and_eq_true] at h
  exact h.1.1

/-- A path composed with such a name names the entry, if there is room for it. -/
theorem LeadsTo.namesEntry (h : t.LeadsTo p loc) (hname : isEntryName name = true)
    (room : (p.join name).HasRoom 0) : t.NamesEntry (p.join name) loc name := by
  exact ⟨Path.checkText_of_hasRoom room, room.noSlash, hname, p.steps,
    Path.steps_join (isPlainName_of_isEntryName hname), h.resolveSteps⟩

/-- Behind a path that names a directory a name is that of an entry of the directory. -/
theorem NamesEntry.join (h : t.NamesEntry p parent name) (hdir : t.node? (name :: parent) = some .dir)
    (hother : isEntryName other = true) (htext : checkText (p.join other) = .ok ()) :
    t.NamesEntry (p.join other) (name :: parent) other := by
  have hplain := isPlainName_of_isEntryName hother
  have hway := h.resolveSteps .followed (by simp [hdir])
  rw [hdir] at hway
  exact ⟨htext, Path.endsWithSlash_join _ hplain, hother, p.steps, Path.steps_join hplain, hway⟩

/-- Clearing a directory in the directory changes neither. -/
theorem LeadsTo.clear_below (h : t.LeadsTo p loc) (hdir : t.node? (name :: loc) = some .dir) :
    (t.clear (name :: loc)).LeadsTo p loc ∧
      (t.clear (name :: loc)).node? (name :: loc) = some .dir := by
  constructor
  · refine h.congr fun l hl => node?_clear_of_not_inside ?_
    intro hin
    exact hl (Location.inside_of_inside_cons hin)
  · rw [node?_clear_of_not_inside fun hin => hin.2 rfl, hdir]

/-- A directory in the directory is led to by the path below. -/
theorem LeadsTo.join (h : t.LeadsTo p loc) (hdir : t.node? (name :: loc) = some .dir)
    (room : (p.join name).HasRoom 0) : t.LeadsTo (p.join name) (name :: loc) := by
  have hname := isEntryName_of_node? hdir
  obtain ⟨hcleared, hdir'⟩ := h.clear_below hdir
  have hentry := (hcleared.namesEntry hname room).resolveSteps .followed (by simp [hdir'])
  rw [hdir'] at hentry
  exact ⟨room, hentry⟩

/-- A plain name behind a path is one step more. -/
theorem find_join {last : LastLink} (hplain : Path.isPlainName name = true)
    (htext : checkText (p.join name) = .ok ()) :
    t.find last (p.join name) =
      (t.resolveSteps last (p.steps ++ [.down name])).bind fun
        | .occupied there node => .ok (there, node)
        | .vacant _ _ => .error .notFound := by
  rw [FileTree.find, FileTree.resolve, htext, Path.demandingSteps, Path.endsWithSlash_join _ hplain,
    Path.steps_join hplain]
  rfl

/-- What a path leads to that goes two names down from a directory, if there are no links. -/
theorem find_below (hway : t.resolveSteps .followed p.steps = .ok (.occupied loc .dir))
    (hplain : Path.isPlainName name = true) (hother : isEntryName other = true)
    (htext : checkText ((p.join name).join other) = .ok ())
    (hdirLink : ∀ target, t.node? (name :: loc) ≠ some (.link target)) {last : LastLink}
    (hlink : last ≠ .itself → ∀ target, t.node? (other :: name :: loc) ≠ some (.link target)) :
    t.find last ((p.join name).join other) =
      if isEntryName name = false then .error .nameTooLong
      else match t.node? (name :: loc), t.node? (other :: name :: loc) with
        | some (.file _), _ => .error .notADirectory
        | _, some node => .ok (other :: name :: loc, node)
        | _, none => .error .notFound := by
  have hplain' := isPlainName_of_isEntryName hother
  have hsteps : (p.join name).steps ++ [.down other] = p.steps ++ [.down name, .down other] := by
    rw [Path.steps_join hplain, List.append_assoc]
    rfl
  rw [find_join hplain' htext, hsteps]
  rw [resolveSteps_eq] at hway ⊢
  obtain ⟨left, -, e⟩ := @walkWithin_append _ last _ _ _ _ _
    (List.cons_ne_nil (Step.down name) [.down other]) hway
  rw [e]
  cases hname : isEntryName name with
  | false => cases left <;> simp [walkWithin, walk, hname, Except.bind]
  | true =>
      cases hdir : t.node? (name :: loc) with
      | none =>
          have hnone : t.node? ([other] ++ name :: loc) = none :=
            node?_below (by simp [hdir]) (List.cons_ne_nil _ _)
          rw [List.singleton_append] at hnone
          cases left <;> simp [walkWithin, walk, hname, hdir, hnone, Except.bind]
      | some node =>
          cases node with
          | link target => exact absurd hdir (hdirLink target)
          | file data => cases left <;> simp [walkWithin, walk, hname, hdir, Except.bind]
          | dir =>
              -- From the directory it is one name more.
              have hdown : t.walkWithin last left loc [.down name, .down other] =
                  t.walkWithin last left (name :: loc) [.down other] := by
                cases left <;> simp [walkWithin, walk, hname, hdir]
              rw [hdown, walkWithin_down hother hlink]
              cases t.node? (other :: name :: loc) <;> rfl

/-- What is read there is a file two levels down from the directory. -/
theorem node?_of_read_below {data : Bytes}
    (hway : t.resolveSteps .followed p.steps = .ok (.occupied loc .dir))
    (hplain : Path.isPlainName name = true) (hother : isEntryName other = true)
    (htext : checkText ((p.join name).join other) = .ok ())
    (hdirLink : ∀ target, t.node? (name :: loc) ≠ some (.link target))
    (hlink : ∀ target, t.node? (other :: name :: loc) ≠ some (.link target))
    (h : t.read ((p.join name).join other) = .ok data) :
    t.node? (other :: name :: loc) = some (.file data) := by
  rw [FileTree.read, find_below hway hplain hother htext hdirLink fun _ => hlink] at h
  split at h
  · cases h
  · split at h
    · cases h
    · rename_i node hnode _
      cases node with
      | file contents =>
          cases h
          exact hnode
      | _ => cases h
    · cases h

/-- Below what is missing there is nothing to be found. -/
theorem LeadsTo.find_below_none (h : t.LeadsTo p loc) (hplain : Path.isPlainName name = true)
    (hnone : t.node? (name :: loc) = none) (hother : isEntryName other = true)
    (room : ((p.join name).join other).HasRoom 0) (last : LastLink) :
    t.find last ((p.join name).join other) =
      .error (if isEntryName name then .notFound else .nameTooLong) := by
  have hbelow : t.node? ([other] ++ name :: loc) = none :=
    node?_below (by simp [hnone]) (List.cons_ne_nil _ _)
  rw [List.singleton_append] at hbelow
  rw [find_below h.resolveSteps hplain hother (Path.checkText_of_hasRoom room) (by simp [hnone])
    fun _ => by simp [hbelow]]
  cases isEntryName name <;> simp [hnone, hbelow]

/-! ### Making a directory -/

/-- A path that is too long is refused. -/
theorem createDirAll_of_checkText {e : IoError} (hne : q.text ≠ "") (h : checkText q = .error e)
    (t : FileTree) : Files.createDirAll q t = .error e t := by
  rw [Files.createDirAll, if_neg hne]
  exact Action.bind_of_error (by simp only [Files.ask, h])

/-- Where something is there already no directory is made. What is there does if it leads to a
directory, and otherwise it is in the way. -/
theorem createDirAll_of_some {node : Node} (h : t.NamesEntry q parent name)
    (hnode : t.node? (name :: parent) = some node) :
    (∃ loc, t.resolveSteps .followed q.steps = .ok (.occupied loc .dir) ∧
        Files.createDirAll q t = .ok () t) ∨
      (∀ loc, t.resolveSteps .followed q.steps ≠ .ok (.occupied loc .dir)) ∧
        Files.createDirAll q t = .error .alreadyExists t := by
  have hitself := h.resolveSteps .itself fun hne => absurd rfl hne
  rw [hnode] at hitself
  have hmake : t.makeDir q.steps = .error .alreadyExists := by
    rw [makeDir, hitself]
    rfl
  rw [Files.createDirAll, if_neg h.text_ne, Action.bind_of_ok (Files.ask_of_ok h.text),
    Files.ensureDir]
  simp only [hmake]
  split
  · rename_i loc hway
    exact .inl ⟨loc, hway, rfl⟩
  · rename_i hother
    exact .inr ⟨hother, rfl⟩

/-- A directory that is there is left as it is. -/
theorem createDirAll_of_isDir (h : t.NamesEntry q parent name)
    (hdir : t.node? (name :: parent) = some .dir) : Files.createDirAll q t = .ok () t := by
  have hway := h.resolveSteps .followed (by simp [hdir])
  rw [hdir] at hway
  rcases createDirAll_of_some h hdir with ⟨-, -, hmade⟩ | ⟨hother, -⟩
  · exact hmade
  · exact absurd hway (hother _)

/-- A directory is made where there is nothing. -/
theorem createDirAll_ok (h : t.NamesEntry q parent name)
    (hnone : t.node? (name :: parent) = none) :
    Files.createDirAll q t = .ok () (t.place parent name .dir) := by
  have hitself := h.resolveSteps .itself fun hne => absurd rfl hne
  rw [hnone] at hitself
  have hmake : t.makeDir q.steps = .ok (t.place parent name .dir) := by
    rw [makeDir, hitself]
    rfl
  rw [Files.createDirAll, if_neg h.text_ne, Action.bind_of_ok (Files.ask_of_ok h.text),
    Files.ensureDir]
  simp only [hmake]

/-- A name that no entry can have is refused. -/
theorem createDirAll_of_unusable
    (hway : t.resolveSteps .followed p.steps = .ok (.occupied loc .dir))
    (hplain : Path.isPlainName name = true) (hname : isEntryName name = false)
    (htext : checkText (p.join name) = .ok ()) :
    Files.createDirAll (p.join name) t = .error .nameTooLong t := by
  have hrefused (last : LastLink) :
      t.resolveSteps last (p.join name).steps = .error .nameTooLong := by
    rw [Path.steps_join hplain]
    exact resolveSteps_down_of_unusable last hway hname
  have hmake : t.makeDir (p.join name).steps = .error .nameTooLong := by
    rw [makeDir, hrefused]
    rfl
  rw [Files.createDirAll, if_neg (Path.text_join_ne p hplain),
    Action.bind_of_ok (Files.ask_of_ok htext), Files.ensureDir]
  simp only [hmake, hrefused]

/-- A file is in the way. -/
theorem createDirAll_of_file {data : Bytes} (h : t.NamesEntry q parent name)
    (hfile : t.node? (name :: parent) = some (.file data)) :
    Files.createDirAll q t = .error .alreadyExists t := by
  have hway := h.resolveSteps .followed (by simp [hfile])
  rw [hfile] at hway
  rcases createDirAll_of_some h hfile with ⟨loc, hdir, -⟩ | ⟨-, hrefused⟩
  · cases hway.symm.trans hdir
  · exact hrefused

/-! ### Removing a directory -/

/-- A directory is removed with everything in it, since the way to it does not go through
anything that is removed before it. -/
theorem removeDirAll_ok (h : t.LeadsTo p loc) (hdir : t.node? (name :: loc) = some .dir)
    (room : (p.join name).HasRoom 0) :
    Files.removeDirAll (p.join name) t = .ok () ((t.clear (name :: loc)).prune (name :: loc)) := by
  have hname := isEntryName_of_node? hdir
  have hentry := h.namesEntry hname room
  obtain ⟨hcleared, hdir'⟩ := h.clear_below hdir
  -- What is looked up again after the clearing is still the directory.
  have hresolve := (hcleared.namesEntry hname room).resolveEntry
  rw [hdir'] at hresolve
  have hlast : (p.join name).steps.getLast? = some (.down name) := by
    rw [Path.steps_join (isPlainName_of_isEntryName hname)]
    simp
  rw [Files.removeDirAll, hentry.find .itself hdir fun hne => absurd rfl hne]
  simp only [Files.removeEmptied, hresolve, hlast]

/-- With an entry goes what is below it, and nothing else. -/
theorem node?_prune_cons (t : FileTree) (name : String) (loc l : Location) :
    (t.prune (name :: loc)).node? l = if name :: loc <:+ l then none else t.node? l := by
  by_cases hnil : l = []
  · subst hnil
    simp
  · exact node?_prune _ _ _ hnil

/-- With the directory goes what is in it, and nothing else. -/
theorem node?_prune_clear (t : FileTree) (name : String) (loc l : Location) :
    ((t.clear (name :: loc)).prune (name :: loc)).node? l =
      if name :: loc <:+ l then none else t.node? l := by
  rw [node?_prune_cons, node?_clear]
  split
  · rfl
  · rename_i hout
    rw [if_neg fun h => hout h.1]

end

end FileTree

end PartitionStore
