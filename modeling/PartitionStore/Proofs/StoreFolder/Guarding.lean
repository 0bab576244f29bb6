import PartitionStore.Proofs.FileTree.Removing
import PartitionStore.Proofs.StoreFolder.Standing

/-!
# `PartitionStore.Proofs.StoreFolder.Guarding`: what the format guard does

The guard reads one file and goes by what it holds. That is a record (`Records`), or no
record (`Unrecorded`), or the file cannot be read (`Unreadable`), and one of the three is the
case in every tree. `GuardsExactly` says of each verdict when it is given and what is left
of the tree.

Only the emptying of a folder hangs on more than that file. The folder is removed and its path
is walked anew to make it again. Where the root's path leads through the folder itself, the
directories that are made on the way come to lie in the new folder, or the way is lost. So
the way to the root is asked to be there without the folder (`RootApart`).

* `records_iff`, `unrecorded_iff`, `unreadable_iff`: what reading the record tells.
* `exists_empty_eq`: the folder is emptied, and all else is as it was.
* `guardsExactly_of_rootApart`: the guard does this and nothing else.
-/

set_option autoImplicit false

namespace PartitionStore

open FileTree Naming

/-! ### Reading -/

namespace FileTree

variable {t : FileTree} {last : LastLink} {start : Location} {steps : List Step} {p : Path}

/-- No walk fails for what is in a file. -/
theorem walk_ne_notUtf8 {jump : Location → List Step → Except IoError Spot}
    (hjump : ∀ loc steps, jump loc steps ≠ .error .notUtf8) :
    t.walk last jump start steps ≠ .error .notUtf8 := by
  induction steps generalizing start with
  | nil => simp [walk]
  | cons step rest ih =>
      cases step with
      | here => exact ih
      | up => exact ih
      | down name =>
          rw [walk]
          split
          · simp
          split
          · split <;> simp
          · exact ih
          · split <;> simp
          · rename_i target _
            split
            · simp
            split
            · have henclosing := hjump (if target.isAbsolute then [] else start)
                target.enclosingSteps
              cases hj : jump (if target.isAbsolute then [] else start) target.enclosingSteps with
              | ok spot => simp [bind, Except.bind]
              | error e => simpa [bind, Except.bind, hj] using henclosing
            · exact hjump _ _

/-- Nor does one that follows links. -/
theorem walkWithin_ne_notUtf8 {links : Nat} :
    t.walkWithin last links start steps ≠ .error .notUtf8 := by
  induction links generalizing start steps with
  | zero => exact walk_ne_notUtf8 (by simp)
  | succ links ih => exact walk_ne_notUtf8 fun _ _ => ih

/-- What a file holds is no matter of finding and reading it. -/
theorem read_ne_notUtf8 : t.read p ≠ .error .notUtf8 := by
  have hsteps : t.resolveSteps .followed p.demandingSteps ≠ .error .notUtf8 := by
    rw [resolveSteps_eq]
    exact walkWithin_ne_notUtf8
  have htext : checkText p ≠ .error .notUtf8 := by
    rw [checkText]
    split
    · simp
    split
    · simp
    split <;> simp
  intro h
  rw [FileTree.read, FileTree.find, FileTree.resolve] at h
  cases hcheck : checkText p with
  | error e => simp_all [bind, Except.bind]
  | ok _ =>
      cases hspot : t.resolveSteps .followed p.demandingSteps with
      | error e => simp_all [bind, Except.bind]
      | ok spot =>
          rcases spot with ⟨loc, node⟩ | ⟨parent, name⟩
          · cases node <;> simp [bind, Except.bind, hcheck, hspot] at h
          · simp [bind, Except.bind, hcheck, hspot] at h

end FileTree

namespace StoreFolder

/-- The file at the record's path is text that parses as a record, which tells the format. -/
def Records (d : StoreFolder) (t : FileTree) (format : TableFormat) : Prop :=
  ∃ data text record, t.read d.recordPath = .ok data ∧ Text.decode? data = some text ∧
    EngineRecord.parse? text = some record ∧ record.format? = some format

/-- There is nothing at the record's path, or a file that holds no text, or text that does not
parse. -/
def Unrecorded (d : StoreFolder) (t : FileTree) : Prop :=
  t.read d.recordPath = .error .notFound ∨ ∃ data, t.read d.recordPath = .ok data ∧
    ∀ text, Text.decode? data = some text → EngineRecord.parse? text = none

/-- The record cannot be read, for another reason than that there is none. -/
def Unreadable (d : StoreFolder) (t : FileTree) (cause : IoError) : Prop :=
  t.read d.recordPath = .error cause ∧ cause ≠ .notFound

/-- The way to the root is there also when the folder is taken out of the tree. -/
def RootApart (d : StoreFolder) (t : FileTree) : Prop :=
  ∀ parent, t.resolveSteps .followed d.root.steps = .ok (.occupied parent .dir) →
    (t.prune (d.store :: parent)).resolveSteps .followed d.root.steps = .ok (.occupied parent .dir)

/-- The guard gives each verdict exactly where it is due. It leaves the tree as it is, unless it
empties the folder, which takes away what is in the folder and nothing else. -/
structure GuardsExactly (d : StoreFolder) (format : TableFormat) (t : FileTree) : Prop where
  sameFormat : ∀ u, d.guard format t = .ok .sameFormat u ↔ d.Records t format ∧ u = t
  noRecord : ∀ u, d.guard format t = .ok .noRecord u ↔ d.Unrecorded t ∧ u = t
  emptied : ∀ recorded, (∃ u, d.guard format t = .ok (.emptied recorded) u) ↔
    d.Records t recorded ∧ recorded ≠ format
  left : ∀ recorded u, d.guard format t = .ok (.emptied recorded) u →
    u.list d.path = .ok [] ∧
      ∃ parent, t.resolveSteps .followed d.root.steps = .ok (.occupied parent .dir) ∧
        ∀ l, ¬d.store :: parent <:+ l → u.node? l = t.node? l
  refused : ∀ e u, d.guard format t = .error e u ↔ u = t ∧
    ∃ cause, d.Unreadable t cause ∧ e = .initializationFailure (.readRecord d.recordPath) cause

variable {d : StoreFolder} {t u : FileTree} {format recorded : TableFormat} {cause : IoError}
  {parent : Location}

/-! ### What reading the record tells -/

/-- To read the record is to read its bytes. Where there is no file there is no record, and bytes
that are no text are none either. -/
theorem readFrom_eq (d : StoreFolder) (t : FileTree) :
    EngineRecord.readFrom t d.recordPath = match t.read d.recordPath with
      | .ok data => .ok ((Text.decode? data).bind EngineRecord.parse?)
      | .error .notFound => .ok none
      | .error e => .error e := by
  rw [EngineRecord.readFrom, EngineRecord.readText]
  cases hread : t.read d.recordPath with
  | ok data => cases htext : Text.decode? data <;> simp [bind, Except.bind, htext]
  | error e =>
      have hne : e ≠ .notUtf8 := fun h => read_ne_notUtf8 (h ▸ hread)
      cases e <;> simp_all [bind, Except.bind]

/-- The record tells a format exactly if it is read and does. -/
theorem records_iff : d.Records t format ↔ ∃ record,
    EngineRecord.readFrom t d.recordPath = .ok (some record) ∧ record.format? = some format := by
  rw [readFrom_eq]
  constructor
  · rintro ⟨data, text, record, hread, htext, hparse, hformat⟩
    exact ⟨record, by simp [hread, htext, hparse], hformat⟩
  · rintro ⟨record, hfrom, hformat⟩
    split at hfrom
    · rename_i data hread
      obtain ⟨text, htext, hparse⟩ := Option.bind_eq_some_iff.1 (Except.ok.inj hfrom)
      exact ⟨data, text, record, hread, htext, hparse, hformat⟩
    · cases hfrom
    · cases hfrom

/-- There is no record exactly if none is read. -/
theorem unrecorded_iff : d.Unrecorded t ↔ EngineRecord.readFrom t d.recordPath = .ok none := by
  rw [readFrom_eq, Unrecorded]
  cases hread : t.read d.recordPath with
  | ok data => simp [Option.bind_eq_none_iff]
  | error e => cases e <;> simp

/-- The record is unreadable exactly if to read it fails. -/
theorem unreadable_iff :
    d.Unreadable t cause ↔ EngineRecord.readFrom t d.recordPath = .error cause := by
  rw [readFrom_eq, Unreadable]
  cases hread : t.read d.recordPath with
  | ok data => simp
  | error e => cases e <;> simp <;> rintro rfl <;> simp

/-! ### Emptying the folder -/

/-- Where a record was found the folder's path leads through its root to a directory, and that is
there, or a link to it. -/
theorem exists_of_records (h : d.Records t recorded) :
    ∃ parent loc, t.resolveSteps .followed d.root.steps = .ok (.occupied parent .dir) ∧
      t.resolveSteps .followed d.path.steps = .ok (.occupied loc .dir) ∧
      t.NamesEntry d.path parent d.store ∧
      (t.node? (d.store :: parent) = some .dir ∨
        ∃ target, t.node? (d.store :: parent) = some (.link target)) := by
  have hstore := isPlainName_of_isStoreName d.isStoreName
  have hrecord : Path.isPlainName recordFileName = true := by decide
  obtain ⟨data, -, -, hread, -, -, -⟩ := h
  have hthere := exists_of_read hread
  -- The steps go from the root to the folder, to the metadata partition, and to the record.
  have htext := checkText_of_exists hthere
  have htext' : checkText d.path = .ok () := by
    refine Path.checkText_of_join (d.isPlainName_dir metadataId) (Path.text_join_ne _ hstore) ?_
    exact Path.checkText_of_join hrecord (text_partitionPath_ne d _) htext
  have hsteps : d.recordPath.steps =
      d.path.steps ++ [.down (dirName d.store metadataId), .down recordFileName] := by
    rw [recordPath, Path.steps_join hrecord, partitionPath, Naming.partitionPath,
      Path.steps_join (d.isPlainName_dir metadataId), List.append_assoc]
    rfl
  have hsteps' : d.path.steps = d.root.steps ++ [.down d.store] := Path.steps_join hstore
  have hslash : d.recordPath.endsWithSlash = false := Path.endsWithSlash_join _ hrecord
  obtain ⟨spot, hspot⟩ := exists_resolveSteps_of_exists hslash hthere
  rw [hsteps] at hspot
  obtain ⟨loc, hway⟩ := exists_resolveSteps_of_append (by simp) hspot
  obtain ⟨parent, hroot⟩ := exists_resolveSteps_of_append (List.cons_ne_nil _ _) (hsteps' ▸ hway)
  have named : t.NamesEntry d.path parent d.store := by
    refine ⟨htext', Path.endsWithSlash_join _ hstore, ?_, d.root.steps, hsteps', hroot⟩
    cases hname : isEntryName d.store with
    | true => rfl
    | false =>
        rw [hsteps', resolveSteps_down_of_unusable .followed hroot hname] at hway
        cases hway
  refine ⟨parent, loc, hroot, hway, named, ?_⟩
  -- What is found there, with links followed, is a directory.
  obtain ⟨spot', hspot', hend⟩ := resolveSteps_itself hway
  rw [named.resolveSteps .itself fun hne => absurd rfl hne] at hspot'
  cases hnode : t.node? (d.store :: parent) with
  | none =>
      rw [hnode] at hspot'
      cases hspot'
      rcases hend with hend | ⟨_, _, hend⟩ <;> cases hend
  | some node =>
      rw [hnode] at hspot'
      cases hspot'
      rcases hend with hend | ⟨_, target, hend⟩
      · cases hend
        exact .inl rfl
      · cases hend
        exact .inr ⟨target, rfl⟩

/-- A tree without the folder in which its root is there. -/
theorem namesEntry_prune (named : t.NamesEntry d.path parent d.store)
    (hroot : (t.prune (d.store :: parent)).resolveSteps .followed d.root.steps =
      .ok (.occupied parent .dir)) :
    (t.prune (d.store :: parent)).NamesEntry d.path parent d.store :=
  ⟨named.text, named.noSlash, named.usable, d.root.steps,
    Path.steps_join (isPlainName_of_isStoreName d.isStoreName), hroot⟩

/-- Where the root's path does not lead through the folder, removing the folder is taking it out of
the tree. -/
theorem removeDirAll_eq_prune (named : t.NamesEntry d.path parent d.store)
    (hnode : t.node? (d.store :: parent) = some .dir ∨
      ∃ target, t.node? (d.store :: parent) = some (.link target))
    (hroot : (t.prune (d.store :: parent)).resolveSteps .followed d.root.steps =
      .ok (.occupied parent .dir)) :
    Files.removeDirAll d.path t = .ok () (t.prune (d.store :: parent)) :=
  (namesEntry_prune named hroot).removeDirAll hnode

/-- The folder is removed and made again: what is left is a new directory in its place. -/
theorem exists_empty_eq (h : d.Records t recorded) (apart : d.RootApart t) :
    ∃ parent, t.resolveSteps .followed d.root.steps = .ok (.occupied parent .dir) ∧
      (t.prune (d.store :: parent)).NamesEntry d.path parent d.store ∧
      Files.removeDirAll d.path t = .ok () (t.prune (d.store :: parent)) ∧
      d.empty t = .ok () ((t.prune (d.store :: parent)).place parent d.store .dir) := by
  obtain ⟨parent, -, hroot, -, named, hnode⟩ := exists_of_records h
  have hremove := removeDirAll_eq_prune named hnode (apart parent hroot)
  have named' := namesEntry_prune named (apart parent hroot)
  have hmake := createDirAll_ok named' (by rw [node?_prune_cons, if_pos (List.suffix_refl _)])
  refine ⟨parent, hroot, named', hremove, ?_⟩
  rw [empty, Action.bind_of_ok (StoreAction.ofFiles_of_ok hremove)]
  exact StoreAction.ofFiles_of_ok hmake

/-- A folder that was taken out and made again is empty, and all else is as it was. -/
theorem list_of_remade (named : (t.prune (d.store :: parent)).NamesEntry d.path parent d.store)
    (hu : u = (t.prune (d.store :: parent)).place parent d.store .dir) :
    u.list d.path = .ok [] ∧ ∀ l, ¬d.store :: parent <:+ l → u.node? l = t.node? l := by
  have hnone : (t.prune (d.store :: parent)).node? (d.store :: parent) = none := by
    rw [node?_prune_cons, if_pos (List.suffix_refl _)]
  have hdir : u.node? (d.store :: parent) = some .dir := by
    rw [hu]
    exact node?_place_self named.usable named.isDir (by simp [hnone])
  have helse (l : Location) (hl : l ≠ d.store :: parent) :
      u.node? l = if d.store :: parent <:+ l then none else t.node? l := by
    rw [hu, node?_place_of_ne _ _ _ _ hl, node?_prune_cons]
  have named' : u.NamesEntry d.path parent d.store :=
    named.frame (S := (· = d.store :: parent))
      (fun l hl => takesFile_of_none (by rw [hl, hnone]))
      fun l hl => by rw [helse l hl, node?_prune_cons]
  have hchildren : u.children (d.store :: parent) = [] := by
    refine List.eq_nil_iff_forall_not_mem.2 fun ⟨name, node⟩ hmem => ?_
    have hthere := (mem_children_iff hdir).1 hmem
    rw [helse _ (List.cons_ne_self _ _), if_pos (List.suffix_cons ..)] at hthere
    cases hthere
  refine ⟨?_, fun l hl => ?_⟩
  · rw [FileTree.list, named'.find .followed hdir (by simp), ← hchildren]
    rfl
  · rw [helse l fun e => hl (e ▸ List.suffix_refl _), if_neg hl]

/-! ### The verdicts -/

/-- What the guard answers to a record. -/
theorem guard_of_records (h : d.Records t recorded) (format : TableFormat) :
    d.guard format t = if recorded = format then .ok .sameFormat t
      else (do d.empty; pure (GuardVerdict.emptied recorded)) t := by
  obtain ⟨record, hread, hformat⟩ := records_iff.1 h
  rw [guard_eq (readRecord_of_readFrom hread), Option.bind_some, hformat]

/-- Without a record there is nothing to compare with. -/
theorem guard_of_unrecorded (h : d.Unrecorded t) (format : TableFormat) :
    d.guard format t = .ok .noRecord t := by
  rw [guard_eq (readRecord_of_readFrom (unrecorded_iff.1 h)), Option.bind_none]

/-- In every tree there is a record, or none, or it cannot be read. -/
theorem record_cases (d : StoreFolder) (t : FileTree) :
    (∃ recorded, d.Records t recorded) ∨ d.Unrecorded t ∨ ∃ cause, d.Unreadable t cause := by
  cases hread : EngineRecord.readFrom t d.recordPath with
  | error cause => exact .inr (.inr ⟨cause, unreadable_iff.2 hread⟩)
  | ok record? =>
      cases record? with
      | none => exact .inr (.inl (unrecorded_iff.2 hread))
      | some record =>
          obtain ⟨data, text, hfile, htext, hparse⟩ : ∃ data text,
              t.read d.recordPath = .ok data ∧ Text.decode? data = some text ∧
                EngineRecord.parse? text = some record := by
            rw [readFrom_eq] at hread
            split at hread
            · rename_i data hdata
              obtain ⟨text, htext, hparse⟩ := Option.bind_eq_some_iff.1 (Except.ok.inj hread)
              exact ⟨data, text, hdata, htext, hparse⟩
            · cases hread
            · cases hread
          -- What parses as a record tells a format.
          obtain ⟨recorded, hformat⟩ :=
            Option.isSome_iff_exists.1 (EngineRecord.isSome_format?_of_parse? hparse)
          exact .inl ⟨recorded, data, text, record, hfile, htext, hparse, hformat⟩

/-- Where no record tells another format nothing changes, whatever the verdict. -/
theorem after_guard_of_kept (hkept : ∀ recorded, d.Records t recorded → recorded = format) :
    Action.after (d.guard format t) = t := by
  rcases d.record_cases t with ⟨recorded, records⟩ | unrecorded | ⟨cause, unreadable⟩
  · rw [guard_of_records records, if_pos (hkept recorded records)]
    rfl
  · rw [guard_of_unrecorded unrecorded]
    rfl
  · rw [guard_of_readFrom_error (unreadable_iff.1 unreadable)]
    rfl

/-- Once a folder was made ready its path leads to it. -/
theorem way_of_prepare {c : EngineSettings} (h : Engine.prepare d c t = .ok () u) :
    checkText d.path = .ok () ∧
      ∃ loc, u.resolveSteps .followed d.path.steps = .ok (.occupied loc .dir) := by
  have hstore := isPlainName_of_isStoreName d.isStoreName
  by_cases hpresent : d.isThere t = true
  swap
  · exact resolveSteps_of_createDirAll hstore (createDirAll_of_prepare hpresent h)
  have hdir := isDir_of_prepare hpresent h
  have hthere := exists_way_of_isDir d.endsWithSlash_path hdir
  rw [Engine.prepare, Action.bind_of_ok (ensure_of_isDir hdir)] at h
  split at h
  swap
  · cases h
    exact hthere
  -- The guard leaves the folder as it is, or the last thing that it does is to make it again.
  obtain ⟨verdict, u', hverdict, hpure⟩ := Action.bind_eq_ok_iff.1 h
  cases hpure
  by_cases hkept : ∀ recorded, d.Records t recorded → recorded = c.format
  · have hsame := after_guard_of_kept hkept
    rw [hverdict] at hsame
    exact (show u = t from hsame) ▸ hthere
  · obtain ⟨recorded, hrecorded⟩ := not_forall.1 hkept
    obtain ⟨records, hdiffer⟩ := Classical.not_imp.1 hrecorded
    rw [guard_of_records records, if_neg hdiffer] at hverdict
    obtain ⟨_, v, hempty, hpure⟩ := Action.bind_eq_ok_iff.1 hverdict
    cases hpure
    exact way_of_empty hempty

/-- A folder without a record that can be read is left as it is. -/
theorem prepare_of_unrecorded (hdir : t.isDir d.path = true) (unrecorded : d.Unrecorded t)
    (c : EngineSettings) : Engine.prepare d c t = .ok () t := by
  rw [Engine.prepare, Action.bind_of_ok (ensure_of_isDir hdir)]
  split
  · rw [Action.bind_of_ok (guard_of_unrecorded unrecorded c.format)]
    rfl
  · rfl

/-- The three cases exclude each other, and a record tells one format. -/
theorem Records.unique (h : d.Records t recorded) :
    (∀ other, d.Records t other → other = recorded) ∧ ¬d.Unrecorded t ∧
      ∀ cause, ¬d.Unreadable t cause := by
  obtain ⟨record, hread, hformat⟩ := records_iff.1 h
  refine ⟨fun other h' => ?_, fun h' => ?_, fun cause h' => ?_⟩
  · obtain ⟨record', hread', hformat'⟩ := records_iff.1 h'
    cases hread.symm.trans hread'
    exact Option.some.inj (hformat'.symm.trans hformat)
  · cases hread.symm.trans (unrecorded_iff.1 h')
  · cases hread.symm.trans (unreadable_iff.1 h')

/-- A record of the format is what is asked for. -/
theorem guardsExactly_of_same (records : d.Records t format) : d.GuardsExactly format t := by
  obtain ⟨hunique, hsome, hreadable⟩ := records.unique
  have hguard : d.guard format t = .ok .sameFormat t := by
    rw [guard_of_records records, if_pos rfl]
  constructor
  case sameFormat => simp [hguard, records, eq_comm]
  case noRecord => simp [hguard, hsome]
  case emptied => simpa [hguard] using hunique
  case left => simp [hguard]
  case refused => simp [hguard, hreadable]

/-- A record of another format is what a folder is emptied for. -/
theorem guardsExactly_of_conflict (records : d.Records t recorded) (hdiffer : recorded ≠ format)
    (apart : d.RootApart t) : d.GuardsExactly format t := by
  obtain ⟨hunique, hsome, hreadable⟩ := records.unique
  obtain ⟨parent, hroot, named, -, hempty⟩ := exists_empty_eq records apart
  -- The one outcome that a folder with another format has.
  have hguard : d.guard format t = .ok (.emptied recorded)
      ((t.prune (d.store :: parent)).place parent d.store .dir) := by
    rw [guard_of_records records, if_neg hdiffer, Action.bind_of_ok hempty, Action.pure_apply]
  have hnot : ¬d.Records t format := fun h => hdiffer (hunique format h).symm
  constructor
  case sameFormat => simp [hguard, hnot]
  case noRecord => simp [hguard, hsome]
  case emptied =>
    intro p
    constructor
    · rintro ⟨u, h⟩
      cases hguard.symm.trans h
      exact ⟨records, hdiffer⟩
    · rintro ⟨h, -⟩
      exact ⟨_, hunique p h ▸ hguard⟩
  case left =>
    intro p u h
    cases hguard.symm.trans h
    obtain ⟨hlist, hsame⟩ := list_of_remade named rfl
    exact ⟨hlist, parent, hroot, hsame⟩
  case refused => simp [hguard, hreadable]

/-- So the guard leaves the folder alone, and says so. -/
theorem guardsExactly_of_unrecorded (unrecorded : d.Unrecorded t) (format : TableFormat) :
    d.GuardsExactly format t := by
  have hguard := guard_of_unrecorded unrecorded format
  have hnone (p : TableFormat) : ¬d.Records t p := fun h => h.unique.2.1 unrecorded
  have hreadable (cause : IoError) : ¬d.Unreadable t cause := fun h => by
    cases (unrecorded_iff.1 unrecorded).symm.trans (unreadable_iff.1 h)
  constructor
  case sameFormat => simp [hguard, hnone]
  case noRecord => simp [hguard, unrecorded, eq_comm]
  case emptied => simp [hguard, hnone]
  case left => simp [hguard]
  case refused => simp [hguard, hreadable]

/-- An unreadable record stops the guard, and nothing changes. -/
theorem guardsExactly_of_unreadable (unreadable : d.Unreadable t cause) (format : TableFormat) :
    d.GuardsExactly format t := by
  have hguard := guard_of_readFrom_error (unreadable_iff.1 unreadable) format
  have hnone (p : TableFormat) : ¬d.Records t p := fun h => h.unique.2.2 cause unreadable
  have hsome : ¬d.Unrecorded t := fun h => by
    cases (unrecorded_iff.1 h).symm.trans (unreadable_iff.1 unreadable)
  have hcause (other : IoError) : d.Unreadable t other ↔ other = cause :=
    ⟨fun h => Except.error.inj (h.1.symm.trans unreadable.1), fun h => h ▸ unreadable⟩
  constructor
  case sameFormat => simp [hguard, hnone]
  case noRecord => simp [hguard, hsome]
  case emptied => simp [hguard, hnone]
  case left => simp [hguard]
  case refused => simp [hguard, hcause, eq_comm, and_comm]

/-- A folder whose record tells another format is emptied, as long as its root does not lead through
it. In all other cases the tree is left as it is. -/
theorem guardsExactly_of_rootApart (d : StoreFolder) (format : TableFormat) {t : FileTree}
    (apart : d.RootApart t) : d.GuardsExactly format t := by
  rcases d.record_cases t with ⟨recorded, records⟩ | unrecorded | ⟨cause, unreadable⟩
  · by_cases hsame : recorded = format
    · exact guardsExactly_of_same (hsame ▸ records)
    · exact guardsExactly_of_conflict records hsame apart
  · exact guardsExactly_of_unrecorded unrecorded format
  · exact guardsExactly_of_unreadable unreadable format

end StoreFolder

/-- A tree that holds a store under the root, with the record of plain tables, and nothing else. -/
def recordedUnder (root : Path) : FileTree :=
  Action.after (StoreFolder.recordOnce ⟨root, "s", by decide⟩ (EngineRecord.ofFormat .plain)
    FileTree.empty)

namespace StoreFolder

/-- The plain root "data" leads through nothing that is in the folder. -/
theorem rootApart_recordedUnder_data :
    RootApart ⟨⟨"data"⟩, "s", by decide⟩ (recordedUnder ⟨"data"⟩) := by
  intro parent hroot
  have hdata : (recordedUnder ⟨"data"⟩).resolveSteps .followed (Path.steps ⟨"data"⟩) =
      .ok (.occupied ["data"] .dir) := by decide +kernel
  cases hroot.symm.trans hdata
  decide +kernel

/-- A store below a directory of its own is emptied. -/
theorem guardsExactly_below_data :
    RootApart ⟨⟨"data"⟩, "s", by decide⟩ (recordedUnder ⟨"data"⟩) ∧
      GuardsExactly ⟨⟨"data"⟩, "s", by decide⟩ .blockBased (recordedUnder ⟨"data"⟩) ∧
      ∃ u, guard ⟨⟨"data"⟩, "s", by decide⟩ .blockBased (recordedUnder ⟨"data"⟩) =
        .ok (.emptied .plain) u := by
  have key : Action.succeedsWith (guard ⟨⟨"data"⟩, "s", by decide⟩ .blockBased)
      (recordedUnder ⟨"data"⟩) (fun verdict _ => decide (verdict = .emptied .plain)) = true := by
    decide +kernel
  obtain ⟨verdict, u, hguard, key⟩ := Action.exists_of_succeedsWith key
  obtain rfl := of_decide_eq_true key
  exact ⟨rootApart_recordedUnder_data,
    guardsExactly_of_rootApart _ _ rootApart_recordedUnder_data, u, hguard⟩

/-- Where the root's path leads through the folder, a directory on that way is in the folder that
was to be empty. -/
theorem not_guardsExactly_at_all_roots :
    ¬GuardsExactly ⟨⟨"s/s_0/../.."⟩, "s", by decide⟩ .blockBased
      (recordedUnder ⟨"s/s_0/../.."⟩) := by
  have key : Action.succeedsWith (guard ⟨⟨"s/s_0/../.."⟩, "s", by decide⟩ .blockBased)
      (recordedUnder ⟨"s/s_0/../.."⟩) (fun verdict u => decide (verdict = .emptied .plain) &&
        match u.list (path ⟨⟨"s/s_0/../.."⟩, "s", by decide⟩) with
        | .ok entries => !entries.isEmpty
        | .error _ => false) = true := by
    decide +kernel
  obtain ⟨verdict, u, hguard, key⟩ := Action.exists_of_succeedsWith key
  intro exact'
  rw [Bool.and_eq_true] at key
  obtain rfl := of_decide_eq_true key.1
  simp [(exact'.left .plain u hguard).1] at key

end StoreFolder

end PartitionStore
