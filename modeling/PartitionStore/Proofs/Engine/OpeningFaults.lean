import PartitionStore.Proofs.Engine.Slots
import PartitionStore.Proofs.Engine.Opening
import PartitionStore.Proofs.StoreFolder.Guarding

/-!
# `PartitionStore.Proofs.Engine.OpeningFaults`: which operation an opening failed at

An engine comes up by way of operations on the file tree: the store's folder is made, or its record
is read, and it is removed and made again; the partitions are opened, which makes their directories
and reads or writes their table files; and the engine's record is written, in a directory that is
made for it. Any of them can fail, on a tree that has something else in their place or leaves them
no room, and what is reported then differs.

`OpeningFault` are those operations, with the error of the file system, and `OpeningFault.Happens`
says when one is come to and fails: what was done before it succeeded, and left the tree that it
fails on. Listing the folder is not among them. By the time it is listed it is a directory.

* `open_fails_iff`: an opening fails with an error exactly if one of the operations fails that is
  reported so. A failed operation on a directory or on the record is reported as a failed
  initialization that keeps the cause, with one exception: a partition whose directory cannot be
  made is reported as a bare failure of the file system.
-/

set_option autoImplicit false

namespace PartitionStore

/-! ### Actions that fail -/

namespace Action

variable {ε σ α β : Type}

/-- From the state the action fails with the error, whatever state it leaves. -/
def Fails (x : EStateM ε σ α) (s : σ) (e : ε) : Prop := ∃ s', x s = .error e s'

variable {x : EStateM ε σ α} {f : α → EStateM ε σ β} {s s' : σ} {e e' : ε} {a : α}

/-- What succeeds does not fail. -/
theorem not_fails_of_ok (h : x s = .ok a s') : ¬Fails x s e := by
  rintro ⟨s'', herror⟩
  cases h.symm.trans herror

/-- What fails does so with one error. -/
theorem fails_of_error_iff (h : x s = .error e' s') : Fails x s e ↔ e = e' := by
  constructor
  · rintro ⟨s'', herror⟩
    cases h.symm.trans herror
    rfl
  · rintro rfl
    exact ⟨s', h⟩

/-- There is no second error that the same run fails with. -/
theorem Fails.unique (h : Fails x s e) (h' : Fails x s e') : e = e' := by
  obtain ⟨s₁, h⟩ := h
  exact ((fails_of_error_iff h).1 h').symm

/-- A sequence fails where its first action does, or behind that. -/
theorem fails_bind_iff :
    Fails (x >>= f) s e ↔ Fails x s e ∨ ∃ a s', x s = .ok a s' ∧ Fails (f a) s' e := by
  cases h : x s with
  | error e' s' => simp [fails_of_error_iff h, fails_of_error_iff (bind_of_error h)]
  | ok a s' => simp [Fails, bind_of_ok h, h]

/-- Behind a step that succeeded it is the rest that may fail. -/
theorem fails_bind_of_ok (h : x s = .ok a s') : Fails (x >>= f) s e ↔ Fails (f a) s' e := by
  rw [Fails, bind_of_ok h, Fails]

end Action

open FileTree Naming PartitionStore.Action PartitionStore.Partition

/-- An action on files fails for the store exactly if it fails, with what the cause means. -/
theorem StoreAction.fails_ofFiles_iff {α : Type} {meaning : IoError → StoreError}
    {action : Files α} {t : FileTree} {e : StoreError} :
    Fails (ofFiles meaning action) t e ↔ ∃ cause, Fails action t cause ∧ meaning cause = e := by
  cases h : action t with
  | ok a t' =>
      refine iff_of_false (not_fails_of_ok (ofFiles_of_ok h)) ?_
      rintro ⟨cause, hfails, -⟩
      exact not_fails_of_ok h hfails
  | error cause t' =>
      rw [fails_of_error_iff (ofFiles_of_error h)]
      constructor
      · rintro rfl
        exact ⟨cause, ⟨t', h⟩, rfl⟩
      · rintro ⟨cause', hfails, rfl⟩
        rw [(fails_of_error_iff h).1 hfails]

/-- So it does where the cause is told as it is. -/
theorem StoreAction.fails_io_iff {α : Type} {action : Files α} {t : FileTree} {e : StoreError} :
    Fails (io action) t e ↔ ∃ cause, Fails action t cause ∧ StoreError.io cause = e :=
  fails_ofFiles_iff

/-- On a host an action on the tree fails exactly if it fails on the host's tree. -/
theorem HostAction.fails_onTree_iff {α : Type} {action : StoreAction α} {host : Host}
    {e : StoreError} : Fails (onTree action) host e ↔ Fails action host.tree e := by
  simp only [Fails, onTree_eq_error_iff]
  constructor
  · rintro ⟨host', t', h, -⟩
    exact ⟨t', h⟩
  · rintro ⟨t', h⟩
    exact ⟨_, t', h, rfl⟩

variable {c : EngineSettings} {d : StoreFolder} {host host' : Host} {t u : FileTree}
  {e : StoreError} {id : Int32} {b : Backend}

/-! ### The folder -/

/-- What can be wrong with a store's folder that is to be made ready. -/
inductive FolderFault where
  /-- There is something in its place that is no directory. -/
  | occupied
  /-- It is missing and cannot be made. -/
  | make (cause : IoError)
  /-- Its record cannot be read. -/
  | readRecord (cause : IoError)
  /-- It is to be emptied and cannot be removed. -/
  | remove (cause : IoError)
  /-- It was removed and cannot be made again. -/
  | remake (cause : IoError)
  deriving DecidableEq, Repr

namespace FolderFault

/-- How a fault is reported. -/
def reported (d : StoreFolder) : FolderFault → StoreError
  | occupied => .notADirectory d.path
  | make cause => .initializationFailure (.makeFolder d.path) cause
  | readRecord cause => .initializationFailure (.readRecord d.recordPath) cause
  | remove cause => .initializationFailure (.removeFolder d.path) cause
  | remake cause => .initializationFailure (.remakeFolder d.path) cause

/-- A record of another format than the one that is set is found, by the guard. -/
def Conflict (d : StoreFolder) (c : EngineSettings) (t : FileTree) : Prop :=
  t.isDir d.path = true ∧ c.guardOnReopen = true ∧
    ∃ recorded, d.Records t recorded ∧ recorded ≠ c.format

/-- The fault is come to when the folder is made ready in the tree. -/
def Happens (d : StoreFolder) (c : EngineSettings) (t : FileTree) : FolderFault → Prop
  | occupied => d.isThere t = true ∧ t.isDir d.path = false
  | make cause => d.isThere t = false ∧ Fails (Files.createDirAll d.path) t cause
  | readRecord cause => t.isDir d.path = true ∧ c.guardOnReopen = true ∧ d.Unreadable t cause
  | remove cause => Conflict d c t ∧ Fails (Files.removeDirAll d.path) t cause
  | remake cause => Conflict d c t ∧ ∃ u, Files.removeDirAll d.path t = .ok () u ∧
      Fails (Files.createDirAll d.path) u cause

end FolderFault

/-- What is reported of a fault tells which fault it is. -/
theorem FolderFault.eq_of_reported_eq {fault fault' : FolderFault}
    (h : fault.reported d = fault'.reported d) : fault = fault' := by
  cases fault <;> cases fault' <;> cases h <;> rfl

/-- To empty the folder fails exactly if it cannot be removed, or was removed and cannot be made
again. -/
theorem StoreFolder.fails_empty_iff : Fails d.empty t e ↔
    (∃ cause, Fails (Files.removeDirAll d.path) t cause ∧
        FolderFault.reported d (.remove cause) = e) ∨
      ∃ u, Files.removeDirAll d.path t = .ok () u ∧ ∃ cause,
        Fails (Files.createDirAll d.path) u cause ∧ FolderFault.reported d (.remake cause) = e := by
  rw [empty, fails_bind_iff, StoreAction.fails_ofFiles_iff]
  refine or_congr Iff.rfl ?_
  constructor
  · rintro ⟨_, u, hremove, hfails⟩
    exact ⟨u, StoreAction.ofFiles_eq_ok_iff.1 hremove, StoreAction.fails_ofFiles_iff.1 hfails⟩
  · rintro ⟨u, hremove, hfails⟩
    exact ⟨(), u, StoreAction.ofFiles_of_ok hremove, StoreAction.fails_ofFiles_iff.2 hfails⟩

/-- The guard fails if it cannot read the record, or if it is to empty the folder and cannot. -/
theorem StoreFolder.fails_guard_iff {format : TableFormat} : Fails (d.guard format) t e ↔
    (∃ cause, d.Unreadable t cause ∧ FolderFault.reported d (.readRecord cause) = e) ∨
      ((∃ recorded, d.Records t recorded ∧ recorded ≠ format) ∧ Fails d.empty t e) := by
  -- A record is found, or none, or its file cannot be read, and each shuts out the others.
  rcases d.record_cases t with ⟨recorded, records⟩ | unrecorded | ⟨cause, unreadable⟩
  · obtain ⟨hunique, -, hreadable⟩ := records.unique
    have hconflict : (∃ other, d.Records t other ∧ other ≠ format) ↔ recorded ≠ format := by
      constructor
      · rintro ⟨other, hother, hne⟩
        rwa [← hunique other hother]
      · intro hne
        exact ⟨recorded, records, hne⟩
    have hguard := guard_of_records records format
    rw [hconflict]
    by_cases hsame : recorded = format
    · rw [if_pos hsame] at hguard
      simp [not_fails_of_ok hguard, hreadable, hsame]
    · rw [if_neg hsame] at hguard
      have hempty : Fails (do d.empty; pure (GuardVerdict.emptied recorded)) t e ↔
          Fails d.empty t e := by
        rw [fails_bind_iff, or_iff_left]
        rintro ⟨_, u, -, hpure⟩
        exact not_fails_of_ok (pure_apply _ u) hpure
      rw [show Fails (d.guard format) t e ↔
        Fails (do d.empty; pure (GuardVerdict.emptied recorded)) t e by
          rw [Fails, hguard, Fails], hempty]
      simp [hreadable, hsame]
  · have hnone (p : TableFormat) : ¬d.Records t p := fun h => h.unique.2.1 unrecorded
    have hreadable (cause : IoError) : ¬d.Unreadable t cause := fun h => by
      cases (unrecorded_iff.1 unrecorded).symm.trans (unreadable_iff.1 h)
    simp [not_fails_of_ok (guard_of_unrecorded unrecorded format), hnone, hreadable]
  · have hnone (p : TableFormat) : ¬d.Records t p := fun h => h.unique.2.2 cause unreadable
    have hcause (other : IoError) : d.Unreadable t other ↔ other = cause :=
      ⟨fun h => Except.error.inj ((unreadable_iff.1 h).symm.trans (unreadable_iff.1 unreadable)),
        fun h => h ▸ unreadable⟩
    simp [fails_of_error_iff (guard_of_readFrom_error (unreadable_iff.1 unreadable) format), hnone,
      hcause, FolderFault.reported, eq_comm]

/-- Where the folder is missing, to make it ready fails exactly if it cannot be made. -/
theorem fails_prepare_of_missing (hthere : d.isThere t = false) :
    Fails (Engine.prepare d c) t e ↔ ∃ cause, Fails (Files.createDirAll d.path) t cause ∧
      FolderFault.reported d (.make cause) = e := by
  have hensure : Fails d.ensure t e ↔ ∃ cause, Fails (Files.createDirAll d.path) t cause ∧
      FolderFault.reported d (.make cause) = e := by
    rw [StoreFolder.ensure, fails_bind_of_ok (get_apply t), if_neg (by simp [hthere]),
      fails_bind_iff, StoreAction.fails_ofFiles_iff, or_iff_left]
    · rfl
    · rintro ⟨_, u, -, hpure⟩
      exact not_fails_of_ok (pure_apply _ u) hpure
  rw [Engine.prepare, fails_bind_iff, hensure, or_iff_left]
  -- A folder that was made is not looked at by the guard.
  rintro ⟨made, u, hmade, hrest⟩
  rw [StoreFolder.ensure, Action.bind_of_ok (get_apply t), if_neg (by simp [hthere])] at hmade
  obtain ⟨_, v, -, hpure⟩ := bind_eq_ok_iff.1 hmade
  cases hpure
  exact not_fails_of_ok rfl hrest

/-- Where there is something else in the place of the folder, that is what is reported, and nothing
changes. -/
theorem prepare_of_occupied (hthere : d.isThere t = true) (hdir : t.isDir d.path = false) :
    Engine.prepare d c t = .error (.notADirectory d.path) t := by
  have hensure : d.ensure t = .error (.notADirectory d.path) t := by
    rw [StoreFolder.ensure, bind_of_ok (get_apply t), if_pos hthere, if_neg (by simp [hdir])]
    rfl
  rw [Engine.prepare, bind_of_error hensure]

/-- Where the folder is there, to make it ready fails exactly if it is to be guarded and the guard
fails. -/
theorem fails_prepare_of_isDir (hdir : t.isDir d.path = true) : Fails (Engine.prepare d c) t e ↔
    c.guardOnReopen = true ∧ Fails (d.guard c.format) t e := by
  rw [Engine.prepare, fails_bind_of_ok (StoreFolder.ensure_of_isDir hdir)]
  cases c.guardOnReopen with
  | false => simpa using not_fails_of_ok (pure_apply () t)
  | true =>
      simp only [Bool.not_false, Bool.true_and, if_true, true_and]
      rw [fails_bind_iff, or_iff_left]
      rintro ⟨_, u, -, hpure⟩
      exact not_fails_of_ok (pure_apply _ u) hpure

/-- Making the folder ready fails at one of its operations. -/
theorem fails_prepare_iff : Fails (Engine.prepare d c) t e ↔
    ∃ fault : FolderFault, fault.Happens d c t ∧ fault.reported d = e := by
  -- The folder is missing, or something else is in its place, or it is there. The faults of the
  -- other two cases cannot happen then.
  by_cases hthere : d.isThere t = true
  swap
  · have hdir : ¬t.isDir d.path = true := fun h => hthere (StoreFolder.isThere_of_isDir h)
    rw [fails_prepare_of_missing (by simpa using hthere)]
    constructor
    · rintro ⟨cause, hfails, rfl⟩
      exact ⟨.make cause, ⟨by simpa using hthere, hfails⟩, rfl⟩
    · rintro ⟨_ | cause | cause | cause | cause, happens, rfl⟩
      · exact absurd happens.1 hthere
      · exact ⟨cause, happens.2, rfl⟩
      · exact absurd happens.1 hdir
      · exact absurd happens.1.1 hdir
      · exact absurd happens.1.1 hdir
  by_cases hdir : t.isDir d.path = true
  swap
  · rw [fails_of_error_iff (prepare_of_occupied hthere (by simpa using hdir))]
    constructor
    · rintro rfl
      exact ⟨.occupied, ⟨hthere, by simpa using hdir⟩, rfl⟩
    · rintro ⟨_ | cause | cause | cause | cause, happens, rfl⟩
      · rfl
      · exact absurd (hthere.symm.trans happens.1) (by simp)
      · exact absurd happens.1 hdir
      · exact absurd happens.1.1 hdir
      · exact absurd happens.1.1 hdir
  rw [fails_prepare_of_isDir hdir, StoreFolder.fails_guard_iff, StoreFolder.fails_empty_iff]
  constructor
  · rintro ⟨hguard, ⟨cause, unreadable, rfl⟩ | ⟨hrecorded, ⟨cause, hfails, rfl⟩ |
      ⟨u, hremove, cause, hfails, rfl⟩⟩⟩
    · exact ⟨.readRecord cause, ⟨hdir, hguard, unreadable⟩, rfl⟩
    · exact ⟨.remove cause, ⟨⟨hdir, hguard, hrecorded⟩, hfails⟩, rfl⟩
    · exact ⟨.remake cause, ⟨⟨hdir, hguard, hrecorded⟩, u, hremove, hfails⟩, rfl⟩
  · rintro ⟨_ | cause | cause | cause | cause, happens, rfl⟩
    · exact absurd (hdir.symm.trans happens.2) (by simp)
    · exact absurd (hthere.symm.trans happens.1) (by simp)
    · exact ⟨happens.2.1, .inl ⟨cause, happens.2.2, rfl⟩⟩
    · exact ⟨happens.1.2.1, .inr ⟨happens.1.2.2, .inl ⟨cause, happens.2, rfl⟩⟩⟩
    · obtain ⟨conflict, u, hremove, hfails⟩ := happens
      exact ⟨conflict.2.1, .inr ⟨conflict.2.2, .inr ⟨u, hremove, cause, hfails, rfl⟩⟩⟩

/-- A folder has one thing wrong with it at most. -/
theorem FolderFault.Happens.unique {fault fault' : FolderFault} (h : fault.Happens d c t)
    (h' : fault'.Happens d c t) : fault = fault' :=
  eq_of_reported_eq
    ((fails_prepare_iff.2 ⟨fault, h, rfl⟩).unique (fails_prepare_iff.2 ⟨fault', h', rfl⟩))

/-! ### The partitions -/

/-- The engine comes as far as opening the partition with an id, and all before it were opened. -/
def ComesTo (d : StoreFolder) (c : EngineSettings) (host : Host) (id : Int32) (host' : Host) :
    Prop :=
  ∃ t found before after registry, Engine.prepare d c host.tree = .ok () t ∧
    d.idsOnDisk t = .ok found t ∧ c.restored found = before ++ id :: after ∧
    Restore.openStretch Backend.table d c before { host with tree := t } = .ok registry host'

/-- To open a stretch is to open its front and then the rest. -/
theorem Restore.openStretch_append (b : Backend) (d : StoreFolder) (c : EngineSettings)
    (first second : List Int32) : Restore.openStretch b d c (first ++ second) = (do
      let opened ← Restore.openStretch b d c first
      let more ← Restore.openStretch b d c second
      pure (opened ++ more)) := by
  induction first with
  | nil => simp [Restore.openStretch]
  | cons id rest ih =>
      rw [List.cons_append, Restore.openStretch, Restore.openStretch, ih]
      simp only [bind_assoc, pure_bind, List.cons_append]

/-- What is only put together behind an action does not fail. -/
theorem Action.fails_bind_pure_iff {ε σ α β : Type} {x : EStateM ε σ α} {f : α → β} {s : σ}
    {e : ε} : Fails (do let a ← x; pure (f a)) s e ↔ Fails x s e := by
  rw [fails_bind_iff, or_iff_left]
  rintro ⟨a, s', -, hpure⟩
  exact not_fails_of_ok (pure_apply (f a) s') hpure

/-- A stretch fails at the first of its partitions that cannot be opened. -/
theorem Restore.fails_openStretch_iff {ids : List Int32} :
    Fails (Restore.openStretch b d c ids) host e ↔ ∃ before id after registry host',
      ids = before ++ id :: after ∧
      Restore.openStretch b d c before host = .ok registry host' ∧
      Fails (b.attach d (c.spec id)) host' e := by
  constructor
  · intro hfails
    induction ids generalizing host with
    | nil => exact absurd hfails (not_fails_of_ok (pure_apply [] host))
    | cons id rest ih =>
        rw [Restore.openStretch, fails_bind_iff] at hfails
        rcases hfails with hattach | ⟨h, host₁, hattach, hrest⟩
        · exact ⟨[], id, rest, [], host, rfl, rfl, hattach⟩
        · rw [Action.fails_bind_pure_iff] at hrest
          obtain ⟨before, id', after, registry, host', rfl, hopen, hattach'⟩ := ih hrest
          refine ⟨id :: before, id', after, (id, h) :: registry, host', rfl, ?_, hattach'⟩
          rw [Restore.openStretch, bind_of_ok hattach, bind_of_ok hopen]
          rfl
  · rintro ⟨before, id, after, registry, host', rfl, hopen, hattach⟩
    rw [Restore.openStretch_append, fails_bind_of_ok hopen, Action.fails_bind_pure_iff,
      Restore.openStretch, fails_bind_iff]
    exact .inl hattach

/-- Of the partitions that are opened in turn there is one at most that is come to and fails. -/
theorem Restore.eq_of_fails_attach {before before' after after' : List Int32} {id' : Int32}
    {registry registry' : List (Int32 × Handle)} {host₁ host₁' : Host} {e' : StoreError}
    (hids : before ++ id :: after = before' ++ id' :: after')
    (hopen : Restore.openStretch b d c before host = .ok registry host₁)
    (hopen' : Restore.openStretch b d c before' host = .ok registry' host₁')
    (hfails : Fails (b.attach d (c.spec id)) host₁ e)
    (hfails' : Fails (b.attach d (c.spec id')) host₁' e') : id = id' ∧ host₁ = host₁' := by
  -- A list that goes on behind the partition that fails is not opened.
  have stuck {before more : List Int32} {id : Int32} {registry registry' : List (Int32 × Handle)}
      {host₁ host₁' : Host} {e : StoreError}
      (hopen : Restore.openStretch b d c before host = .ok registry host₁)
      (hfails : Fails (b.attach d (c.spec id)) host₁ e) :
      Restore.openStretch b d c (before ++ id :: more) host ≠ .ok registry' host₁' := fun h =>
    not_fails_of_ok h
      (Restore.fails_openStretch_iff.2 ⟨before, id, more, registry, host₁, rfl, hopen, hfails⟩)
  rcases List.append_eq_append_iff.1 hids with ⟨more, rfl, hmore⟩ | ⟨more, rfl, hmore⟩
  · cases more with
    | nil =>
        rw [List.append_nil] at hopen'
        cases hopen.symm.trans hopen'
        exact ⟨(List.cons.inj hmore).1, rfl⟩
    | cons first more =>
        obtain ⟨rfl, -⟩ := List.cons.inj hmore
        exact absurd hopen' (stuck hopen hfails)
  · cases more with
    | nil =>
        rw [List.append_nil] at hopen
        cases hopen.symm.trans hopen'
        exact ⟨(List.cons.inj hmore).1.symm, rfl⟩
    | cons first more =>
        obtain ⟨rfl, -⟩ := List.cons.inj hmore
        exact absurd hopen (stuck hopen' hfails')

/-- The failure of the first stretch that has one is that of all of them in one stretch. -/
theorem Restore.fails_openStretches_iff {stretches : List (List Int32)} :
    Fails (Restore.openStretches b d c stretches) host e ↔
      Fails (Restore.openStretch b d c stretches.flatten) host e := by
  -- A stretch that fails leaves the later ones to go on, but its own error is the answer, as in one
  -- stretch.
  induction stretches generalizing host with
  | nil => rfl
  | cons stretch rest ih =>
      rw [List.flatten_cons, Restore.openStretch_append]
      cases hopen : Restore.openStretch b d c stretch host with
      | error e' host' =>
          have hall : ∃ host'', Restore.openStretches b d c (stretch :: rest) host =
              .error e' host'' := by
            simp only [Restore.openStretches, hopen]
            split <;> exact ⟨_, rfl⟩
          obtain ⟨host'', hall⟩ := hall
          rw [fails_of_error_iff hall, fails_of_error_iff (bind_of_error hopen)]
      | ok opened host' =>
          rw [fails_bind_of_ok hopen, Action.fails_bind_pure_iff, ← ih]
          cases hmore : Restore.openStretches b d c rest host' with
          | ok more host'' =>
              have hall : Restore.openStretches b d c (stretch :: rest) host =
                  .ok (opened ++ more) host'' := by
                simp only [Restore.openStretches, hopen, hmore]
              exact iff_of_false (not_fails_of_ok hall) (not_fails_of_ok hmore)
          | error e' host'' =>
              have hall : Restore.openStretches b d c (stretch :: rest) host =
                  .error e' host'' := by
                simp only [Restore.openStretches, hopen, hmore]
              rw [fails_of_error_iff hall, fails_of_error_iff hmore]

/-- Whatever the number of workers, the partitions fail as if they were opened one after another. -/
theorem Restore.fails_openAll_iff {found : List Int32}
    (hfound : b.idsOnDisk d host = .ok found host) : Fails (Restore.openAll b d c) host e ↔
      Fails (Restore.openStretch b d c (c.restored found)) host e := by
  have hdata (host' : Host) : Fails (if c.withData then
      Restore.openData b d c (found.filter (· != metadataId)) else pure []) host' e ↔
      Fails (Restore.openStretch b d c
        (if c.withData then found.filter (· != metadataId) else [])) host' e := by
    split
    · rw [Restore.openData, Restore.fails_openStretches_iff, flatten_stretches]
    · rfl
  rw [Fails, Restore.openAll_of_idsOnDisk hfound, EngineSettings.restored,
    Restore.openStretch_append, ← Fails]
  have hmetadata : (if c.withMetadata then Restore.openStretch b d c [metadataId] else pure []) =
      Restore.openStretch b d c (if c.withMetadata then [metadataId] else []) := by
    split <;> rfl
  rw [hmetadata, fails_bind_iff, fails_bind_iff]
  simp only [Action.fails_bind_pure_iff, hdata]

/-- Partitions in memory are opened without fail. -/
theorem Backend.not_fails_openAll_inMemory :
    ¬Fails (Restore.openAll Backend.inMemory d c) host e := by
  have hfound : Backend.inMemory.idsOnDisk d host = .ok [] host := rfl
  rw [Restore.fails_openAll_iff hfound, Restore.fails_openStretch_iff]
  rintro ⟨before, id, after, registry, host', -, -, hattach⟩
  exact not_fails_of_ok (HostAction.register_of_ok (t := host'.tree) rfl) hattach

/-- To open a partition of the store on disk fails exactly if its table cannot be opened. -/
theorem Backend.fails_attach_table_iff (hstore : c.store = d.store) :
    Fails (Backend.table.attach d (c.spec id)) host e ↔
      Fails (openTable (d.partitionPath id) (c.spec id)) host.tree e := by
  show Fails (if c.store = d.store then _ else _) host e ↔ _
  rw [if_pos hstore, HostAction.register, fails_bind_iff, HostAction.fails_onTree_iff, or_iff_left]
  · rfl
  · rintro ⟨part, host', -, hset⟩
    exact not_fails_of_ok rfl hset

/-- What can be wrong with a partition that is to be opened. -/
inductive PartitionFault where
  /-- Its directory cannot be made. -/
  | makeDir (cause : IoError)
  /-- The directory is there, and the error is that of the table file in it. -/
  | table (e : StoreError)

namespace PartitionFault

/-- How a fault is reported. -/
def reported : PartitionFault → StoreError
  | makeDir cause => .io cause
  | table e => e

/-- The fault is come to when the partition is opened in the tree. -/
def Happens (dir : Path) (spec : PartitionSpec) (t : FileTree) : PartitionFault → Prop
  | makeDir cause => Fails (Files.createDirAll dir) t cause
  | table e => (∃ u, Files.createDirAll dir t = .ok () u) ∧ Fails (openTable dir spec) t e

variable {dir : Path} {spec : PartitionSpec}

/-- To open a table fails exactly if one of the faults of a partition happens, and reports that one.
-/
theorem fails_openTable_iff : Fails (openTable dir spec) t e ↔
    ∃ fault : PartitionFault, fault.Happens dir spec t ∧ fault.reported = e := by
  cases hrun : Files.createDirAll dir t with
  | ok _ u =>
      constructor
      · exact fun hfails => ⟨.table e, ⟨⟨u, hrun⟩, hfails⟩, rfl⟩
      · rintro ⟨cause | e', happens, rfl⟩
        · exact absurd happens (not_fails_of_ok hrun)
        · exact happens.2
  | error cause u =>
      have hopen : openTable dir spec t = .error (.io cause) u := by
        rw [openTable, bind_of_error (StoreAction.io_of_error hrun)]
      rw [fails_of_error_iff hopen]
      constructor
      · rintro rfl
        exact ⟨.makeDir cause, ⟨u, hrun⟩, rfl⟩
      · rintro ⟨cause' | e', happens, rfl⟩
        · rw [(fails_of_error_iff hrun).1 happens]
          rfl
        · exact (fails_of_error_iff hopen).1 happens.2

/-- At most one fault of a partition happens: each of them happens behind steps that the ones before
it stop. -/
theorem Happens.unique {fault fault' : PartitionFault} (h : fault.Happens dir spec t)
    (h' : fault'.Happens dir spec t) : fault = fault' := by
  cases fault with
  | makeDir cause =>
      cases fault' with
      | makeDir cause' => rw [Fails.unique h h']
      | table e' =>
          obtain ⟨⟨u, hmade⟩, -⟩ := h'
          exact absurd h (not_fails_of_ok hmade)
  | table e =>
      cases fault' with
      | makeDir cause' =>
          obtain ⟨⟨u, hmade⟩, -⟩ := h
          exact absurd h' (not_fails_of_ok hmade)
      | table e' => rw [h.2.unique h'.2]

end PartitionFault

/-! ### The record -/

/-- What can be wrong with the record that is to be written. -/
inductive RecordFault where
  /-- The directory for it cannot be made. -/
  | makeDir (cause : IoError)
  /-- The directory is there, and the record cannot be written. -/
  | write (cause : IoError)

namespace RecordFault

/-- The error of the file system. -/
def cause : RecordFault → IoError
  | makeDir cause => cause
  | write cause => cause

/-- The fault is come to when the record, of which there is none, is written. -/
def Happens (d : StoreFolder) (record : EngineRecord) (t : FileTree) : RecordFault → Prop
  | makeDir cause => t.exists d.recordPath = false ∧
      Fails (Files.createDirAll (d.partitionPath metadataId)) t cause
  | write cause => t.exists d.recordPath = false ∧
      ∃ u, Files.createDirAll (d.partitionPath metadataId) t = .ok () u ∧
        Fails (Files.replace d.recordPath ((d.partitionPath metadataId).join
          StoreFolder.recordScratchName) record.bytes) u cause

/-- At most one fault of the record happens. -/
theorem Happens.unique {record : EngineRecord} {fault fault' : RecordFault}
    (h : fault.Happens d record t) (h' : fault'.Happens d record t) : fault = fault' := by
  cases fault with
  | makeDir cause =>
      cases fault' with
      | makeDir cause' => rw [h.2.unique h'.2]
      | write cause' =>
          obtain ⟨-, u, hmade, -⟩ := h'
          exact absurd h.2 (not_fails_of_ok hmade)
  | write cause =>
      obtain ⟨-, u, hmade, hwrite⟩ := h
      cases fault' with
      | makeDir cause' => exact absurd h'.2 (not_fails_of_ok hmade)
      | write cause' =>
          obtain ⟨-, u', hmade', hwrite'⟩ := h'
          cases hmade.symm.trans hmade'
          rw [hwrite.unique hwrite']

end RecordFault

/-- To write the record fails exactly if one of the faults of the record happens, with its cause. -/
theorem StoreFolder.fails_recordOnce_iff {record : EngineRecord} :
    Fails (d.recordOnce record) t e ↔ ∃ fault : RecordFault, fault.Happens d record t ∧
      .io fault.cause = e := by
  rw [recordOnce, fails_bind_of_ok (get_apply t)]
  cases hthere : t.exists d.recordPath with
  | true =>
      refine iff_of_false (not_fails_of_ok (pure_apply false t)) ?_
      rintro ⟨cause | cause, ⟨hmissing, -⟩, -⟩ <;> simp [hthere] at hmissing
  | false =>
      simp only [Bool.false_eq_true, if_false]
      rw [fails_bind_iff, StoreAction.fails_io_iff]
      -- The two steps that can fail are the directory and the writing, and the second is reached
      -- when the first went well.
      constructor
      · rintro (⟨cause, hmake, rfl⟩ | ⟨_, u, hmake, hrest⟩)
        · exact ⟨.makeDir cause, ⟨hthere, hmake⟩, rfl⟩
        · have hwrite : Fails (record.write d.recordPath) u e :=
            (Action.fails_bind_pure_iff (f := fun _ => true)).1 hrest
          rw [EngineRecord.write, withExtension_recordPath, StoreAction.fails_io_iff] at hwrite
          obtain ⟨cause, hwrite, rfl⟩ := hwrite
          exact ⟨.write cause, ⟨hthere, u, StoreAction.ofFiles_eq_ok_iff.1 hmake, hwrite⟩, rfl⟩
      · rintro ⟨cause | cause, happens, rfl⟩
        · exact .inl ⟨cause, happens.2, rfl⟩
        · obtain ⟨-, u, hmake, hwrite⟩ := happens
          refine .inr ⟨(), u, StoreAction.ofFiles_of_ok hmake,
            (Action.fails_bind_pure_iff (f := fun _ => true)).2 ?_⟩
          rw [EngineRecord.write, withExtension_recordPath, StoreAction.fails_io_iff]
          exact ⟨cause, hwrite, rfl⟩

/-- A failure of the file system during a step is reported as a failed step. -/
theorem StoreAction.fails_during_iff {α : Type} {step : InitializationStep}
    {action : StoreAction α} (hio : ∀ e, Fails action t e → ∃ cause, e = .io cause) :
    Fails (during step action) t e ↔
      ∃ cause, Fails action t (.io cause) ∧ .initializationFailure step cause = e := by
  cases h : action t with
  | ok a u =>
      have hduring : during step action t = .ok a u := by simp only [during, h]
      simp [not_fails_of_ok hduring, not_fails_of_ok h]
  | error e' u =>
      obtain ⟨cause, rfl⟩ := hio e' ⟨u, h⟩
      have hduring : during step action t = .error (.initializationFailure step cause) u := by
        simp only [during, h]
      rw [fails_of_error_iff hduring]
      constructor
      · rintro rfl
        exact ⟨cause, ⟨u, h⟩, rfl⟩
      · rintro ⟨cause', hfails, rfl⟩
        rw [StoreError.io.inj ((fails_of_error_iff h).1 hfails)]

/-- An opening with a metadata partition fails at the record exactly if to write it fails, and
reports that as part of the opening. -/
theorem fails_keepRecord_iff : Fails (Engine.keepRecord d c) t e ↔ c.withMetadata = true ∧
    ∃ fault : RecordFault, fault.Happens d c.record t ∧
      .initializationFailure .keepRecord fault.cause = e := by
  rw [Engine.keepRecord]
  cases c.withMetadata with
  | false => simpa using not_fails_of_ok (pure_apply () t)
  | true =>
      simp only [if_true, true_and]
      rw [Action.fails_bind_pure_iff (f := fun _ => ()), StoreAction.fails_during_iff]
      · constructor
        · rintro ⟨cause, hrecord, rfl⟩
          obtain ⟨fault, happens, hcause⟩ := StoreFolder.fails_recordOnce_iff.1 hrecord
          cases hcause
          exact ⟨fault, happens, rfl⟩
        · rintro ⟨fault, happens, rfl⟩
          exact ⟨fault.cause, StoreFolder.fails_recordOnce_iff.2 ⟨fault, happens, rfl⟩, rfl⟩
      · intro e' hrecord
        obtain ⟨fault, -, rfl⟩ := StoreFolder.fails_recordOnce_iff.1 hrecord
        exact ⟨fault.cause, rfl⟩

/-! ### An opening -/

/-- What an opening can fail at. -/
inductive OpeningFault where
  /-- The store's folder, when it is made ready. -/
  | folder (fault : FolderFault)
  /-- A partition that is to be opened. -/
  | partition (id : Int32) (fault : PartitionFault)
  /-- The engine's record. -/
  | record (fault : RecordFault)

namespace OpeningFault

/-- How a fault is reported. -/
def reported (d : StoreFolder) : OpeningFault → StoreError
  | folder fault => fault.reported d
  | partition _ fault => fault.reported
  | record fault => .initializationFailure .keepRecord fault.cause

/-- The error of the file system, if it was one of an operation on a directory or on the record. -/
def cause? : OpeningFault → Option IoError
  | folder .occupied => none
  | folder (.make cause) => some cause
  | folder (.readRecord cause) => some cause
  | folder (.remove cause) => some cause
  | folder (.remake cause) => some cause
  | partition _ (.makeDir cause) => some cause
  | partition _ (.table _) => none
  | record fault => some fault.cause

/-- The engine comes as far as keeping its record in the tree: all partitions were opened. -/
def ComesToRecord (d : StoreFolder) (c : EngineSettings) (host : Host) (t : FileTree) : Prop :=
  c.withMetadata = true ∧ ∃ u registry host', Engine.prepare d c host.tree = .ok () u ∧
    Restore.openAll (Backend.ofKind c.backend) d c { host with tree := u } =
      .ok registry host' ∧ host'.tree = t

/-- The fault is come to when an engine is opened on the host. -/
def Happens (d : StoreFolder) (c : EngineSettings) (host : Host) : OpeningFault → Prop
  | folder fault => fault.Happens d c host.tree
  | partition id fault => c.backend = .table ∧ ∃ host', ComesTo d c host id host' ∧
      fault.Happens (d.partitionPath id) (c.spec id) host'.tree
  | record fault => ∃ t, ComesToRecord d c host t ∧ fault.Happens d c.record t

end OpeningFault

/-- An opening fails when the folder is made ready, or when the partitions are opened, or when the
record is kept. -/
theorem fails_open_iff (hnamed : StoreFolder.named c.root c.store = .ok d) :
    Fails (Engine.open c) host e ↔ Fails (Engine.prepare d c) host.tree e ∨
      ∃ t, Engine.prepare d c host.tree = .ok () t ∧
        (Fails (Restore.openAll (Backend.ofKind c.backend) d c) { host with tree := t } e ∨
          ∃ registry host', Restore.openAll (Backend.ofKind c.backend) d c
              { host with tree := t } = .ok registry host' ∧
            Fails (Engine.keepRecord d c) host'.tree e) := by
  have hfolder : (HostAction.ofExcept (.ok d) : HostAction StoreFolder) host = .ok d host := rfl
  rw [Engine.open, Engine.openWith, hnamed, fails_bind_of_ok hfolder, fails_bind_iff,
    HostAction.fails_onTree_iff]
  refine or_congr Iff.rfl ?_
  -- Behind the preparation: the record may fail, the report that ends it cannot.
  have hrest (t : FileTree) : Fails (do
      let registry ← Restore.openAll (Backend.ofKind c.backend) d c
      HostAction.onTree (Engine.keepRecord d c)
      let host ← get
      let engine : Engine :=
        { settings := c, folder := d, backend := Backend.ofKind c.backend, registry,
          phase := .opened, listener := none, reports := [] }
      pure (engine.reported host.tree)) { host with tree := t } e ↔
      (Fails (Restore.openAll (Backend.ofKind c.backend) d c) { host with tree := t } e ∨
        ∃ registry host', Restore.openAll (Backend.ofKind c.backend) d c
            { host with tree := t } = .ok registry host' ∧
          Fails (Engine.keepRecord d c) host'.tree e) := by
    rw [fails_bind_iff]
    refine or_congr Iff.rfl (exists_congr fun registry => exists_congr fun host' =>
      and_congr_right fun _ => ?_)
    rw [fails_bind_iff, HostAction.fails_onTree_iff, or_iff_left]
    rintro ⟨_, host'', -, hlast⟩
    exact not_fails_of_ok rfl hlast
  constructor
  · rintro ⟨_, host₁, hprepare, hfails⟩
    obtain ⟨t, hready, rfl⟩ := HostAction.onTree_eq_ok_iff.1 hprepare
    exact ⟨t, hready, (hrest t).1 hfails⟩
  · rintro ⟨t, hprepare, hfails⟩
    exact ⟨(), _, HostAction.onTree_of_ok hprepare, (hrest t).2 hfails⟩

namespace OpeningFault

/-- Opening the partitions fails at one that the engine comes to. -/
theorem fails_openAll_iff (hstore : c.store = d.store)
    (hprepare : Engine.prepare d c host.tree = .ok () t) :
    Fails (Restore.openAll (Backend.ofKind c.backend) d c) { host with tree := t } e ↔
      c.backend = .table ∧ ∃ id host', ComesTo d c host id host' ∧
        Fails (openTable (d.partitionPath id) (c.spec id)) host'.tree e := by
  cases hkind : c.backend with
  | inMemory => simp [Backend.ofKind, Backend.not_fails_openAll_inMemory]
  | table =>
      obtain ⟨htext, loc, hway⟩ := StoreFolder.way_of_prepare hprepare
      obtain ⟨found, hfound, -⟩ := StoreFolder.idsOnDisk_of_find
        (find_of_resolveSteps (Path.hasRoom_of_checkText htext d.endsWithSlash_path) hway)
        (resolveSteps_isIn hway)
      have hfoundHost : Backend.table.idsOnDisk d { host with tree := t } =
          .ok found { host with tree := t } := HostAction.onTree_of_ok hfound
      rw [Backend.ofKind, Restore.fails_openAll_iff hfoundHost, Restore.fails_openStretch_iff]
      simp only [Backend.fails_attach_table_iff hstore, true_and]
      constructor
      · rintro ⟨before, id, after, registry, host', hids, hopen, hfails⟩
        exact ⟨id, host', ⟨t, found, before, after, registry, hprepare, hfound, hids, hopen⟩,
          hfails⟩
      · rintro ⟨id, host', ⟨t', found', before, after, registry, hprepare', hfound', hids, hopen⟩,
          hfails⟩
        cases hprepare'.symm.trans hprepare
        cases hfound'.symm.trans hfound
        exact ⟨before, id, after, registry, host', hids, hopen, hfails⟩

/-- An opening fails at one of its operations, and with what that is reported as. -/
theorem fails_iff (hnamed : StoreFolder.named c.root c.store = .ok d) :
    Fails (Engine.open c) host e ↔ ∃ fault : OpeningFault, fault.Happens d c host ∧
      fault.reported d = e := by
  obtain ⟨-, hstore⟩ := StoreFolder.store_of_named hnamed
  rw [fails_open_iff hnamed, fails_prepare_iff]
  constructor
  · rintro (⟨fault, happens, rfl⟩ | ⟨t, hprepare, hall | ⟨registry, host', hall, hkeep⟩⟩)
    · exact ⟨.folder fault, happens, rfl⟩
    · obtain ⟨hkind, id, host', comes, hfails⟩ := (fails_openAll_iff hstore hprepare).1 hall
      obtain ⟨fault, happens, rfl⟩ := PartitionFault.fails_openTable_iff.1 hfails
      exact ⟨.partition id fault, ⟨hkind, host', comes, happens⟩, rfl⟩
    · obtain ⟨hmetadata, fault, happens, rfl⟩ := fails_keepRecord_iff.1 hkeep
      exact ⟨.record fault,
        ⟨host'.tree, ⟨hmetadata, t, registry, host', hprepare, hall, rfl⟩, happens⟩, rfl⟩
  · rintro ⟨fault, happens, rfl⟩
    cases fault with
    | folder fault => exact .inl ⟨fault, happens, rfl⟩
    | partition id fault =>
        obtain ⟨hkind, host', comes, happens⟩ := happens
        have ⟨t, _, _, _, _, hprepare, _⟩ := comes
        exact .inr ⟨t, hprepare, .inl ((fails_openAll_iff hstore hprepare).2 ⟨hkind, id, host',
          comes, PartitionFault.fails_openTable_iff.2 ⟨fault, happens, rfl⟩⟩)⟩
    | record fault =>
        obtain ⟨-, ⟨hmetadata, u, registry, host', hprepare, hall, rfl⟩, happens⟩ := happens
        exact .inr ⟨u, hprepare, .inr ⟨registry, host', hall,
          fails_keepRecord_iff.2 ⟨hmetadata, fault, happens, rfl⟩⟩⟩

/-- There is one fault at most that an opening comes to. -/
theorem Happens.unique (hnamed : StoreFolder.named c.root c.store = .ok d)
    {fault fault' : OpeningFault} (h : fault.Happens d c host) (h' : fault'.Happens d c host) :
    fault = fault' := by
  obtain ⟨-, hstore⟩ := StoreFolder.store_of_named hnamed
  -- A folder with a fault is not made ready, and behind a partition with one there is no record.
  have hfolder {fault : FolderFault} {t : FileTree} (h : fault.Happens d c host.tree) :
      Engine.prepare d c host.tree ≠ .ok () t := fun hprepare =>
    not_fails_of_ok hprepare (fails_prepare_iff.2 ⟨fault, h, rfl⟩)
  have hrecord {id : Int32} {fault : PartitionFault} {t : FileTree}
      (h : (partition id fault).Happens d c host) : ¬ComesToRecord d c host t := by
    rintro ⟨-, u, registry, host', hprepare, hall, -⟩
    obtain ⟨hkind, host₁, comes, happens⟩ := h
    exact not_fails_of_ok hall ((fails_openAll_iff hstore hprepare).2
      ⟨hkind, id, host₁, comes, PartitionFault.fails_openTable_iff.2 ⟨fault, happens, rfl⟩⟩)
  cases fault with
  | folder fault =>
      cases fault' with
      | folder fault' => rw [FolderFault.Happens.unique h h']
      | partition id fault' =>
          obtain ⟨-, host', ⟨t, -, -, -, -, hprepare, -⟩, -⟩ := h'
          exact absurd hprepare (hfolder h)
      | record fault' =>
          obtain ⟨-, ⟨-, t, -, -, hprepare, -⟩, -⟩ := h'
          exact absurd hprepare (hfolder h)
  | partition id fault =>
      cases fault' with
      | folder fault' =>
          obtain ⟨-, host', ⟨t, -, -, -, -, hprepare, -⟩, -⟩ := h
          exact absurd hprepare (hfolder h')
      | partition id' fault' =>
          obtain ⟨-, host₁, ⟨t, found, before, after, registry, hprepare, hfound, hids, hopen⟩,
            happens⟩ := h
          obtain ⟨-, host₁', ⟨t', found', before', after', registry', hprepare', hfound', hids',
            hopen'⟩, happens'⟩ := h'
          cases hprepare.symm.trans hprepare'
          cases hfound.symm.trans hfound'
          obtain ⟨rfl, rfl⟩ := Restore.eq_of_fails_attach (hids.symm.trans hids') hopen hopen'
            ((Backend.fails_attach_table_iff hstore).2
              (PartitionFault.fails_openTable_iff.2 ⟨fault, happens, rfl⟩))
            ((Backend.fails_attach_table_iff hstore).2
              (PartitionFault.fails_openTable_iff.2 ⟨fault', happens', rfl⟩))
          rw [happens.unique happens']
      | record fault' =>
          obtain ⟨t, comes, -⟩ := h'
          exact absurd comes (hrecord h)
  | record fault =>
      cases fault' with
      | folder fault' =>
          obtain ⟨-, ⟨-, t, -, -, hprepare, -⟩, -⟩ := h
          exact absurd hprepare (hfolder h')
      | partition id fault' =>
          obtain ⟨t, comes, -⟩ := h
          exact absurd comes (hrecord h')
      | record fault' =>
          obtain ⟨t, ⟨-, u, registry, host₁, hprepare, hall, rfl⟩, happens⟩ := h
          obtain ⟨t', ⟨-, u', registry', host₁', hprepare', hall', rfl⟩, happens'⟩ := h'
          cases hprepare.symm.trans hprepare'
          cases hall.symm.trans hall'
          rw [happens.unique happens']

end OpeningFault

/-- An opening fails with an error exactly if it comes to a fault that is reported so, and it comes
to one fault at most. If that is the failure of an operation on a directory or on the record, it is
reported as a failed initialization with its cause, unless it is the directory of a partition that
cannot be made: then it is reported as a bare failure of the file system. -/
theorem open_fails_iff (hnamed : StoreFolder.named c.root c.store = .ok d) (host : Host) :
    (∀ e, (∃ host', Engine.open c host = .error e host') ↔
        ∃ fault : OpeningFault, fault.Happens d c host ∧ fault.reported d = e) ∧
      (∀ fault fault' : OpeningFault, fault.Happens d c host → fault'.Happens d c host →
        fault = fault') ∧
      ∀ (fault : OpeningFault) (cause : IoError), fault.cause? = some cause →
        ((∃ step, fault.reported d = .initializationFailure step cause) ↔
          ¬∃ id, fault = .partition id (.makeDir cause)) ∧
        (fault.reported d = .io cause ↔ ∃ id, fault = .partition id (.makeDir cause)) := by
  refine ⟨fun e => OpeningFault.fails_iff hnamed,
    fun fault fault' h h' => OpeningFault.Happens.unique hnamed h h', fun fault cause hcause => ?_⟩
  cases fault with
  | folder fault =>
      cases fault <;> simp_all [OpeningFault.cause?, OpeningFault.reported, FolderFault.reported]
  | partition id fault =>
      cases fault <;> simp_all [OpeningFault.cause?, OpeningFault.reported, PartitionFault.reported]
  | record fault =>
      simp_all [OpeningFault.cause?, OpeningFault.reported]

/-- A store with a file in the place of its metadata partition's directory. -/
def takenStore : FileTree :=
  (FileTree.empty.place [] "s" .dir).place ["s"] "s_-1" (.file [])

/-- Under the file there is no record to be read, and that is a failed initialization. Without the
guard the file is first met when the partition is opened, and that is a bare failure. -/
theorem opens_taken_store :
    (∃ host', Engine.open (settingsUnder ⟨"."⟩) (Host.ofTree takenStore) =
        .error (.initializationFailure
          (.readRecord (StoreFolder.recordPath ⟨⟨"."⟩, "s", by decide⟩)) .notADirectory) host') ∧
      (OpeningFault.partition (-1) (.makeDir .alreadyExists)).Happens ⟨⟨"."⟩, "s", by decide⟩
        { settingsUnder ⟨"."⟩ with guardOnReopen := false } (Host.ofTree takenStore) ∧
      ∃ host', Engine.open { settingsUnder ⟨"."⟩ with guardOnReopen := false }
        (Host.ofTree takenStore) = .error (.io .alreadyExists) host' := by
  have hdir : takenStore.isDir (StoreFolder.path ⟨⟨"."⟩, "s", by decide⟩) = true := by
    decide +kernel
  have hread : takenStore.read (StoreFolder.recordPath ⟨⟨"."⟩, "s", by decide⟩) =
      .error .notADirectory := by decide +kernel
  have hprepare : Engine.prepare ⟨⟨"."⟩, "s", by decide⟩
      { settingsUnder ⟨"."⟩ with guardOnReopen := false } takenStore = .ok () takenStore := by
    rw [Engine.prepare, bind_of_ok (StoreFolder.ensure_of_isDir hdir)]
    rfl
  have hfound : StoreFolder.idsOnDisk ⟨⟨"."⟩, "s", by decide⟩ takenStore = .ok [] takenStore := by
    have key : succeedsWith (StoreFolder.idsOnDisk ⟨⟨"."⟩, "s", by decide⟩) takenStore
        (fun found _ => found.isEmpty) = true := by decide +kernel
    obtain ⟨found, t, hids, key⟩ := exists_of_succeedsWith key
    have hsame := (StoreFolder.idsOnDisk_nodup ⟨⟨"."⟩, "s", by decide⟩ takenStore).1
    rw [hids] at hsame
    rw [hids, List.isEmpty_iff.1 key, show t = takenStore from hsame]
  have hmake : Fails (Files.createDirAll
      (StoreFolder.partitionPath ⟨⟨"."⟩, "s", by decide⟩ (-1))) takenStore .alreadyExists := by
    have key : failsWith (Files.createDirAll
        (StoreFolder.partitionPath ⟨⟨"."⟩, "s", by decide⟩ (-1))) takenStore
        (fun e _ => decide (e = .alreadyExists)) = true := by decide +kernel
    obtain ⟨e, u, hmake, key⟩ := exists_of_failsWith key
    exact ⟨u, of_decide_eq_true key ▸ hmake⟩
  have happens : (OpeningFault.partition (-1) (.makeDir .alreadyExists)).Happens
      ⟨⟨"."⟩, "s", by decide⟩ { settingsUnder ⟨"."⟩ with guardOnReopen := false }
      (Host.ofTree takenStore) :=
    ⟨rfl, Host.ofTree takenStore,
      ⟨takenStore, [], [], [], [], hprepare, hfound, rfl, rfl⟩, hmake⟩
  refine ⟨?_, happens, ?_⟩
  · exact ((open_fails_iff (d := ⟨⟨"."⟩, "s", by decide⟩) rfl (Host.ofTree takenStore)).1 _).2
      ⟨.folder (.readRecord .notADirectory), ⟨hdir, rfl, hread, by simp⟩, rfl⟩
  · exact ((open_fails_iff rfl (Host.ofTree takenStore)).1 _).2 ⟨_, happens, rfl⟩

end PartitionStore
