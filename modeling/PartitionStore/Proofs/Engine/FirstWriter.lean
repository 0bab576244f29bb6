import PartitionStore.Proofs.Engine.Interleaving

/-!
# `PartitionStore.Proofs.Engine.FirstWriter`: the first record stays

A folder is called any number of times, and nothing else touches the tree (`StoreFolder.history`).
Some of the calls write a record, with whatever text it has, and some remove the folder: the guard
does where the record tells another format, so that hangs on the very text that was written. The
first record stays all the same (`FirstWriterWins`). From the call that wrote it on, it is what the
record's path reads as and no other call writes one, until the folder is removed. A file that the
record's path leads to at the start stays in the same way, be it a record or not: a folder asks its
path whether there is one, and nothing else.

The guard could remove the folder and fail to make it again, and then a record would be gone with no
answer that tells so. It does not, in a tree without links: where there is a record the way to the
folder is one of directories, and it can be made again wherever it was cut
(`exists_empty_of_records`).

* `FolderCall.outcome`: what can come of one call.
* `Outcome.read_of_wrote`, `Outcome.stays`: what that is for the record.
* `stays_of_read`: any number of calls, by induction on them.
-/

set_option autoImplicit false

namespace PartitionStore

open FileTree Naming StoreFolder

/-! ### Calls one after another -/

/-- A call that was made to a folder, what came of it, and the tree that it left. -/
structure FolderEvent where
  call : FolderCall
  answer : Except StoreError FolderReply
  left : FileTree

/-- The call is made to a folder. -/
def FolderCall.event (d : StoreFolder) (t : FileTree) (call : FolderCall) : FolderEvent :=
  ⟨call, Action.answer (call.run d t), Action.after (call.run d t)⟩

/-- The calls are made one after another, each to what the one before left, whether that succeeded
or not. -/
def StoreFolder.history (d : StoreFolder) : FileTree → List FolderCall → List FolderEvent
  | _, [] => []
  | t, call :: later => call.event d t :: d.history (call.event d t).left later

namespace FolderEvent

/-- The call wrote the record. -/
def Wrote (e : FolderEvent) (record : EngineRecord) : Prop :=
  e.call = .recordOnce record ∧ e.answer = .ok (.flag true)

/-- The call removed the folder: it was told to, or the guard emptied it. -/
def Removed (e : FolderEvent) : Prop :=
  e.call = .remove ∧ e.answer = .ok (.flag true) ∨
    ∃ format recorded, e.call = .guard format ∧ e.answer = .ok (.verdict (.emptied recorded))

end FolderEvent

/-- No event wrote a record, and after each of them the record's path reads as `data`. -/
def StoreFolder.Stays (d : StoreFolder) (data : Bytes) (events : List FolderEvent) : Prop :=
  ∀ e ∈ events, (∀ record, ¬e.Wrote record) ∧ e.left.read d.recordPath = .ok data

/-- Between two events that wrote a record the folder was removed. What was written, or was there at
the start, stays until it is. -/
structure FirstWriterWins (d : StoreFolder) (start : FileTree) (events : List FolderEvent) :
    Prop where
  once : ∀ before first between second later record record',
    events = before ++ first :: (between ++ second :: later) →
      first.Wrote record → second.Wrote record' → ∃ e ∈ between, e.Removed
  written : ∀ before e between later record, events = before ++ e :: (between ++ later) →
    e.Wrote record → (∀ e' ∈ between, ¬e'.Removed) →
      e.left.read d.recordPath = .ok record.bytes ∧ d.Stays record.bytes between
  found : ∀ between later data, events = between ++ later →
    start.read d.recordPath = .ok data → (∀ e ∈ between, ¬e.Removed) → d.Stays data between

variable {d : StoreFolder} {start t u : FileTree} {loc : Location} {data : Bytes}
  {record : EngineRecord} {recorded : TableFormat} {steps : List Step} {call : FolderCall}
  {calls : List FolderCall} {before between later : List FolderEvent}

/-! ### Emptying the folder -/

/-- What is removed leaves a way open. -/
theorem FileTree.OpenWay.gone (h : t.OpenWay steps) (gone : Gone loc t u) : u.OpenWay steps := by
  refine ⟨h.usable, fun front hfront => ?_⟩
  by_cases hin : loc <:+ Location.follow front
  · exact (gone.inside _ hin).imp_right And.right
  · rw [gone.outside _ hin]
    exact h.clear front hfront

namespace StoreFolder

/-- A folder with a record can be emptied: what is on the way to it are directories, so the way is
still open once it was removed. -/
theorem exists_empty_of_records (free : t.LinkFree []) (records : d.Records t recorded) :
    ∃ u, d.empty t = .ok () u := by
  obtain ⟨parent, loc, -, hway, named, hthere⟩ := exists_of_records records
  have isOpen : t.OpenWay d.path.steps :=
    openWay_of_dirs (forall_onWay_iff.1 fun l hl => isDir_of_onWay free hway hl)
  have hdir : t.node? (d.store :: parent) = some .dir :=
    hthere.resolve_right fun ⟨target, hlink⟩ => free _ target List.nil_suffix hlink
  -- Only a file could not be removed.
  rcases FileTree.removeDirAll_cases d.getLast?_path d.endsWithSlash_path t with
    ⟨-, hfile⟩ | ⟨place, node, s, -, -, hremove, gone⟩
  · obtain ⟨data, hdata⟩ := hfile _ _ (named.find .itself hdir fun hne => absurd rfl hne)
    cases hdata
  · obtain ⟨u, hmake⟩ := (isOpen.gone gone).createDirAll d.path_steps named.text
    exact ⟨u, (Action.bind_of_ok (StoreAction.ofFiles_of_ok hremove)).trans
      (StoreAction.ofFiles_of_ok hmake)⟩

/-- The guard empties the folder or leaves the tree as it is. -/
theorem guard_emptied_or_same (free : t.LinkFree []) (format : TableFormat) :
    (∃ recorded u, d.guard format t = .ok (.emptied recorded) u) ∨
      Action.after (d.guard format t) = t := by
  by_cases hkept : ∀ recorded, d.Records t recorded → recorded = format
  · exact .inr (after_guard_of_kept hkept)
  · -- A record tells another format, and the emptying that follows does not fail.
    obtain ⟨recorded, hrecorded⟩ := not_forall.1 hkept
    obtain ⟨records, hdiffer⟩ := Classical.not_imp.1 hrecorded
    obtain ⟨u, hempty⟩ := exists_empty_of_records free records
    refine .inl ⟨recorded, u, ?_⟩
    rw [guard_of_records records, if_neg hdiffer]
    exact Action.bind_of_ok hempty

end StoreFolder

/-! ### One call -/

/-- What can come of a call to the folder: it was removed, or at most there are more directories, or
there was no record and one may have been written. -/
inductive FolderEvent.Outcome (d : StoreFolder) (t : FileTree) (e : FolderEvent) : Prop
  | removed (removed : e.Removed) (links : SameLinks t e.left)
  | grown (grown : Grown t e.left) (silent : ∀ record, ¬e.Wrote record)
  | unrecorded (missing : t.exists d.recordPath = false) (links : SameLinks t e.left)
      (reads : ∀ record, e.Wrote record → e.left.read d.recordPath = .ok record.bytes)

namespace FolderCall

/-- A call that succeeds is an event with its reply. -/
theorem event_of_ok {α : Type} {action : StoreAction α} {reply : α → FolderReply} {a : α}
    (call : FolderCall) (h : action t = .ok a u) (hrun : call.run d = do pure (reply (← action))) :
    call.event d t = ⟨call, .ok (reply a), u⟩ := by
  rw [event, hrun, Action.bind_of_ok h]
  rfl

/-- A call that fails is an event with its error. -/
theorem event_of_error {α : Type} {action : StoreAction α} {reply : α → FolderReply}
    {e : StoreError} (call : FolderCall) (h : action t = .error e u)
    (hrun : call.run d = do pure (reply (← action))) :
    call.event d t = ⟨call, .error e, u⟩ := by
  rw [event, hrun, Action.bind_of_error h]
  rfl

/-- A call that makes directories, at most, and writes no record. -/
theorem outcome_of_grown {α : Type} {action : StoreAction α} {reply : α → FolderReply}
    (hrun : call.run d = do pure (reply (← action))) (grown : Grown t (Action.after (action t)))
    (silent : ∀ record, call ≠ .recordOnce record) : (call.event d t).Outcome d t := by
  refine .grown ?_ fun record wrote => silent record wrote.1
  rwa [event, hrun, Action.after_bind fun _ _ => rfl]

/-- A call that leaves the tree alone, and writes no record, has the outcome that nothing happened.
-/
theorem outcome_of_same {α : Type} {action : StoreAction α} {reply : α → FolderReply}
    (hrun : call.run d = do pure (reply (← action))) (same : Action.after (action t) = t)
    (silent : ∀ record, call ≠ .recordOnce record) : (call.event d t).Outcome d t :=
  outcome_of_grown hrun (by rw [same]; exact .refl t) silent

/-- The guard left the folder as it was, or emptied it and told so. -/
theorem outcome_guard (free : t.LinkFree []) (format : TableFormat) :
    ((guard format).event d t).Outcome d t := by
  rcases guard_emptied_or_same free format with ⟨recorded, u, hguard⟩ | hsame
  · have links := ((d.sited_place free).guard_within format).links
    rw [hguard] at links
    rw [event_of_ok (guard format) hguard rfl]
    exact .removed (.inr ⟨format, recorded, rfl, rfl⟩) links
  · exact outcome_of_same rfl hsame nofun

/-- The folder was removed, or stays as it was. -/
theorem outcome_remove (free : t.LinkFree []) : (remove.event d t).Outcome d t := by
  have sited := d.sited_place free
  rcases sited.remove_cases with hremove | ⟨e, hremove⟩ | ⟨u, hremove, gone⟩
  · exact outcome_of_same rfl (by rw [hremove]; rfl) nofun
  · exact outcome_of_same rfl (by rw [hremove]; rfl) nofun
  · rw [event_of_ok remove hremove rfl]
    exact .removed (.inl ⟨rfl, rfl⟩) (gone.sameLinks sited.free)

/-- The record was written where there was none, or nothing has changed. -/
theorem outcome_recordOnce (free : t.LinkFree []) (record : EngineRecord) :
    ((recordOnce record).event d t).Outcome d t := by
  have sited := d.sited_place free
  by_cases hthere : t.exists d.recordPath = true
  · rw [event_of_ok (recordOnce record) (recordOnce_of_exists hthere record) rfl]
    exact .grown (.refl t) fun _ wrote => by cases wrote.2
  · -- Nothing was there, so whatever it comes to no record is lost by it.
    have hmissing : t.exists d.recordPath = false := by simpa using hthere
    rcases sited.recordOnce_cases record with ⟨wrote, u, hrun, -, -, within⟩ | ⟨e, u, hrun, within⟩
    · rw [event_of_ok (recordOnce record) hrun rfl]
      refine .unrecorded hmissing within.links fun record' wrote => ?_
      obtain rfl : record = record' := recordOnce.inj wrote.1
      exact sited.read_of_recordOnce hmissing hrun
    · rw [event_of_error (recordOnce record) hrun rfl]
      exact .unrecorded hmissing within.links fun _ wrote => by cases wrote.2

/-- What can come of a call in a tree without links. -/
theorem outcome (free : t.LinkFree []) (call : FolderCall) : (call.event d t).Outcome d t := by
  cases call with
  | isThere => exact outcome_of_same rfl rfl nofun
  | size => exact outcome_of_same rfl rfl nofun
  | idsOnDisk => exact outcome_of_same rfl (d.idsOnDisk_nodup t).1 nofun
  | readRecord =>
      rcases Sited.readRecord_same d t with ⟨found, hread⟩ | ⟨e, hread⟩
      · exact outcome_of_same rfl (by rw [hread]; rfl) nofun
      · exact outcome_of_same rfl (by rw [hread]; rfl) nofun
  | ensure => exact outcome_of_grown rfl (Sited.grown_ensure d t) nofun
  | guard format => exact outcome_guard free format
  | recordOnce record => exact outcome_recordOnce free record
  | remove => exact outcome_remove free

end FolderCall

namespace FolderEvent

variable {e : FolderEvent}

/-- To write the record is not to remove it. -/
theorem not_removed_of_wrote (wrote : e.Wrote record) : ¬e.Removed := by
  rintro (⟨hcall, -⟩ | ⟨format, recorded, hcall, -⟩)
  · cases wrote.1.symm.trans hcall
  · cases wrote.1.symm.trans hcall

namespace Outcome

variable (outcome : e.Outcome d t)
include outcome

/-- No call makes a link. -/
theorem linkFree_left (free : t.LinkFree []) : e.left.LinkFree [] := by
  cases outcome with
  | removed _ links => exact free.congr links
  | grown grown _ => exact free.congr grown.sameLinks
  | unrecorded _ links _ => exact free.congr links

/-- A call that wrote a record left it to be read. -/
theorem read_of_wrote (wrote : e.Wrote record) : e.left.read d.recordPath = .ok record.bytes := by
  cases outcome with
  | removed removed _ => exact absurd removed (not_removed_of_wrote wrote)
  | grown _ silent => exact absurd wrote (silent record)
  | unrecorded _ _ reads => exact reads record wrote

/-- A file in the record's place is not written over, and stays unless the folder is removed. -/
theorem stays (hread : t.read d.recordPath = .ok data) (kept : ¬e.Removed) :
    (∀ record, ¬e.Wrote record) ∧ e.left.read d.recordPath = .ok data := by
  cases outcome with
  | removed removed _ => exact absurd removed kept
  | grown grown silent => exact ⟨silent, grown.read (Path.endsWithSlash_join _ (by decide)) hread⟩
  | unrecorded missing _ _ => cases (exists_of_read hread).symm.trans missing

end Outcome

end FolderEvent

/-! ### Any number of calls -/

/-- A file in the record's place stays until the folder is removed. -/
theorem stays_of_read (free : t.LinkFree []) (hread : t.read d.recordPath = .ok data)
    (hevents : d.history t calls = between ++ later) (kept : ∀ e ∈ between, ¬e.Removed) :
    d.Stays data between := by
  -- Each call leaves what the next one is in need of: a tree without links that reads the same.
  induction between generalizing t calls with
  | nil => exact fun e he => by cases he
  | cons e rest ih =>
      cases calls with
      | nil => cases hevents
      | cons call calls =>
          obtain ⟨rfl, hrest⟩ := List.cons.inj hevents
          have outcome := call.outcome (d := d) free
          have first := outcome.stays hread (kept _ (List.mem_cons_self ..))
          refine List.forall_mem_cons.2 ⟨first, ?_⟩
          exact ih (outcome.linkFree_left free) first.2 hrest fun e he =>
            kept e (List.mem_cons_of_mem _ he)

/-- After some of the calls the others are made to a tree without links, too. -/
theorem exists_history_eq (free : t.LinkFree []) (hevents : d.history t calls = before ++ later) :
    ∃ u calls', u.LinkFree [] ∧ d.history u calls' = later := by
  induction before generalizing t calls with
  | nil => exact ⟨t, calls, free, hevents⟩
  | cons e rest ih =>
      cases calls with
      | nil => cases hevents
      | cons call calls =>
          obtain ⟨rfl, hrest⟩ := List.cons.inj hevents
          exact ih ((call.outcome free).linkFree_left free) hrest

/-- What a call wrote stays until the folder is removed. -/
theorem stays_of_wrote {e : FolderEvent} (free : t.LinkFree [])
    (hevents : d.history t calls = before ++ e :: (between ++ later)) (wrote : e.Wrote record)
    (kept : ∀ e' ∈ between, ¬e'.Removed) :
    e.left.read d.recordPath = .ok record.bytes ∧ d.Stays record.bytes between := by
  -- The event is the first one of what is left of the history after `before`.
  obtain ⟨u, calls', free', hfrom⟩ := exists_history_eq free hevents
  cases calls' with
  | nil => cases hfrom
  | cons call calls' =>
      obtain ⟨rfl, hrest⟩ := List.cons.inj hfrom
      have outcome := call.outcome (d := d) free'
      have hread := outcome.read_of_wrote wrote
      exact ⟨hread, stays_of_read (outcome.linkFree_left free') hread hrest kept⟩

/-- In a tree without links the first record stays, whatever the calls and the records are. -/
theorem firstWriterWins_of_linkFree (d : StoreFolder) (calls : List FolderCall)
    (free : start.LinkFree []) : FirstWriterWins d start (d.history start calls) where
  once before first between second later record record' hevents wrote wrote' := by
    by_contra hkept
    -- The second event is not a removal either, so what was written stays over it.
    have kept : ∀ e ∈ between ++ [second], ¬e.Removed := by
      intro e he removed
      rcases List.mem_append.1 he with hin | hlast
      · exact hkept ⟨e, hin, removed⟩
      · obtain rfl := List.mem_singleton.1 hlast
        exact FolderEvent.not_removed_of_wrote wrote' removed
    have hevents' : d.history start calls =
        before ++ first :: ((between ++ [second]) ++ later) := by
      rw [hevents, List.append_assoc, List.singleton_append]
    have stays := (stays_of_wrote free hevents' wrote kept).2
    exact (stays second (List.mem_append_right _ (List.mem_singleton_self _))).1 record' wrote'
  written _ _ _ _ _ hevents wrote kept := stays_of_wrote free hevents wrote kept
  found _ _ _ hevents hread kept := stays_of_read free hread hevents kept

/-- A record is written, and no other one until the guard has emptied the folder. -/
theorem firstWriterWins_until_emptied :
    FileTree.empty.LinkFree [] ∧
      FirstWriterWins ⟨⟨"data"⟩, "s", by decide⟩ FileTree.empty
        (history ⟨⟨"data"⟩, "s", by decide⟩ FileTree.empty
          [.recordOnce (.ofFormat .plain), .recordOnce (.ofFormat .blockBased), .guard .blockBased,
            .recordOnce (.ofFormat .blockBased)]) ∧
      (history ⟨⟨"data"⟩, "s", by decide⟩ FileTree.empty
          [.recordOnce (.ofFormat .plain), .recordOnce (.ofFormat .blockBased), .guard .blockBased,
            .recordOnce (.ofFormat .blockBased)]).map FolderEvent.answer =
        [.ok (.flag true), .ok (.flag false), .ok (.verdict (.emptied .plain)), .ok (.flag true)] :=
  ⟨linkFree_empty [], firstWriterWins_of_linkFree _ _ (linkFree_empty []), by decide +kernel⟩

end PartitionStore
