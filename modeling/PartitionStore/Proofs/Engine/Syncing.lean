import Mathlib.Data.List.Basic
import PartitionStore.Proofs.Engine.HandleCalls
import PartitionStore.Proofs.FileTree.LinkedReplacing

/-!
# `PartitionStore.Proofs.Engine.Syncing`: writing a table may fail anywhere

A partition is flushed by writing its table to a scratch file, which then takes the place of the
table file. `WriteFault` lists the places where that may be stopped from outside; an entry that is
too long stops it without. Whatever happens, the table file reads as what it was, or as the whole
new table (`Table.writeUnder_cases`).

So a partition is in step with its table file through any calls and any failures (`KeptInFile`):
the file reads as what the last success left, and a partition that is not dirty holds just what is
in it. A flush takes the partition for clean before it writes, and where the writing fails it makes
it dirty again (`Partition.settles_flushUnder`), so the next one is a new attempt.
`kept_by_events` says so of a run, in which anything else may happen between two calls as long as it
leaves the table file and the partition alone.

What it asks of the links in the tree is said in `FileTree.LinkedReplacing`. Without it a sync
that succeeds may leave no table file at all, and so may an opening
(`not_kept_through_links`).
-/

set_option autoImplicit false

namespace PartitionStore

open FileTree PartitionStore.Partition

namespace HandleCall

/-- Whether the call is for a flush. -/
def flushes : HandleCall → Bool
  | sync | close => true
  | _ => false

end HandleCall

variable {t u : FileTree} {dir : Path} {table : Table} {part : Partition} {size : Nat}
  {old bytes : Bytes} {fault : Option WriteFault} {host : Host} {h : Handle}

/-! ### The table file -/

/-- What is written to a partition's scratch file does not go to where its table file is. -/
def Partition.FilesApart (dir : Path) (t : FileTree) : Prop :=
  t.Apart (tableFile dir) (dir.join scratchName)

/-- The table file reads as it did when the scratch file was written, or could not be. -/
theorem read_after_write (apart : FilesApart dir t) (hread : t.read (tableFile dir) = .ok old)
    (data : Bytes) :
    (Action.after (Files.change (·.write (dir.join scratchName) data) t)).read (tableFile dir) =
      .ok old := by
  cases hwrite : t.write (dir.join scratchName) data with
  | error e =>
      rw [Files.change_of_error hwrite]
      exact hread
  | ok u =>
      rw [Files.change_of_ok hwrite]
      exact read_of_write (by decide) (by decide) apart hread hwrite

/-- So it does when the writing was stopped. -/
theorem read_after_fillUnder (apart : FilesApart dir t) (hread : t.read (tableFile dir) = .ok old)
    (fault : Option WriteFault) (data : Bytes) :
    (Action.after (Files.fillUnder fault (dir.join scratchName) data t)).read (tableFile dir) =
      .ok old := by
  rcases fault with _ | e | ⟨written, e⟩ | e
  · exact read_after_write apart hread data
  · exact hread
  · rw [Files.fillUnder, Action.after_bind fun _ _ => rfl]
    exact read_after_write apart hread written
  · exact read_after_write apart hread data

/-- A move that fails changes nothing, also where it was stopped. -/
theorem Files.eq_of_moveUnder_error {p scratch : Path} {e : IoError}
    (h : Files.moveUnder fault scratch p t = .error e u) : u = t := by
  unfold Files.moveUnder at h
  split at h
  · cases h
    rfl
  · exact Files.eq_of_change_error h

/-- Only what was not stopped succeeds. -/
theorem Files.eq_none_of_replaceUnder_ok {p scratch : Path} {data : Bytes}
    (h : Files.replaceUnder fault p scratch data t = .ok () u) : fault = none := by
  obtain ⟨_, v, hfill, hmove⟩ := Action.bind_eq_ok_iff.1 h
  rcases fault with _ | e | ⟨written, e⟩ | e
  · rfl
  · cases hfill
  · obtain ⟨_, _, -, hthrow⟩ := Action.bind_eq_ok_iff.1 hfill
    cases hthrow
  · cases hmove

/-- A table that was written fits, and is what its file reads as. -/
theorem Table.read_of_write_ok (apart : FilesApart dir t) (around : t.Around dir tableFileName)
    (hdir : t.isDir (tableFile dir) = false) (hwrite : table.write (tableFile dir) t = .ok size u) :
    u.read (tableFile dir) = .ok table.image ∧ Table.ofImage table.image = .ok table := by
  obtain ⟨fits, v, hscratch, hrename⟩ := Table.exists_of_write_ok hwrite
  rw [scratchFile_tableFile] at hscratch hrename
  exact ⟨read_of_replaced (by decide) (by decide) (by decide) apart around hdir hscratch hrename,
    Table.ofImage_eq_ok_iff.2 (Table.isImage_image fits)⟩

/-- Wherever the writing of a table fails or is stopped, its file reads as it did. -/
theorem Table.read_of_writeUnder_error {e : StoreError} (apart : FilesApart dir t)
    (hread : t.read (tableFile dir) = .ok old)
    (hwrite : table.writeUnder fault (tableFile dir) t = .error e u) :
    u.read (tableFile dir) = .ok old := by
  have hscratch := read_after_fillUnder apart hread fault
  rw [Table.writeUnder, scratchFile_tableFile] at hwrite
  cases haddAll : (Writer.create table.format).addAll table.entries.toList with
  | error failure =>
      -- An entry is too long, and what was written by then goes to the scratch file.
      obtain ⟨refusal, w⟩ := failure
      rw [haddAll] at hwrite
      have hafter : u = Action.after (Files.fillUnder fault (dir.join scratchName)
          w.written.toList t) := by
        rcases Action.bind_eq_error_iff.1 hwrite with hfill | ⟨_, v, hfill, hthrow⟩
        · obtain ⟨cause, hfill, -⟩ := StoreAction.exists_of_ofFiles_error hfill
          rw [hfill, Action.after]
        · cases hthrow
          rw [StoreAction.ofFiles_eq_ok_iff.1 hfill, Action.after]
      rw [hafter]
      exact hscratch _
  | ok w =>
      rw [haddAll] at hwrite
      rcases Action.bind_eq_error_iff.1 hwrite with hreplace | ⟨_, _, -, hpure⟩
      · obtain ⟨cause, hreplace, -⟩ := StoreAction.exists_of_ofFiles_error hreplace
        replace hscratch := hscratch w.finish
        rcases Action.bind_eq_error_iff.1 hreplace with hfill | ⟨_, v, hfill, hmove⟩
        · rwa [hfill] at hscratch
        · obtain rfl : u = v := Files.eq_of_moveUnder_error hmove
          rwa [hfill] at hscratch
      · cases hpure

/-- A writing that succeeds was not stopped. -/
theorem Table.write_of_writeUnder_ok {p : Path} (h : table.writeUnder fault p t = .ok size u) :
    table.write p t = .ok size u := by
  suffices hnone : fault = none by
    rw [hnone] at h
    exact h
  rw [Table.writeUnder] at h
  cases haddAll : (Writer.create table.format).addAll table.entries.toList with
  | error failure =>
      rw [haddAll] at h
      obtain ⟨_, _, -, hthrow⟩ := Action.bind_eq_ok_iff.1 h
      cases hthrow
  | ok w =>
      rw [haddAll] at h
      obtain ⟨_, v, hreplace, -⟩ := Action.bind_eq_ok_iff.1 h
      exact Files.eq_none_of_replaceUnder_ok (StoreAction.ofFiles_eq_ok_iff.1 hreplace)

/-- Wherever the writing stops, the table file reads as it did. If it does not stop the file reads
as the table. -/
theorem Table.writeUnder_cases (apart : FilesApart dir t)
    (hread : t.read (tableFile dir) = .ok old) (fault : Option WriteFault) (table : Table) :
    (∃ size u, table.writeUnder fault (tableFile dir) t = .ok size u ∧
        u.read (tableFile dir) = .ok table.image ∧ Table.ofImage table.image = .ok table) ∨
      ∃ e u, table.writeUnder fault (tableFile dir) t = .error e u ∧
        u.read (tableFile dir) = .ok old := by
  cases hwrite : table.writeUnder fault (tableFile dir) t with
  | ok size u =>
      have around := around_of_read (by decide) hread
      exact .inl ⟨size, u, rfl,
        read_of_write_ok apart around (isDir_of_read hread) (write_of_writeUnder_ok hwrite)⟩
  | error e u => exact .inr ⟨e, u, rfl, read_of_writeUnder_error apart hread hwrite⟩

/-! ### A partition and its table file -/

/-- A partition that keeps its entries in `dir` is in step with its table file, which reads as
`bytes`: if it is not dirty it holds what is in the file, and if it is closed it is not dirty. -/
structure KeptInFile (h : Handle) (dir : Path) (bytes : Bytes) (host : Host) : Prop where
  known : h < host.partitions.length
  place : (host.partition h).storage.dir? = some dir
  reads : host.tree.read (tableFile dir) = .ok bytes
  clean : (host.partition h).isDirty = false →
    Table.ofImage bytes = .ok (host.partition h).table
  closed : (host.partition h).closed = true → (host.partition h).isDirty = false

namespace Partition

/-- A partition on disk is dirty once its entries were changed. -/
theorem isDirty_touched (hdir : part.storage.dir? = some dir) (entries : SortedMap Bytes Bytes) :
    isDirty { part with entries, storage := part.storage.touched } = true := by
  obtain ⟨dirty, hstorage⟩ := Storage.eq_table_of_dir? hdir
  rw [isDirty, hstorage]
  rfl

/-- The action comes out in one of two ways for a partition whose table file reads as `old`.
Either the file reads as the entries afterwards, and the partition is not dirty. Or the action
fails, and the file reads as it did. The partition is then what it was, and it is open, or the
failure tells that it is not. -/
def Settles (action : PartitionAction Unit) (dir : Path) (old : Bytes) (s : InTree) : Prop :=
  (∃ s' new, action s = .ok () s' ∧ s'.partition.storage.dir? = some dir ∧
      s'.partition.isDirty = false ∧ s'.partition.table = s.partition.table ∧
      s'.tree.read (tableFile dir) = .ok new ∧ Table.ofImage new = .ok s.partition.table) ∨
    ∃ e s', action s = .error e s' ∧ s'.partition = s.partition ∧
      s'.tree.read (tableFile dir) = .ok old ∧
      (s.partition.closed = false ∨ e = .partitionClosed s.partition.id)

section

variable (hdir : part.storage.dir? = some dir) (hread : t.read (tableFile dir) = .ok old)
  (clean : part.isDirty = false → Table.ofImage old = .ok part.table)
  (apart : part.isDirty = true → FilesApart dir t) (fault : Option WriteFault)
include hdir hread clean apart

/-- A flush succeeds or leaves the file as it was, also where it is stopped. The partition, which
it took for clean, is then as dirty as it was. -/
theorem settles_flushUnder (hopen : part.closed = false) :
    Settles (PartitionAction.flushUnder fault) dir old ⟨t, part⟩ := by
  cases hdirty : part.isDirty with
  | false =>
      -- There is nothing to be written.
      exact .inl ⟨_, old, PartitionAction.flushUnder_of_clean hdirty fault t, hdir, hdirty, rfl,
        hread, clean hdirty⟩
  | true =>
      obtain ⟨dir', hstorage⟩ := exists_storage_of_isDirty hdirty
      obtain rfl : dir' = dir := by
        rw [hstorage] at hdir
        exact Option.some.inj hdir
      have hflush := PartitionAction.flushUnder_of_dirty hstorage fault t
      rw [show (⟨part.format, part.entries⟩ : Table) = part.table from rfl] at hflush
      rcases Table.writeUnder_cases (apart hdirty) hread fault part.table with
        ⟨size, u, hwrite, hnew, himage⟩ | ⟨e, u, hwrite, hold⟩
      · rw [hwrite] at hflush
        exact .inl ⟨_, _, hflush, rfl, rfl, rfl, hnew, himage⟩
      · rw [hwrite] at hflush
        exact .inr ⟨e, _, hflush, rfl, hold, .inl hopen⟩

/-- A sync settles what is on disk, whatever stops it. -/
theorem settles_syncUnder : Settles (PartitionAction.syncUnder fault) dir old ⟨t, part⟩ := by
  cases hclosed : part.closed with
  | true =>
      exact .inr ⟨_, _, PartitionAction.syncUnder_of_closed hclosed fault t, rfl, hread, .inr rfl⟩
  | false =>
      rw [Settles, PartitionAction.syncUnder_of_isOpen hclosed]
      exact settles_flushUnder hdir hread clean apart fault hclosed

/-- So does a close: it is a flush, or finds the partition closed and clean. -/
theorem settles_closeUnder (closed : part.closed = true → part.isDirty = false) :
    Settles (PartitionAction.closeUnder fault) dir old ⟨t, part⟩ := by
  cases hclosed : part.closed with
  | true =>
      exact .inl ⟨_, old, PartitionAction.closeUnder_of_closed hclosed fault t, hdir,
        closed hclosed, rfl, hread, clean (closed hclosed)⟩
  | false =>
      rw [Settles, PartitionAction.closeUnder_of_isOpen hclosed]
      rcases settles_flushUnder hdir hread clean apart fault hclosed with
        ⟨s', new, hflush, hdir', hclean, htable, hnew, himage⟩ | ⟨e, s', hflush, hsame, hold, hopen⟩
      · -- What was flushed is closed, and is as clean as before.
        exact .inl ⟨_, new, Action.bind_of_ok hflush, hdir', hclean, htable, hnew, himage⟩
      · exact .inr ⟨e, s', Action.bind_of_error hflush, hsame, hold, hopen⟩

end

end Partition

/-! ### One call -/

variable {host' : Host} {call : HandleCall} {reply : Reply} {failure : StoreError}

/-- A closed partition refuses what is not to release it. -/
theorem HandleCall.run_of_closed (hclosed : (host.partition h).closed = true)
    (hdrop : call ≠ .drop) (hflushes : call.flushes = false) :
    call.run h host = .error (.partitionClosed (host.partition h).id) host := by
  cases call with
  | put key value =>
      exact Action.bind_of_error (HostAction.put_of_error (put_of_closed hclosed key value))
  | get key => exact Action.bind_of_error (HostAction.get_of_error (get_of_closed hclosed key))
  | delete key =>
      exact Action.bind_of_error (HostAction.delete_of_error (delete_of_closed hclosed key))
  | drop => exact absurd rfl hdrop
  | sync => cases hflushes
  | close => cases hflushes

/-- What is said of a call that succeeded where the file read as `old` before: `new` is what it
reads as now. -/
def HandleCall.Succeeded (call : HandleCall) (h : Handle) (dir : Path) (old new : Bytes)
    (host host' : Host) : Prop :=
  KeptInFile h dir new host' ∧ if call.flushes = true then
    (host'.partition h).isDirty = false ∧ (host'.partition h).table = (host.partition h).table
  else new = old

/-- What is said of a call that failed: the file reads as it did, and the partition is what it was.
It is open, or that it is not is why the call failed. -/
def HandleCall.Failed (h : Handle) (dir : Path) (old : Bytes) (failure : StoreError)
    (host host' : Host) : Prop :=
  KeptInFile h dir old host' ∧ host'.partition h = host.partition h ∧
    ((host.partition h).closed = false ∨ failure = .partitionClosed (host.partition h).id)

namespace KeptInFile

/-- The file keeps its bytes if they are what is read in the new tree. -/
theorem setTree (kept : KeptInFile h dir bytes host) (hread : u.read (tableFile dir) = .ok bytes) :
    KeptInFile h dir bytes { host with tree := u } :=
  ⟨kept.known, kept.place, hread, kept.clean, kept.closed⟩

/-- So it does with another partition of the directory, if that one holds what is in the file unless
it is dirty. -/
theorem setPartition (kept : KeptInFile h dir old host) (place : part.storage.dir? = some dir)
    (hread : u.read (tableFile dir) = .ok bytes)
    (clean : part.isDirty = false → Table.ofImage bytes = .ok part.table)
    (closed : part.closed = true → part.isDirty = false) :
    KeptInFile h dir bytes (({ host with tree := u } : Host).setPartition h part) := by
  have hself := Host.partition_setPartition_self ({ host with tree := u } : Host) part kept.known
  exact ⟨by simpa [Host.setPartition] using kept.known, by rwa [hself], hread, by rwa [hself],
    by rwa [hself]⟩

/-- The partition has other entries now, which are to be written. -/
theorem touch (kept : KeptInFile h dir old host) (hopen : (host.partition h).closed = false)
    (entries : SortedMap Bytes Bytes) :
    KeptInFile h dir old (host.setPartition h { host.partition h with
      entries, storage := (host.partition h).storage.touched }) := by
  have hdirty := isDirty_touched kept.place entries
  exact kept.setPartition (by simpa using kept.place) kept.reads (fun hclean => by simp_all)
    fun hclosed => by simp_all

/-- What a flush comes to for the partition it comes to on the host. -/
theorem update (kept : KeptInFile h dir old host) {action : PartitionAction Unit}
    (hflushes : call.flushes = true)
    (settles : Settles action dir old ⟨host.tree, host.partition h⟩) :
    (∃ reply host' new, (do HostAction.update h action; pure Reply.done : HostAction Reply) host =
          .ok reply host' ∧ call.Succeeded h dir old new host host') ∨
      ∃ e host', (do HostAction.update h action; pure Reply.done : HostAction Reply) host =
          .error e host' ∧ HandleCall.Failed h dir old e host host' := by
  rcases settles with ⟨s, new, hrun, place, hclean, htable, hread, himage⟩ |
    ⟨e, s, hrun, hsame, hread, hopen⟩
  · have hself := Host.partition_setPartition_self ({ host with tree := s.tree } : Host)
      s.partition kept.known
    refine .inl ⟨.done, _, new, Action.bind_of_ok (HostAction.update_of_run_ok hrun),
      kept.setPartition place hread (fun _ => htable.symm ▸ himage) fun _ => hclean, ?_⟩
    rw [if_pos hflushes, hself]
    exact ⟨hclean, htable⟩
  · exact .inr ⟨e, _, Action.bind_of_error (HostAction.update_of_run_error hrun hsame),
      kept.setTree hread, rfl, hopen⟩

/-- A call on a partition succeeds or fails in step with the table file, wherever it is stopped. -/
theorem runUnder (kept : KeptInFile h dir old host) (hdrop : call ≠ .drop)
    (apart : call.flushes = true → (host.partition h).isDirty = true → FilesApart dir host.tree)
    (fault : Option WriteFault) :
    (∃ reply host' new, call.runUnder fault h host = .ok reply host' ∧
        call.Succeeded h dir old new host host') ∨
      ∃ e host', call.runUnder fault h host = .error e host' ∧
        HandleCall.Failed h dir old e host host' := by
  cases call with
  | sync =>
      exact kept.update rfl
        (settles_syncUnder kept.place kept.reads kept.clean (apart rfl) fault)
  | close =>
      exact kept.update rfl
        (settles_closeUnder kept.place kept.reads kept.clean (apart rfl) fault kept.closed)
  | drop => exact absurd rfl hdrop
  | put key value =>
      cases hclosed : (host.partition h).closed with
      | true =>
          exact .inr ⟨_, host, HandleCall.run_of_closed hclosed hdrop rfl, kept, rfl, .inr rfl⟩
      | false =>
          exact .inl ⟨.done, _, old,
            Action.bind_of_ok (HostAction.put_of_ok (put_of_isOpen hclosed key value)),
            kept.touch hclosed _, rfl⟩
  | get key =>
      cases hclosed : (host.partition h).closed with
      | true =>
          exact .inr ⟨_, host, HandleCall.run_of_closed hclosed hdrop rfl, kept, rfl, .inr rfl⟩
      | false =>
          exact .inl ⟨_, host, old,
            Action.bind_of_ok (HostAction.get_of_ok (get_of_isOpen hclosed key)), kept, rfl⟩
  | delete key =>
      cases hclosed : (host.partition h).closed with
      | true =>
          exact .inr ⟨_, host, HandleCall.run_of_closed hclosed hdrop rfl, kept, rfl, .inr rfl⟩
      | false =>
          refine .inl ⟨.done, _, old,
            Action.bind_of_ok (HostAction.delete_of_ok (delete_of_isOpen hclosed key)), ?_, rfl⟩
          split
          · exact kept.touch hclosed _
          · rwa [Host.setPartition_partition]

end KeptInFile

/-! ### Opening -/

/-- Where opening makes the table file, the links in the tree do not lead it astray: what is
written to the scratch file does not go to the table file's place, and the way to the directory
does not go through the table file's name. -/
def Partition.OpensClear (dir : Path) (t : FileTree) : Prop :=
  ∀ u, Files.createDirAll dir t = .ok () u → u.exists (tableFile dir) = false →
    FilesApart dir u ∧ u.Around dir tableFileName

/-- A partition that was opened holds what is in its table file. -/
theorem Partition.reads_of_openTable {spec : PartitionSpec} (clear : OpensClear dir t)
    (hopen : openTable dir spec t = .ok part u) :
    part.storage = .table dir false ∧ part.closed = false ∧
      ∃ bytes, u.read (tableFile dir) = .ok bytes ∧ Table.ofImage bytes = .ok part.table := by
  rw [openTable] at hopen
  obtain ⟨_, v, hmake, hopen⟩ := Action.bind_eq_ok_iff.1 hopen
  rw [StoreAction.io, StoreAction.ofFiles_eq_ok_iff] at hmake
  rw [Action.bind_of_ok (Action.get_apply v)] at hopen
  -- A table that is there is the one that was read, and one that was missing is the one that was
  -- written.
  cases hthere : v.exists (tableFile dir) with
  | true =>
      rw [if_pos hthere] at hopen
      obtain ⟨table, v', hread, hopen⟩ := Action.bind_eq_ok_iff.1 hopen
      cases hbytes : v.read (tableFile dir) with
      | error e =>
          have hask : Files.ask (·.read (tableFile dir)) v = .error e v := by
            simp only [Files.ask, hbytes]
          cases (Action.bind_of_error (StoreAction.io_of_error hask)).symm.trans hread
      | ok bytes =>
          rw [Table.read_eq hbytes] at hread
          split at hread <;> cases hread
          rename_i himage
          by_cases hformat : table.format = spec.format
          · rw [if_pos hformat] at hopen
            cases hopen
            refine ⟨rfl, rfl, bytes, hbytes, ?_⟩
            rw [himage, Partition.table, ← hformat]
          · rw [if_neg hformat] at hopen
            cases hopen
  | false =>
      rw [if_neg (by simp [hthere])] at hopen
      obtain ⟨size, v', hwrite, hpure⟩ := Action.bind_eq_ok_iff.1 hopen
      cases hpure
      obtain ⟨apart, around⟩ := clear v hmake hthere
      exact ⟨rfl, rfl, _, Table.read_of_write_ok apart around (isDir_of_not_exists hthere) hwrite⟩

/-- A partition that was opened has a file with what it holds. -/
theorem KeptInFile.of_register {spec : PartitionSpec} (clear : OpensClear dir host.tree)
    (hopen : HostAction.register (openTable dir spec) host = .ok h host') :
    ∃ bytes, KeptInFile h dir bytes host' := by
  cases hrun : openTable dir spec host.tree with
  | error e t => cases (HostAction.register_of_error hrun).symm.trans hopen
  | ok part t =>
      cases (HostAction.register_of_ok hrun).symm.trans hopen
      have hself : Host.partition ⟨t, host.partitions ++ [part]⟩ host.partitions.length = part :=
        Host.partition_add_self host part
      obtain ⟨hstorage, hopen, bytes, hread, himage⟩ := reads_of_openTable clear hrun
      refine ⟨bytes, by simp, by rw [hself, hstorage]; rfl, hread, fun _ => by rwa [hself], ?_⟩
      intro _
      rw [hself, isDirty, hstorage]

/-! ### Runs -/

/-- What happens while a partition is open. -/
inductive UseEvent where
  /-- The partition is called by its handle, and the writing may be stopped. -/
  | call (call : HandleCall) (fault : Option WriteFault)
  /-- Anything else happens, after which the host is this one. -/
  | elsewhere (host : Host)

/-- A host with what the last opening or flush that succeeded left in the table file. -/
structure Watched where
  host : Host
  left : Except IoError Bytes

namespace UseEvent

variable {w : Watched} {event : UseEvent} {events : List UseEvent}

/-- The host after the event, and what the last success left by then. -/
def next (h : Handle) (dir : Path) : UseEvent → Watched → Watched
  | .call c fault, w =>
    match c.runUnder fault h w.host with
    | .ok _ host => ⟨host, if c.flushes = true then host.tree.read (tableFile dir) else w.left⟩
    | .error _ host => { w with host }
  | .elsewhere host, w => { w with host }

/-- The host after the events, and what the last success left by then. -/
def final (h : Handle) (dir : Path) (events : List UseEvent) (w : Watched) : Watched :=
  events.foldl (fun w event => event.next h dir w) w

/-- The partition is not dropped, and what is written to its scratch file does not go to its table
file. What else happens touches neither the table file nor the partition. -/
def Admissible (h : Handle) (dir : Path) (w : Watched) : UseEvent → Prop
  | .call c _ => c ≠ .drop ∧
    (c.flushes = true → (w.host.partition h).isDirty = true → FilesApart dir w.host.tree)
  | .elsewhere host => h < host.partitions.length ∧ host.partition h = w.host.partition h ∧
    host.tree.read (tableFile dir) = w.host.tree.read (tableFile dir)

/-- All of the events are admissible when they happen. -/
def AllAdmissible (h : Handle) (dir : Path) : List UseEvent → Watched → Prop
  | [], _ => True
  | event :: rest, w => event.Admissible h dir w ∧ AllAdmissible h dir rest (event.next h dir w)

instance (h : Handle) (dir : Path) (w : Watched) (event : UseEvent) :
    Decidable (event.Admissible h dir w) :=
  match event with
  | .call c _ => inferInstanceAs (Decidable (c ≠ .drop ∧ (c.flushes = true →
      (w.host.partition h).isDirty = true → w.host.tree.Apart (tableFile dir) (dir.join scratchName))))
  | .elsewhere host => inferInstanceAs (Decidable (h < host.partitions.length ∧
      host.partition h = w.host.partition h ∧
      host.tree.read (tableFile dir) = w.host.tree.read (tableFile dir)))

instance decidableAllAdmissible (h : Handle) (dir : Path) :
    ∀ (events : List UseEvent) (w : Watched), Decidable (AllAdmissible h dir events w)
  | [], _ => inferInstanceAs (Decidable True)
  | event :: rest, w =>
    have := decidableAllAdmissible h dir rest (event.next h dir w)
    inferInstanceAs (Decidable (event.Admissible h dir w ∧
      AllAdmissible h dir rest (event.next h dir w)))

/-- The partition is in step with its table file, which reads as what the last success left. -/
def Watches (h : Handle) (dir : Path) (w : Watched) : Prop :=
  ∃ bytes, w.left = .ok bytes ∧ KeptInFile h dir bytes w.host

/-- One event keeps the watch, if it is admissible. -/
theorem Watches.next (watches : Watches h dir w) (admissible : event.Admissible h dir w) :
    Watches h dir (event.next h dir w) := by
  obtain ⟨bytes, hleft, kept⟩ := watches
  cases event with
  | elsewhere host =>
      obtain ⟨hknown, hpart, hread⟩ := admissible
      exact ⟨bytes, hleft, hknown, hpart ▸ kept.place, hread.trans kept.reads,
        hpart ▸ kept.clean, hpart ▸ kept.closed⟩
  | call c fault =>
      obtain ⟨hdrop, apart⟩ := admissible
      rcases kept.runUnder hdrop apart fault with
        ⟨reply, host', new, hrun, kept', hnew⟩ | ⟨e, host', hrun, kept', -⟩
      · rw [UseEvent.next, hrun]
        cases hflushes : c.flushes with
        | true => exact ⟨new, by simpa using kept'.reads, kept'⟩
        | false =>
            rw [hflushes] at hnew
            obtain rfl : new = bytes := hnew
            exact ⟨new, hleft, kept'⟩
      · rw [UseEvent.next, hrun]
        exact ⟨bytes, hleft, kept'⟩

/-- So do any number of them, by induction on the events. -/
theorem Watches.final (watches : Watches h dir w) (admissible : AllAdmissible h dir events w) :
    Watches h dir (final h dir events w) := by
  induction events generalizing w with
  | nil => exact watches
  | cons event rest ih => exact ih (watches.next admissible.1) admissible.2

end UseEvent

open UseEvent in
/-- After any calls on a partition that was opened, in which the writing of its table may be
stopped anywhere, and whatever else happens without touching its table file: the file reads as
what the last opening or flush that succeeded left, and decodes to the entries if the partition is
not dirty. A call that fails changes neither the file nor the partition, which is open unless that
is the failure. A flush that succeeds keeps the entries, and the file decodes to them. -/
theorem kept_by_events {spec : PartitionSpec} {events : List UseEvent}
    (clear : OpensClear dir host.tree)
    (hopen : HostAction.register (openTable dir spec) host = .ok h host')
    (admissible : AllAdmissible h dir events ⟨host', host'.tree.read (tableFile dir)⟩) :
    let w := final h dir events ⟨host', host'.tree.read (tableFile dir)⟩
    (∃ bytes, w.left = .ok bytes ∧ w.host.tree.read (tableFile dir) = .ok bytes) ∧
      ((w.host.partition h).isDirty = false →
        Table.read (tableFile dir) w.host.tree = .ok (w.host.partition h).table w.host.tree) ∧
      ∀ c fault, Admissible h dir w (.call c fault) →
        match c.runUnder fault h w.host with
        | .error failure next =>
          next.tree.read (tableFile dir) = w.host.tree.read (tableFile dir) ∧
            next.partition h = w.host.partition h ∧ ((w.host.partition h).closed = false ∨
              failure = .partitionClosed (w.host.partition h).id)
        | .ok _ next => c.flushes = true →
          (next.partition h).table = (w.host.partition h).table ∧
            (next.partition h).isDirty = false ∧
            Table.read (tableFile dir) next.tree = .ok (w.host.partition h).table next.tree := by
  intro w
  obtain ⟨bytes, kept⟩ := KeptInFile.of_register clear hopen
  obtain ⟨left, hleft, kept⟩ := Watches.final ⟨bytes, kept.reads, kept⟩ admissible
  have decodes {host : Host} {bytes : Bytes} (kept : KeptInFile h dir bytes host)
      (hclean : (host.partition h).isDirty = false) :
      Table.read (tableFile dir) host.tree = .ok (host.partition h).table host.tree := by
    rw [Table.read_eq kept.reads, kept.clean hclean]
  refine ⟨⟨left, hleft, kept.reads⟩, decodes kept, ?_⟩
  intro c fault ⟨hdrop, apart⟩
  rcases kept.runUnder hdrop apart fault with
    ⟨reply, next, new, hrun, kept', hnew⟩ | ⟨e, next, hrun, kept', hsame, hclosed⟩
  · rw [hrun]
    intro hflushes
    rw [if_pos hflushes] at hnew
    exact ⟨hnew.2, hnew.1, hnew.2 ▸ decodes kept' hnew.1⟩
  · rw [hrun]
    exact ⟨kept'.reads.trans kept.reads.symm, hsame, hclosed⟩

/-- A new directory is made beside the partition, and then a sync is stopped when six bytes were
written. -/
def stoppedSync (host : Host) : List UseEvent :=
  [.elsewhere { host with tree := Action.after (Files.createDirAll ⟨"q"⟩ host.tree) },
    .call (.put [107] [118]) none,
    .call .sync (some (.contents [80, 75, 86, 84, 1, 0] (.planted "no space left")))]

/-- After a sync that was stopped the partition is dirty and open, and the file is what it was
after the opening. The next sync writes the entries, though nothing was put in between. -/
theorem kept_after_stopped_sync :
    ∃ h host next, HostAction.register (openTable ⟨"p"⟩ ⟨"s", 0, .plain⟩)
        (Host.ofTree FileTree.empty) = .ok h host ∧
      UseEvent.AllAdmissible h ⟨"p"⟩ (stoppedSync host)
        ⟨host, host.tree.read (tableFile ⟨"p"⟩)⟩ ∧
      HandleCall.sync.run h (UseEvent.final h ⟨"p"⟩ (stoppedSync host)
        ⟨host, host.tree.read (tableFile ⟨"p"⟩)⟩).host = .ok .done next ∧
      Table.read (tableFile ⟨"p"⟩) next.tree =
        .ok ⟨.plain, SortedMap.ofList [([107], [118])]⟩ next.tree := by
  -- The run is evaluated once; what it says of the table file is left to the theorem.
  have key : Action.succeedsWith (HostAction.register (openTable ⟨"p"⟩ ⟨"s", 0, .plain⟩))
      (Host.ofTree FileTree.empty) (fun h host =>
        let start : Watched := ⟨host, host.tree.read (tableFile ⟨"p"⟩)⟩
        let stopped := UseEvent.final h ⟨"p"⟩ (stoppedSync host) start
        decide (UseEvent.AllAdmissible h ⟨"p"⟩ (stoppedSync host) start) &&
          decide (UseEvent.Admissible h ⟨"p"⟩ stopped (.call .sync none)) &&
          decide ((stopped.host.partition h).table = ⟨.plain, SortedMap.ofList [([107], [118])]⟩) &&
          Action.succeedsWith (HandleCall.sync.run h) stopped.host fun reply _ =>
            decide (reply = .done)) = true := by
    decide +kernel
  obtain ⟨h, host, hopen, key⟩ := Action.exists_of_succeedsWith key
  simp only [Bool.and_eq_true, decide_eq_true_eq] at key
  obtain ⟨⟨⟨admissible, hsync⟩, htable⟩, key⟩ := key
  obtain ⟨reply, next, hrun, hreply⟩ := Action.exists_of_succeedsWith key
  obtain rfl : reply = .done := by simpa using hreply
  have clear : OpensClear ⟨"p"⟩ (Host.ofTree FileTree.empty).tree := by
    intro u hmake hfree
    obtain rfl : u = Action.after (Files.createDirAll ⟨"p"⟩ FileTree.empty) := by
      rw [show Files.createDirAll ⟨"p"⟩ FileTree.empty = .ok () u from hmake, Action.after]
    refine ⟨show FileTree.Apart _ _ _ by decide +kernel, ?_⟩
    exact @around_of_leads _ ⟨"p"⟩ tableFileName (.vacant ["p"] tableFileName) (by decide)
      (by rfl) (fun _ h => by cases h)
  have hnext := (kept_by_events clear hopen admissible).2.2 .sync none hsync
  rw [show HandleCall.sync.runUnder none h _ = _ from hrun] at hnext
  have hread := (hnext rfl).2.2
  rw [htable] at hread
  exact ⟨h, host, next, hopen, admissible, hrun, hread⟩

/-- A partition that was opened at the top, with a link from its scratch file to its table file. -/
def linkedScratch : FileTree :=
  match (Action.after (openTable ⟨"p"⟩ ⟨"s", 0, .plain⟩ FileTree.empty)).symlink
    ⟨"p/data.tmp"⟩ ⟨"data.tbl"⟩ with
  | .ok t => t
  | .error _ => FileTree.empty

/-- A directory with links to itself: `data.tbl` by way of twenty others. -/
def linkedDir : FileTree :=
  (List.range 21).foldl (fun t i =>
    let link (i : Nat) : Path := ⟨String.ofList (Nat.toDigits 10 i)⟩
    match t.symlink ⟨"p/" ++ (if i = 0 then "data.tbl" else (link i).text)⟩
      (if i = 20 then ⟨"."⟩ else link (i + 1)) with
    | .ok u => u
    | .error _ => t)
    (Action.after (Files.createDirAll ⟨"p"⟩ FileTree.empty))

/-- Where the scratch file is a link to the table file, a sync that succeeds leaves no table file
but a link to itself. Where the way to the directory goes through the table file's name, an opening
that succeeds leaves no way to the directory. -/
theorem not_kept_through_links :
    (∃ h host host' host'', HostAction.register (openTable ⟨"p"⟩ ⟨"s", 0, .plain⟩)
        (Host.ofTree linkedScratch) = .ok h host ∧
      (HandleCall.put [107] [118]).run h host = .ok .done host' ∧
      HandleCall.sync.run h host' = .ok .done host'' ∧
      host''.tree.read (tableFile ⟨"p"⟩) = .error .tooManyLinks) ∧
    ∃ h host, HostAction.register (openTable ⟨"p/data.tbl"⟩ ⟨"s", 0, .plain⟩)
        (Host.ofTree linkedDir) = .ok h host ∧
      host.tree.read (tableFile ⟨"p/data.tbl"⟩) = .error .notADirectory := by
  constructor
  · have key : Action.succeedsWith (HostAction.register (openTable ⟨"p"⟩ ⟨"s", 0, .plain⟩))
        (Host.ofTree linkedScratch) (fun h host =>
          Action.succeedsWith ((HandleCall.put [107] [118]).run h) host fun reply host' =>
            decide (reply = .done) &&
              Action.succeedsWith (HandleCall.sync.run h) host' fun reply host'' =>
                decide (reply = .done) &&
                  decide (host''.tree.read (tableFile ⟨"p"⟩) = .error .tooManyLinks)) = true := by
      decide +kernel
    obtain ⟨h, host, hopen, key⟩ := Action.exists_of_succeedsWith key
    obtain ⟨_, host', hput, key⟩ := Action.exists_of_succeedsWith key
    obtain ⟨hdone, key⟩ := (Bool.and_eq_true _ _).mp key
    obtain ⟨_, host'', hsync, key⟩ := Action.exists_of_succeedsWith key
    obtain ⟨hdone', key⟩ := (Bool.and_eq_true _ _).mp key
    cases of_decide_eq_true hdone
    cases of_decide_eq_true hdone'
    exact ⟨h, host, host', host'', hopen, hput, hsync, of_decide_eq_true key⟩
  · have key : Action.succeedsWith (HostAction.register (openTable ⟨"p/data.tbl"⟩ ⟨"s", 0, .plain⟩))
        (Host.ofTree linkedDir) (fun _ host =>
          decide (host.tree.read (tableFile ⟨"p/data.tbl"⟩) = .error .notADirectory)) = true := by
      decide +kernel
    obtain ⟨h, host, hopen, key⟩ := Action.exists_of_succeedsWith key
    exact ⟨h, host, hopen, of_decide_eq_true key⟩

end PartitionStore
