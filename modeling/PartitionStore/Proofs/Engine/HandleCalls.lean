import PartitionStore.Proofs.Engine.Trace
import PartitionStore.Proofs.Partition.Outcomes

/-!
# `PartitionStore.Proofs.Engine.HandleCalls`: partitions used by their handles

An engine shares its opened partitions with whoever asks for them, so they are also
used by their handles alone. Whatever comes of such a call, it is the one partition
that it may change in memory (`HandleCall.confines`): the partition keeps its
directory, and once it is closed it stays so.

For a closed partition a call changes nothing at all (`HandleCall.next_of_closed`),
except that dropping does not look whether it is closed. What dropping does to the tree
hangs on what is at the path of the directory by then (`Partition.drop_tree_eq_iff`).
-/

set_option autoImplicit false

namespace PartitionStore

open FileTree

/-- What a partition is asked for by its handle. -/
inductive HandleCall where
  | put (key value : Bytes)
  | get (key : Bytes)
  | delete (key : Bytes)
  | sync
  | close
  | drop
  deriving DecidableEq, Repr

/-- The call, made by a handle, in which the writing of a table may be stopped. -/
def HandleCall.runUnder (fault : Option WriteFault) (h : Handle) : HandleCall → HostAction Reply
  | put key value => do HostAction.put h key value; pure .done
  | get key => do pure (.value (← HostAction.get h key))
  | delete key => do HostAction.delete h key; pure .done
  | sync => do HostAction.syncUnder fault h; pure .done
  | close => do HostAction.closeUnder fault h; pure .done
  | drop => do HostAction.drop h; pure .done

/-- The call, made by a handle. -/
def HandleCall.run (h : Handle) (call : HandleCall) : HostAction Reply := call.runUnder none h

/-- The host after the call, whether it succeeds or not. -/
def HandleCall.next (call : HandleCall) (h : Handle) (host : Host) : Host :=
  Action.after (call.run h host)

/-- A removal finds nothing at the path that it would remove: nothing at all, or a file. -/
def FileTree.Spares (t : FileTree) (p : Path) : Prop :=
  t.exists p = true → ∀ loc node, t.find .itself p = .ok (loc, node) → ∃ data, node = .file data

/-- The directory that a partition keeps its table in. -/
def Storage.dir? : Storage → Option Path
  | memory => none
  | table dir _ => some dir

/-- What has changes to write keeps its directory. -/
@[simp] theorem Storage.dir?_touched (s : Storage) : s.touched.dir? = s.dir? := by cases s <;> rfl

/-- What has no more changes to write keeps its directory. -/
@[simp] theorem Storage.dir?_settled (s : Storage) : s.settled.dir? = s.dir? := by cases s <;> rfl

/-- Only what is on disk has a directory. -/
theorem Storage.eq_table_of_dir? {s : Storage} {dir : Path} (h : s.dir? = some dir) :
    ∃ dirty, s = .table dir dirty := by
  cases s with
  | memory => cases h
  | table dir' dirty =>
      cases h
      exact ⟨dirty, rfl⟩

variable {host host' host'' : Host} {t u : FileTree} {h : Handle} {part part' part'' : Partition}
  {e : StoreError} {dir : Path} {name : String}

/-! ### Partitions that go on -/

namespace Partition

/-- What becomes of an opened partition: once closed it stays so, and it keeps its id and its
directory. -/
structure Continues (part part' : Partition) : Prop where
  closed : part.closed = true → part'.closed = true
  id : part'.id = part.id
  dir : part'.storage.dir? = part.storage.dir?

/-- A partition goes on as itself. -/
theorem Continues.refl (part : Partition) : part.Continues part := ⟨fun h => h, rfl, rfl⟩

/-- What goes on and goes on again goes on. -/
theorem Continues.trans (h₁ : part.Continues part') (h₂ : part'.Continues part'') :
    part.Continues part'' :=
  ⟨fun hc => h₂.closed (h₁.closed hc), h₂.id.trans h₁.id, h₂.dir.trans h₁.dir⟩

/-- A put changes entries, and notes that there is something to write. -/
theorem continues_put {key value : Bytes} (hput : part.put key value = .ok part') :
    part.Continues part' := by
  cases hclosed : part.closed with
  | true => cases (put_of_closed hclosed key value).symm.trans hput
  | false =>
      rw [put_of_isOpen hclosed] at hput
      cases hput
      exact ⟨fun h => h, rfl, Storage.dir?_touched _⟩

/-- A delete changes entries, and notes that there is something to write. -/
theorem continues_delete {key : Bytes} (hdelete : part.delete key = .ok part') :
    part.Continues part' := by
  cases hclosed : part.closed with
  | true => cases (delete_of_closed hclosed key).symm.trans hdelete
  | false =>
      rw [delete_of_isOpen hclosed] at hdelete
      split at hdelete
      · cases hdelete
        exact ⟨fun h => h, rfl, Storage.dir?_touched _⟩
      · cases hdelete
        exact .refl _

/-- A flush notes that there is nothing more to write, and changes nothing else. -/
theorem continues_flush (hflush : part.flush t = .ok part' u) : part.Continues part' := by
  cases hstorage : part.storage with
  | memory =>
      rw [flush_eq, hstorage] at hflush
      cases hflush
      exact .refl _
  | table dir dirty =>
      cases dirty with
      | false =>
          rw [flush_eq, hstorage] at hflush
          cases hflush
          exact .refl _
      | true =>
          rw [flush_eq, hstorage] at hflush
          obtain ⟨size, t', -, hpure⟩ := Action.bind_eq_ok_iff.1 hflush
          cases hpure
          exact ⟨fun h => h, rfl, by rw [hstorage]; rfl⟩

/-- A sync that succeeds is a flush. -/
theorem continues_sync (hsync : part.sync t = .ok part' u) : part.Continues part' := by
  rw [sync_eq] at hsync
  split at hsync
  · cases hsync
  · exact continues_flush hsync

/-- A partition that was closed is closed. -/
theorem continues_close (hclose : part.close t = .ok part' u) :
    part.Continues part' ∧ part'.closed = true := by
  rw [close_eq] at hclose
  split at hclose
  · rename_i hclosed
    cases hclose
    exact ⟨.refl _, hclosed⟩
  · obtain ⟨flushed, t', hflush, hpure⟩ := Action.bind_eq_ok_iff.1 hclose
    cases hpure
    exact ⟨⟨fun _ => rfl, (continues_flush hflush).id, (continues_flush hflush).dir⟩, rfl⟩

/-- So is one that was dropped. -/
theorem continues_drop (hdrop : part.drop t = .ok part' u) :
    part.Continues part' ∧ part'.closed = true := by
  rw [eq_dropped_of_drop hdrop]
  exact ⟨⟨fun _ => rfl, rfl, Storage.dir?_settled _⟩, rfl⟩

end Partition

/-- All partitions of the first host are there on the second one, and are continued. -/
structure Persists (host host' : Host) : Prop where
  known : host.partitions.length ≤ host'.partitions.length
  each : ∀ h, h < host.partitions.length → (host.partition h).Continues (host'.partition h)

/-- Of the partitions of a host one may have changed, and it is continued. -/
structure Confines (h : Handle) (host host' : Host) : Prop where
  length : host'.partitions.length = host.partitions.length
  continues : (host.partition h).Continues (host'.partition h)
  others : ∀ g, g ≠ h → host'.partition g = host.partition g

/-- All partitions of a host go on as themselves. -/
theorem Persists.refl (host : Host) : Persists host host := ⟨Nat.le_refl _, fun _ _ => .refl _⟩

/-- What persists and persists again persists. -/
theorem Persists.trans (h₁ : Persists host host') (h₂ : Persists host' host'') :
    Persists host host'' :=
  ⟨Nat.le_trans h₁.known h₂.known, fun h hh =>
    (h₁.each h hh).trans (h₂.each h (Nat.lt_of_lt_of_le hh h₁.known))⟩

/-- A partition that is opened leaves those before it as they are. -/
theorem Persists.add (host : Host) (t : FileTree) (part : Partition) :
    Persists host ⟨t, host.partitions ++ [part]⟩ := by
  refine ⟨by simp, fun h hh => ?_⟩
  rw [show (⟨t, host.partitions ++ [part]⟩ : Host).partition h = host.partition h from
    Host.partition_add_of_lt host part hh]
  exact .refl _

/-- Under each handle the partition goes on: under the one that was called by what is said of it,
and under all others because it is the same. -/
theorem Confines.each (confines : Confines h host host') (g : Handle) :
    (host.partition g).Continues (host'.partition g) := by
  by_cases hgh : g = h
  · exact hgh ▸ confines.continues
  · rw [confines.others g hgh]
    exact .refl _

/-- A call by one handle takes no partition away and gives none a new handle. -/
theorem Confines.persists (confines : Confines h host host') : Persists host host' :=
  ⟨Nat.le_of_eq confines.length.symm, fun g _ => confines.each g⟩

/-- A change of the tree alone is confined to any handle. -/
theorem Confines.setTree (h : Handle) (host : Host) (t : FileTree) :
    Confines h host { host with tree := t } := ⟨rfl, .refl _, fun _ _ => rfl⟩

/-- So is the replacement of a handle's partition by one that goes on from it. -/
theorem Confines.setPartition (t : FileTree) (continues : (host.partition h).Continues part) :
    Confines h host (({ host with tree := t } : Host).setPartition h part) := by
  refine ⟨by simp [Host.setPartition], ?_, fun g hg => Host.partition_setPartition_of_ne _ _ hg⟩
  by_cases hh : h < host.partitions.length
  · have hself := Host.partition_setPartition_self ({ host with tree := t } : Host) part hh
    rw [hself]
    exact continues
  · -- There is no such partition, and there is none afterwards.
    have hnone : host.partitions.set h part = host.partitions :=
      List.set_eq_of_length_le (Nat.le_of_not_lt hh)
    have hsame : (({ host with tree := t } : Host).setPartition h part).partition h =
        host.partition h := by
      simp [Host.setPartition, Host.partition, hnone]
    rw [hsame]
    exact .refl _

/-! ### One call -/

namespace HostAction

/-- An operation on a partition is confined to its handle if the partition goes on where it
succeeds. Where it fails the partition is the one of before. -/
theorem confines_update {action : PartitionAction Unit} (restores : action.Restores)
    (hop : ∀ part' t, action.result (host.partition h) host.tree = .ok part' t →
      (host.partition h).Continues part') :
    Confines h host (Action.after (update h action host)) := by
  cases hrun : action.result (host.partition h) host.tree with
  | ok part' t =>
      rw [update_of_ok hrun]
      exact .setPartition t (hop part' t hrun)
  | error e t =>
      rw [update_of_error restores hrun]
      exact .setTree h host t

/-- A put is confined to its handle, whether it succeeds or not. -/
theorem confines_put (h : Handle) (key value : Bytes) (host : Host) :
    Confines h host (Action.after (put h key value host)) := by
  cases hput : (host.partition h).put key value with
  | ok part' =>
      rw [put_of_ok hput]
      exact .setPartition host.tree (Partition.continues_put hput)
  | error e =>
      rw [put_of_error hput]
      exact .setTree h host host.tree

/-- A delete is confined to its handle, whether it succeeds or not. -/
theorem confines_delete (h : Handle) (key : Bytes) (host : Host) :
    Confines h host (Action.after (delete h key host)) := by
  cases hdelete : (host.partition h).delete key with
  | ok part' =>
      rw [delete_of_ok hdelete]
      exact .setPartition host.tree (Partition.continues_delete hdelete)
  | error e =>
      rw [delete_of_error hdelete]
      exact .setTree h host host.tree

/-- A sync is confined to its handle, whether it succeeds or not. -/
theorem confines_sync (h : Handle) (host : Host) :
    Confines h host (Action.after (sync h host)) :=
  confines_update (PartitionAction.restores_syncUnder none) fun _ _ hrun =>
    Partition.continues_sync hrun

/-- A close is confined to its handle, whether it succeeds or not. -/
theorem confines_close (h : Handle) (host : Host) :
    Confines h host (Action.after (close h host)) :=
  confines_update (PartitionAction.restores_closeUnder none) fun _ _ hrun =>
    (Partition.continues_close hrun).1

/-- A drop is confined to its handle, whether it succeeds or not. -/
theorem confines_drop (h : Handle) (host : Host) :
    Confines h host (Action.after (drop h host)) :=
  confines_update PartitionAction.restores_drop fun _ _ hrun => (Partition.continues_drop hrun).1

/-- What closes a partition whenever it succeeds leaves it closed. A handle that was never given
out is that of a closed partition anyway. -/
theorem closed_of_update {action : PartitionAction Unit} (restores : action.Restores)
    (hop : ∀ part t part' u, action.result part t = .ok part' u → part'.closed = true)
    (hrun : update h action host = .ok () host') : (host'.partition h).closed = true := by
  cases hpart : action.result (host.partition h) host.tree with
  | error e t => cases (update_of_error restores hpart).symm.trans hrun
  | ok part' t =>
      cases (update_of_ok hpart).symm.trans hrun
      by_cases hh : h < host.partitions.length
      · rw [Host.partition_setPartition_self ({ host with tree := t } : Host) part' hh]
        exact hop _ _ _ _ hpart
      · have hnone : host.partitions.length ≤ h := Nat.le_of_not_lt hh
        simp [Host.setPartition, Host.partition, hnone, Host.released]

/-- After a close that succeeded the handle is closed. -/
theorem closed_of_close (hclose : close h host = .ok () host') :
    (host'.partition h).closed = true :=
  closed_of_update (PartitionAction.restores_closeUnder none)
    (fun _ _ _ _ hrun => (Partition.continues_close hrun).2) hclose

/-- After a drop that succeeded the handle is closed. -/
theorem closed_of_drop (hdrop : drop h host = .ok () host') :
    (host'.partition h).closed = true :=
  closed_of_update PartitionAction.restores_drop
    (fun _ _ _ _ hrun => (Partition.continues_drop hrun).2) hdrop

end HostAction

namespace HandleCall

/-- The host after a put. -/
theorem next_put (h : Handle) (key value : Bytes) (host : Host) :
    (put key value).next h host = Action.after (HostAction.put h key value host) :=
  Action.after_bind (fun _ _ => rfl) host

/-- A get changes nothing. -/
theorem next_get (h : Handle) (key : Bytes) (host : Host) : (get key).next h host = host :=
  (Action.after_bind (fun _ _ => rfl) host).trans (HostAction.after_get h key host)

/-- The host after a delete. -/
theorem next_delete (h : Handle) (key : Bytes) (host : Host) :
    (delete key).next h host = Action.after (HostAction.delete h key host) :=
  Action.after_bind (fun _ _ => rfl) host

/-- The host after a sync. -/
theorem next_sync (h : Handle) (host : Host) :
    sync.next h host = Action.after (HostAction.sync h host) :=
  Action.after_bind (fun _ _ => rfl) host

/-- The host after a close. -/
theorem next_close (h : Handle) (host : Host) :
    close.next h host = Action.after (HostAction.close h host) :=
  Action.after_bind (fun _ _ => rfl) host

/-- The host after a drop. -/
theorem next_drop (h : Handle) (host : Host) :
    drop.next h host = Action.after (HostAction.drop h host) :=
  Action.after_bind (fun _ _ => rfl) host

/-- A call may change the partition that it is for, and no other one. -/
theorem confines (call : HandleCall) (h : Handle) (host : Host) :
    Confines h host (call.next h host) := by
  cases call with
  | put key value =>
      rw [next_put]
      exact HostAction.confines_put h key value host
  | get key =>
      rw [next_get]
      exact .setTree h host host.tree
  | delete key =>
      rw [next_delete]
      exact HostAction.confines_delete h key host
  | sync =>
      rw [next_sync]
      exact HostAction.confines_sync h host
  | close =>
      rw [next_close]
      exact HostAction.confines_close h host
  | drop =>
      rw [next_drop]
      exact HostAction.confines_drop h host

/-- A closed partition is only changed by being dropped once more. -/
theorem next_of_closed (hclosed : (host.partition h).closed = true) {call : HandleCall}
    (hdrop : call ≠ .drop) : call.next h host = host := by
  -- All but a close are refused, and a close has nothing to do.
  cases call with
  | put key value =>
      rw [next_put, HostAction.put_of_error (Partition.put_of_closed hclosed key value)]
      rfl
  | get key => exact next_get h key host
  | delete key =>
      rw [next_delete, HostAction.delete_of_error (Partition.delete_of_closed hclosed key)]
      rfl
  | sync =>
      have hsync : (host.partition h).sync host.tree =
          .error (.partitionClosed (host.partition h).id) host.tree := by
        rw [Partition.sync_eq, if_pos hclosed]
        rfl
      rw [next_sync, HostAction.sync_of_error hsync]
      rfl
  | close =>
      have hclose : (host.partition h).close host.tree = .ok (host.partition h) host.tree := by
        rw [Partition.close_eq, if_pos hclosed]
        rfl
      rw [next_close, HostAction.close_of_ok hclose]
      exact Host.setPartition_partition host h
  | drop => exact absurd rfl hdrop

/-- What a drop leaves of the tree is what dropping the partition leaves. -/
theorem tree_next_drop (h : Handle) (host : Host) :
    (drop.next h host).tree = Action.after ((host.partition h).drop host.tree) := by
  rw [next_drop, HostAction.tree_after_drop]

end HandleCall

/-- Dropping a partition, closed or not, changes the tree unless there is nothing at the path of
its directory that could be removed. -/
theorem Partition.drop_tree_eq_iff (hdir : part.storage.dir? = some dir)
    (hlast : dir.steps.getLast? = some (.down name)) (hslash : dir.endsWithSlash = false)
    (t : FileTree) : Action.after (part.drop t) = t ↔ t.Spares dir := by
  obtain ⟨dirty, hstorage⟩ := Storage.eq_table_of_dir? hdir
  rw [drop_eq hstorage]
  by_cases hthere : t.exists dir = true
  · rw [if_pos hthere]
    rcases removeDirAll_cases hlast hslash t with
      ⟨⟨e, hremove⟩, hfile⟩ | ⟨loc, node, u, hfind, hnot, hremove, gone⟩
    · rw [hremove]
      exact iff_of_true rfl fun _ => hfile
    · rw [hremove]
      refine iff_of_false gone.differs fun hspares => ?_
      obtain ⟨data, hdata⟩ := hspares hthere loc node hfind
      exact hnot data hdata
  · rw [if_neg hthere]
    exact iff_of_true rfl fun h => absurd h hthere

end PartitionStore
