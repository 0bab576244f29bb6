import PartitionStore.Host
import PartitionStore.Proofs.Partition.Steps

/-!
# `PartitionStore.Proofs.Host`: operations behind handles

What an operation does on a host is what it does to the tree and to the one
partition behind its handle.
-/

set_option autoImplicit false

namespace PartitionStore

/-- To replace a partition by itself changes nothing. -/
@[simp] theorem Host.setPartition_partition (host : Host) (h : Handle) :
    host.setPartition h (host.partition h) = host := by
  have hset : host.partitions.set h (host.partition h) = host.partitions := by
    by_cases hknown : h < host.partitions.length
    · have hpartition : host.partition h = host.partitions[h] := by
        simp [Host.partition, hknown]
      rw [hpartition]
      exact List.set_getElem_self hknown
    · exact List.set_eq_of_length_le (Nat.le_of_not_lt hknown)
  rw [Host.setPartition, hset]

namespace HostAction

variable {α : Type} {host : Host} {t : FileTree} {e : StoreError}

/-- An action on the tree that succeeds leaves its tree, and all partitions as they are. -/
theorem onTree_of_ok {action : StoreAction α} {a : α} (h : action host.tree = .ok a t) :
    onTree action host = .ok a { host with tree := t } := by
  simp only [onTree, h]

/-- So does one that fails. -/
theorem onTree_of_error {action : StoreAction α} (h : action host.tree = .error e t) :
    onTree action host = .error e { host with tree := t } := by
  simp only [onTree, h]

/-- There is no other way for an action on the tree to succeed. -/
theorem onTree_eq_ok_iff {action : StoreAction α} {a : α} {host' : Host} :
    onTree action host = .ok a host' ↔
      ∃ t', action host.tree = .ok a t' ∧ host' = { host with tree := t' } := by
  cases h : action host.tree with
  | error e t' => simp [onTree_of_error h]
  | ok b t' =>
      rw [onTree_of_ok h]
      constructor
      · intro e
        cases e
        exact ⟨t', rfl, rfl⟩
      · rintro ⟨t'', e, rfl⟩
        cases e
        rfl

/-- There is no other way for it to fail. -/
theorem onTree_eq_error_iff {action : StoreAction α} {host' : Host} :
    onTree action host = .error e host' ↔
      ∃ t', action host.tree = .error e t' ∧ host' = { host with tree := t' } := by
  cases h : action host.tree with
  | ok a t' => simp [onTree_of_ok h]
  | error e' t' =>
      rw [onTree_of_error h]
      constructor
      · intro heq
        cases heq
        exact ⟨t', rfl, rfl⟩
      · rintro ⟨t'', heq, rfl⟩
        cases heq
        rfl

/-- An action on the tree leaves the partitions as they are. -/
theorem after_onTree (action : StoreAction α) (host : Host) :
    Action.after (onTree action host) = { host with tree := Action.after (action host.tree) } := by
  cases h : action host.tree with
  | ok a t => rw [onTree_of_ok h, Action.after, Action.after]
  | error e t => rw [onTree_of_error h, Action.after, Action.after]

/-- A partition that was opened comes behind all others, and its handle is the number of those. -/
theorem register_of_ok {opening : StoreAction Partition} {part : Partition}
    (h : opening host.tree = .ok part t) :
    register opening host = .ok host.partitions.length ⟨t, host.partitions ++ [part]⟩ := by
  rw [register, Action.bind_of_ok (onTree_of_ok h)]
  rfl

/-- A partition that was not opened has no handle; the tree may have changed. -/
theorem register_of_error {opening : StoreAction Partition} (h : opening host.tree = .error e t) :
    register opening host = .error e { host with tree := t } := by
  rw [register, Action.bind_of_error (onTree_of_error h)]

variable {h : Handle} {part : Partition}

/-- What an action leaves of the tree and of the partition is what is there afterwards. -/
theorem update_of_run_ok {action : PartitionAction Unit} {s : Partition.InTree}
    (hrun : action ⟨host.tree, host.partition h⟩ = .ok () s) :
    update h action host = .ok () (({ host with tree := s.tree } : Host).setPartition h
      s.partition) := by
  simp only [update, hrun]

/-- So it is where the action fails. If the partition is what it was, it is the tree alone that
may have changed. -/
theorem update_of_run_error {action : PartitionAction Unit} {s : Partition.InTree}
    (hrun : action ⟨host.tree, host.partition h⟩ = .error e s)
    (hsame : s.partition = host.partition h) :
    update h action host = .error e { host with tree := s.tree } := by
  have hset : ({ host with tree := s.tree } : Host).setPartition h (host.partition h) =
      { host with tree := s.tree } := Host.setPartition_partition { host with tree := s.tree } h
  simp only [update, hrun, hsame, hset]

/-- An action that succeeds leaves what it makes of the tree and of its partition. -/
theorem update_of_ok {action : PartitionAction Unit}
    (hrun : action.result (host.partition h) host.tree = .ok part t) :
    update h action host = .ok () (({ host with tree := t } : Host).setPartition h part) := by
  exact update_of_run_ok (PartitionAction.of_result_ok hrun)

/-- One that fails leaves the partition as it was, if that is what its failures do. -/
theorem update_of_error {action : PartitionAction Unit} (restores : action.Restores)
    (hrun : action.result (host.partition h) host.tree = .error e t) :
    update h action host = .error e { host with tree := t } := by
  exact update_of_run_error (restores.of_result_error hrun) rfl

/-- A sync that succeeds leaves the tree and the partition that the partition's own sync leaves. -/
theorem sync_of_ok (hsync : (host.partition h).sync host.tree = .ok part t) :
    sync h host = .ok () (({ host with tree := t } : Host).setPartition h part) :=
  update_of_ok hsync

/-- A sync that fails leaves the partition as it was, and the tree where the sync stopped. -/
theorem sync_of_error (hsync : (host.partition h).sync host.tree = .error e t) :
    sync h host = .error e { host with tree := t } :=
  update_of_error (PartitionAction.restores_syncUnder none) hsync

/-- A close that succeeds leaves the tree and the partition that the partition's own close leaves.
-/
theorem close_of_ok (hclose : (host.partition h).close host.tree = .ok part t) :
    close h host = .ok () (({ host with tree := t } : Host).setPartition h part) :=
  update_of_ok hclose

/-- A close that fails leaves the partition as it was, open still, and the tree where it stopped. -/
theorem close_of_error (hclose : (host.partition h).close host.tree = .error e t) :
    close h host = .error e { host with tree := t } :=
  update_of_error (PartitionAction.restores_closeUnder none) hclose

/-- A drop that succeeds leaves the tree and the partition that the partition's own drop leaves. -/
theorem drop_of_ok (hdrop : (host.partition h).drop host.tree = .ok part t) :
    drop h host = .ok () (({ host with tree := t } : Host).setPartition h part) :=
  update_of_ok hdrop

/-- A drop that fails leaves the partition as it was, and the tree where it stopped. -/
theorem drop_of_error (hdrop : (host.partition h).drop host.tree = .error e t) :
    drop h host = .error e { host with tree := t } :=
  update_of_error PartitionAction.restores_drop hdrop

/-- What a drop leaves of the tree hangs on the partition alone that it drops. -/
theorem tree_after_drop (h : Handle) (host : Host) : (Action.after (drop h host)).tree =
    Action.after ((host.partition h).drop host.tree) := by
  simp only [drop, update, Partition.drop, PartitionAction.result]
  cases PartitionAction.drop ⟨host.tree, host.partition h⟩ <;> rfl

/-- A put changes the partition, and nothing on disk. -/
theorem put_of_ok {key value : Bytes} (hput : (host.partition h).put key value = .ok part) :
    put h key value host = .ok () (host.setPartition h part) := by
  rw [put, Action.bind_of_ok (Action.get_apply host), hput]
  rfl

/-- A put that is refused changes nothing. -/
theorem put_of_error {key value : Bytes} (hput : (host.partition h).put key value = .error e) :
    put h key value host = .error e host := by
  rw [put, Action.bind_of_ok (Action.get_apply host), hput]
  rfl

/-- A get changes nothing. -/
theorem get_of_ok {key : Bytes} {value : Option Bytes}
    (hget : (host.partition h).get key = .ok value) : get h key host = .ok value host := by
  rw [get, Action.bind_of_ok (Action.get_apply host), hget]
  rfl

/-- Nor does a get that is refused. -/
theorem get_of_error {key : Bytes} (hget : (host.partition h).get key = .error e) :
    get h key host = .error e host := by
  rw [get, Action.bind_of_ok (Action.get_apply host), hget]
  rfl

/-- What is read is not changed, whatever comes of it. -/
theorem after_get (h : Handle) (key : Bytes) (host : Host) :
    Action.after (get h key host) = host := by
  rw [get, Action.bind_of_ok (Action.get_apply host)]
  cases (host.partition h).get key <;> rfl

/-- A delete changes the partition, and nothing on disk. -/
theorem delete_of_ok {key : Bytes} (hdelete : (host.partition h).delete key = .ok part) :
    delete h key host = .ok () (host.setPartition h part) := by
  rw [delete, Action.bind_of_ok (Action.get_apply host), hdelete]
  rfl

/-- A delete that is refused changes nothing. -/
theorem delete_of_error {key : Bytes} (hdelete : (host.partition h).delete key = .error e) :
    delete h key host = .error e host := by
  rw [delete, Action.bind_of_ok (Action.get_apply host), hdelete]
  rfl

end HostAction

end PartitionStore
