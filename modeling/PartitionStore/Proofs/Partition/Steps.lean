import PartitionStore.Partition
import PartitionStore.Proofs.Action

/-!
# `PartitionStore.Proofs.Partition.Steps`: what becomes of a partition, step by step

Flushing, closing and dropping change the partition and the tree in turn, and may stop in
between. Here each is run through: `flushUnder_of_dirty` and the others say what an action comes
to, fault or no fault. A failure leaves the partition as it was (`Restores`). For a flush that is so
because it makes the partition dirty again: it took the partition for clean before it wrote.

As failures change nothing in memory, an action is told by what it makes of the partition where it
succeeds (`result`). `Partition.sync`, `close` and `drop` are the actions told so.
-/

set_option autoImplicit false

namespace PartitionStore

variable {t u : FileTree} {part : Partition} {dir : Path} {dirty : Bool} {e : StoreError}

namespace Partition

/-- Whether the entries may differ from those in the table file. -/
def isDirty (part : Partition) : Bool :=
  match part.storage with
  | .memory => false
  | .table _ dirty => dirty

/-- Only a partition with a table can be dirty. -/
theorem exists_storage_of_isDirty (h : part.isDirty = true) :
    ∃ dir, part.storage = .table dir true := by
  obtain ⟨id, format, entries, storage, closed⟩ := part
  cases storage with
  | memory => cases h
  | table dir dirty =>
      obtain rfl : dirty = true := h
      exact ⟨dir, rfl⟩

/-- The partition after its storage was deleted. -/
def dropped (part : Partition) : Partition :=
  { part with closed := true, entries := SortedMap.empty, storage := part.storage.settled }

end Partition

namespace PartitionAction

open PartitionStore.Partition

/-! ### The steps -/

/-- A store's action that succeeds changes the tree and leaves the partition alone. -/
theorem onTree_of_ok {α : Type} {action : StoreAction α} {a : α} (h : action t = .ok a u) :
    onTree action ⟨t, part⟩ = .ok a ⟨u, part⟩ := by
  simp only [onTree, h]

/-- So does one that fails, which is why a flush has to put the partition right by itself. -/
theorem onTree_of_error {α : Type} {action : StoreAction α} (h : action t = .error e u) :
    onTree action ⟨t, part⟩ = .error e ⟨u, part⟩ := by
  simp only [onTree, h]

/-- Where there is nothing to write a flush does nothing, whatever would stop it. -/
theorem flushUnder_of_clean (h : part.isDirty = false) (fault : Option WriteFault)
    (t : FileTree) : flushUnder fault ⟨t, part⟩ = .ok () ⟨t, part⟩ := by
  obtain ⟨id, format, entries, storage, closed⟩ := part
  cases storage with
  | memory => rfl
  | table dir dirty =>
      obtain rfl : dirty = false := h
      rfl

/-- A dirty partition is flushed by writing its table. If that fails the partition is dirty and
otherwise as it was. -/
theorem flushUnder_of_dirty (h : part.storage = .table dir true) (fault : Option WriteFault)
    (t : FileTree) :
    flushUnder fault ⟨t, part⟩ =
      match Table.writeUnder fault ⟨part.format, part.entries⟩ (tableFile dir) t with
      | .ok _ u => .ok () ⟨u, { part with storage := .table dir false }⟩
      | .error e u => .error e ⟨u, part⟩ := by
  obtain ⟨id, format, entries, storage, closed⟩ := part
  obtain rfl : storage = .table dir true := h
  -- The table is written with the partition taken for clean.
  let clean : Partition := ⟨id, format, entries, .table dir false, closed⟩
  let attempt : PartitionAction Unit := do
    let _ ← onTree (Table.writeUnder fault ⟨format, entries⟩ (tableFile dir))
  have hrun : flushUnder fault ⟨t, ⟨id, format, entries, .table dir true, closed⟩⟩ =
      (tryCatch attempt fun failure => do
        modifyPartition fun p => { p with storage := p.storage.touched }
        throw failure) ⟨t, clean⟩ := rfl
  rw [hrun]
  cases hwrite : Table.writeUnder fault ⟨format, entries⟩ (tableFile dir) t with
  | ok size u =>
      have hattempt : attempt ⟨t, clean⟩ = .ok () ⟨u, clean⟩ :=
        Action.bind_of_ok (onTree_of_ok hwrite)
      exact Action.tryCatch_of_ok hattempt
  | error e u =>
      have hattempt : attempt ⟨t, clean⟩ = .error e ⟨u, clean⟩ :=
        Action.bind_of_error (onTree_of_error hwrite)
      exact Action.tryCatch_of_error hattempt

/-- A closed partition is not synced, and refuses before anything could be stopped. -/
theorem syncUnder_of_closed (h : part.closed = true) (fault : Option WriteFault) (t : FileTree) :
    syncUnder fault ⟨t, part⟩ = .error (.partitionClosed part.id) ⟨t, part⟩ := by
  show (if part.closed then throw (.partitionClosed part.id) else flushUnder fault :
    PartitionAction Unit) ⟨t, part⟩ = _
  rw [if_pos h]
  rfl

/-- To sync an open partition is to flush it. -/
theorem syncUnder_of_isOpen (h : part.closed = false) (fault : Option WriteFault) (t : FileTree) :
    syncUnder fault ⟨t, part⟩ = flushUnder fault ⟨t, part⟩ := by
  show (if part.closed then throw (.partitionClosed part.id) else flushUnder fault :
    PartitionAction Unit) ⟨t, part⟩ = _
  rw [if_neg (by simp [h])]

/-- To close a closed partition does nothing. -/
theorem closeUnder_of_closed (h : part.closed = true) (fault : Option WriteFault) (t : FileTree) :
    closeUnder fault ⟨t, part⟩ = .ok () ⟨t, part⟩ := by
  show (if part.closed then pure () else _ : PartitionAction Unit) ⟨t, part⟩ = _
  rw [if_pos h]
  rfl

/-- An open partition is flushed before it is closed, so that it stays open where the flush fails.
-/
theorem closeUnder_of_isOpen (h : part.closed = false) (fault : Option WriteFault) (t : FileTree) :
    closeUnder fault ⟨t, part⟩ = (do
      flushUnder fault
      modifyPartition fun p => { p with closed := true }) ⟨t, part⟩ := by
  show (if part.closed then pure () else _ : PartitionAction Unit) ⟨t, part⟩ = _
  rw [if_neg (by simp [h])]

/-- A partition in memory has no directory to remove, and forgets its entries. -/
theorem drop_of_memory (h : part.storage = .memory) (t : FileTree) :
    drop ⟨t, part⟩ = .ok () ⟨t, part.dropped⟩ := by
  obtain ⟨id, format, entries, storage, closed⟩ := part
  obtain rfl : storage = .memory := h
  rfl

/-- What a drop does is what removing the directory does, if there is anything at its path. The
partition is given up once that is done. -/
theorem drop_of_table (h : part.storage = .table dir dirty) (t : FileTree) :
    drop ⟨t, part⟩ = if t.exists dir then
        match Files.removeDirAll dir t with
        | .ok _ u => .ok () ⟨u, part.dropped⟩
        | .error e u => .error (.io e) ⟨u, part⟩
      else .ok () ⟨t, part.dropped⟩ := by
  obtain ⟨id, format, entries, storage, closed⟩ := part
  obtain rfl : storage = .table dir dirty := h
  show (do
    if t.exists dir then onTree (.io <| Files.removeDirAll dir)
    modifyPartition Partition.dropped : PartitionAction Unit) _ = _
  by_cases hthere : t.exists dir = true
  · rw [if_pos hthere, if_pos hthere]
    cases hremove : Files.removeDirAll dir t with
    | ok _ u =>
        rw [Action.bind_of_ok (onTree_of_ok (StoreAction.io_of_ok hremove))]
        rfl
    | error e u => rw [Action.bind_of_error (onTree_of_error (StoreAction.io_of_error hremove))]
  · rw [if_neg hthere, if_neg hthere]
    rfl

/-! ### Failures change nothing in memory -/

/-- The action leaves the partition as it was where it fails. -/
def Restores (action : PartitionAction Unit) : Prop :=
  ∀ s e s', action s = .error e s' → s'.partition = s.partition

/-- A flush that fails leaves the partition as it was: clean it did not start to write, and dirty it
is made dirty again. -/
theorem restores_flushUnder (fault : Option WriteFault) : Restores (flushUnder fault) := by
  rintro ⟨t, part⟩ e s' hfail
  cases hdirty : part.isDirty with
  | false => cases (flushUnder_of_clean hdirty fault t).symm.trans hfail
  | true =>
      obtain ⟨dir, hstorage⟩ := exists_storage_of_isDirty hdirty
      rw [flushUnder_of_dirty hstorage] at hfail
      split at hfail <;> cases hfail
      rfl

/-- A sync that fails refused, or is a flush that failed. -/
theorem restores_syncUnder (fault : Option WriteFault) : Restores (syncUnder fault) := by
  rintro ⟨t, part⟩ e s' hfail
  cases hclosed : part.closed with
  | true =>
      cases (syncUnder_of_closed hclosed fault t).symm.trans hfail
      rfl
  | false =>
      rw [syncUnder_of_isOpen hclosed] at hfail
      exact restores_flushUnder fault _ _ _ hfail

/-- A close that fails is a flush that failed; to mark the partition as closed cannot fail. -/
theorem restores_closeUnder (fault : Option WriteFault) : Restores (closeUnder fault) := by
  rintro ⟨t, part⟩ e s' hfail
  cases hclosed : part.closed with
  | true => cases (closeUnder_of_closed hclosed fault t).symm.trans hfail
  | false =>
      rw [closeUnder_of_isOpen hclosed] at hfail
      rcases Action.bind_eq_error_iff.1 hfail with hflush | ⟨_, _, -, hmodify⟩
      · exact restores_flushUnder fault _ _ _ hflush
      · cases hmodify

/-- A drop that fails could not remove the directory, and forgot nothing yet. -/
theorem restores_drop : Restores drop := by
  rintro ⟨t, part⟩ e s' hfail
  cases hstorage : part.storage with
  | memory => cases (drop_of_memory hstorage t).symm.trans hfail
  | table dir dirty =>
      rw [drop_of_table hstorage] at hfail
      split at hfail
      · split at hfail <;> cases hfail
        rfl
      · cases hfail

/-! ### Actions told by their results -/

/-- What an action makes of the partition, as an action on the tree. -/
def result (action : PartitionAction Unit) (part : Partition) : StoreAction Partition := fun t =>
  match action ⟨t, part⟩ with
  | .ok _ s => .ok s.partition s.tree
  | .error e s => .error e s.tree

/-- What an action made of the partition is its result. -/
theorem result_of_ok {action : PartitionAction Unit} {part' : Partition}
    (h : action ⟨t, part⟩ = .ok () ⟨u, part'⟩) : action.result part t = .ok part' u := by
  simp only [result, h]

/-- The result of an action that failed tells the failure and the tree, and no partition. -/
theorem result_of_error {action : PartitionAction Unit} {s : InTree}
    (h : action ⟨t, part⟩ = .error e s) : action.result part t = .error e s.tree := by
  simp only [result, h]

/-- The result of an action that succeeded tells all of it. -/
theorem of_result_ok {action : PartitionAction Unit} {part' : Partition}
    (h : action.result part t = .ok part' u) : action ⟨t, part⟩ = .ok () ⟨u, part'⟩ := by
  rw [result] at h
  split at h <;> cases h
  assumption

/-- If the action restores the partition, the result tells all of a failure too. -/
theorem Restores.of_result_error {action : PartitionAction Unit} (restores : Restores action)
    (h : action.result part t = .error e u) : action ⟨t, part⟩ = .error e ⟨u, part⟩ := by
  rw [result] at h
  split at h <;> cases h
  rename_i s hrun
  obtain rfl : s.partition = part := restores _ _ _ hrun
  exact hrun

end PartitionAction

namespace Partition

/-- What a flush makes of the partition. -/
def flush (part : Partition) : StoreAction Partition :=
  (PartitionAction.flushUnder none).result part

/-- What syncing makes of the partition. -/
def sync (part : Partition) : StoreAction Partition := (PartitionAction.syncUnder none).result part

/-- What closing makes of the partition. -/
def close (part : Partition) : StoreAction Partition :=
  (PartitionAction.closeUnder none).result part

/-- What dropping makes of the partition. -/
def drop (part : Partition) : StoreAction Partition := PartitionAction.drop.result part

/-- A flush in one piece: the table is written if the partition is dirty, and then it is clean. -/
theorem flush_eq (part : Partition) : part.flush = match part.storage with
    | .table dir true => do
      let _ ← Table.write ⟨part.format, part.entries⟩ (tableFile dir)
      pure { part with storage := part.storage.settled }
    | _ => pure part := by
  funext t
  -- A clean partition is left alone; behind a dirty one is a table, and without a fault the steps
  -- are those of a write.
  cases hdirty : part.isDirty with
  | false =>
      have hflush : part.flush t = .ok part t :=
        PartitionAction.result_of_ok (PartitionAction.flushUnder_of_clean hdirty none t)
      obtain ⟨id, format, entries, storage, closed⟩ := part
      cases storage with
      | memory => exact hflush
      | table dir dirty =>
          obtain rfl : dirty = false := hdirty
          exact hflush
  | true =>
      obtain ⟨dir, hstorage⟩ := exists_storage_of_isDirty hdirty
      have hflush := PartitionAction.flushUnder_of_dirty hstorage none t
      simp only [hstorage]
      cases hwrite : Table.write ⟨part.format, part.entries⟩ (tableFile dir) t with
      | ok size u =>
          rw [show Table.writeUnder none _ _ t = .ok size u from hwrite] at hflush
          rw [Action.bind_of_ok hwrite]
          exact PartitionAction.result_of_ok hflush
      | error e u =>
          rw [show Table.writeUnder none _ _ t = .error e u from hwrite] at hflush
          rw [Action.bind_of_error hwrite]
          exact PartitionAction.result_of_error hflush

/-- A sync in one piece: a flush, unless the partition is closed. -/
theorem sync_eq (part : Partition) :
    part.sync = if part.closed then throw (.partitionClosed part.id) else part.flush := by
  funext t
  cases hclosed : part.closed with
  | true => exact PartitionAction.result_of_error (PartitionAction.syncUnder_of_closed hclosed none t)
  | false =>
      rw [if_neg (by simp), sync, flush, PartitionAction.result, PartitionAction.result,
        PartitionAction.syncUnder_of_isOpen hclosed]

/-- A close in one piece: nothing for a closed partition, and else a flush before it is closed. -/
theorem close_eq (part : Partition) :
    part.close = if part.closed then pure part
      else (do
        let part ← part.flush
        pure { part with closed := true }) := by
  funext t
  cases hclosed : part.closed with
  | true => exact PartitionAction.result_of_ok (PartitionAction.closeUnder_of_closed hclosed none t)
  | false =>
      have hclose := PartitionAction.closeUnder_of_isOpen hclosed none t
      rw [if_neg (by simp)]
      cases hflush : part.flush t with
      | ok part' u =>
          rw [Action.bind_of_ok (PartitionAction.of_result_ok hflush)] at hclose
          rw [Action.bind_of_ok hflush]
          exact PartitionAction.result_of_ok hclose
      | error e u =>
          have hflush' := (PartitionAction.restores_flushUnder none).of_result_error hflush
          rw [Action.bind_of_error hflush'] at hclose
          rw [Action.bind_of_error hflush]
          exact PartitionAction.result_of_error hclose

/-- A drop in one piece, for a partition in memory. -/
theorem drop_of_memory (h : part.storage = .memory) (t : FileTree) :
    part.drop t = .ok part.dropped t :=
  PartitionAction.result_of_ok (PartitionAction.drop_of_memory h t)

/-- What a drop does is what removing the directory does, if there is anything at its path. -/
theorem drop_eq (hstorage : part.storage = .table dir dirty) (t : FileTree) :
    part.drop t = if t.exists dir then
        match Files.removeDirAll dir t with
        | .ok _ u => .ok part.dropped u
        | .error e u => .error (.io e) u
      else .ok part.dropped t := by
  rw [drop, PartitionAction.result, PartitionAction.drop_of_table hstorage]
  by_cases hthere : t.exists dir = true
  · rw [if_pos hthere, if_pos hthere]
    cases Files.removeDirAll dir t <;> rfl
  · rw [if_neg hthere, if_neg hthere]

/-- The same, one step after the other. -/
theorem drop_eq_do (hstorage : part.storage = .table dir dirty) : part.drop = (do
    let t ← MonadState.get
    if t.exists dir then .io <| Files.removeDirAll dir
    pure part.dropped) := by
  funext t
  rw [drop_eq hstorage, Action.bind_of_ok (Action.get_apply t)]
  by_cases hthere : t.exists dir = true
  · rw [if_pos hthere, if_pos hthere]
    cases hremove : Files.removeDirAll dir t with
    | ok _ u =>
        rw [Action.bind_of_ok (StoreAction.io_of_ok hremove)]
        rfl
    | error e u => rw [Action.bind_of_error (StoreAction.io_of_error hremove)]
  · rw [if_neg hthere, if_neg hthere]
    rfl

end Partition

end PartitionStore
