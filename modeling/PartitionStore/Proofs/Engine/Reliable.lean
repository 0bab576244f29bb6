import PartitionStore.Proofs.FileTree.Existing
import PartitionStore.Proofs.Stored

/-!
# `PartitionStore.Proofs.Engine.Reliable`: backends on which nothing fails

A backend is `Reliable` if, as long as an invariant holds of the host and of the
registry, its operations succeed on registered partitions, do with their entries
what they are for, leave all others alone, and keep the invariant. Both backends
are reliable, each with an invariant of its own.

* `reliable_table`: the folder has the tables of the registered partitions.
* `reliable_inMemory`: the registered partitions are in memory only.
-/

set_option autoImplicit false

namespace PartitionStore

open FileTree Naming PartitionStore.Partition StoreFolder

/-- What an engine relies on while its backend does not fail: `inv` holds while it is open, and
`closing` of the partitions that are left while it is being closed. Partitions that are `admitted`
can be opened, and entries that fit can be flushed. -/
structure Reliable (b : Backend) (d : StoreFolder) (admitted : PartitionSpec → Prop)
    (inv closing : Host → List (Int32 × Handle) → Prop) : Prop where
  put : b.put = HostAction.put
  get : b.get = HostAction.get
  delete : b.delete = HostAction.delete
  registered : ∀ {host registry}, inv host registry →
    Registered (fun _ part => part.closed = false) host registry
  perm : ∀ {host registry registry'}, inv host registry → registry'.Perm registry →
    inv host registry'
  touch : ∀ {host registry id h}, inv host registry → (id, h) ∈ registry → ∀ entries,
    inv (host.setPartition h
      { host.partition h with entries, storage := (host.partition h).storage.touched }) registry
  attach : ∀ {host registry spec}, inv host registry → spec.store = d.store →
    spec.id ∉ registry.map Prod.fst → admitted spec →
      ∃ host' storage, b.attach d spec host = .ok host.partitions.length host' ∧
        host'.partitions =
          host.partitions ++ [⟨spec.id, spec.format, SortedMap.empty, storage, false⟩] ∧
        inv host' (registry ++ [(spec.id, host.partitions.length)])
  sync : ∀ {host registry id h}, inv host registry → (id, h) ∈ registry →
    (∀ entry ∈ (host.partition h).entries.toList, Table.Fits entry) →
      ∃ host', b.sync h host = .ok () host' ∧ inv host' registry ∧
        ∀ g, (host'.partition g).entries = (host.partition g).entries
  drop : ∀ {host registry id h}, inv host registry → (id, h) ∈ registry →
    ∃ host', b.drop h host = .ok () host' ∧
      inv host' (registry.filter fun entry => entry.1 != id) ∧
      ∀ g, g ≠ h → host'.partition g = host.partition g
  removeFolder : ∀ {host}, inv host [] → ∃ removed t, d.remove host.tree = .ok removed t
  startClosing : ∀ {host registry}, inv host registry → closing host registry
  handles : ∀ {host registry}, closing host registry →
    Registered (fun _ part => part.closed = false) host registry
  close : ∀ {host registry id h}, closing host registry → (id, h) ∈ registry →
    (∀ entry ∈ (host.partition h).entries.toList, Table.Fits entry) →
      ∃ host', b.close h host = .ok () host' ∧
        closing host' (registry.filter fun entry => entry.1 != id) ∧
        ∀ g, g ≠ h → host'.partition g = host.partition g

variable {d : StoreFolder} {loc : Location} {table : Int32 → Table} {host : Host}
  {ids : Int32 → Prop} {registry : List (Int32 × Handle)} {id : Int32} {h : Handle}

/-- Of registered partitions less may be said than is known. -/
theorem Registered.imp {P Q : Int32 → Partition → Prop} (registered : Registered P host registry)
    (himp : ∀ i p, P i p → Q i p) : Registered Q host registry :=
  ⟨registered.ids, registered.handles, registered.known,
    fun i g hg => himp i _ (registered.each i g hg)⟩

/-- A folder that is led to can be removed. -/
theorem StoreFolder.exists_remove {t : FileTree} (lead : t.LeadsTo d.path loc) :
    ∃ removed t', d.remove t = .ok removed t' := by
  obtain ⟨t', hremove⟩ := lead.exists_removeDirAll d.getLast?_path
  refine ⟨true, t', ?_⟩
  rw [StoreFolder.remove, Action.bind_of_ok (Action.get_apply t),
    if_pos (show d.isThere t = true from lead.exists),
    Action.bind_of_ok (StoreAction.io_of_ok hremove)]
  rfl

/-- Where a partition's storage changes, its entries stay, and so do those of all others. -/
theorem entries_setPartition (host : Host) (h : Handle) (storage : Storage) (t : FileTree)
    (g : Handle) :
    ((({ host with tree := t } : Host).setPartition h { host.partition h with storage }).partition
      g).entries = (host.partition g).entries := by
  by_cases hg : g = h
  · subst hg
    by_cases hknown : g < host.partitions.length
    · rw [Host.partition_setPartition_self ({ host with tree := t } : Host) _ hknown]
    · rw [Host.setPartition, List.set_eq_of_length_le (Nat.le_of_not_lt hknown)]
      rfl
  · rw [Host.partition_setPartition_of_ne _ _ hg]
    rfl

/-! ### Tables -/

/-- Partitions with tables can be opened where the file system takes their names and paths. -/
def HasPlace (d : StoreFolder) (spec : PartitionSpec) : Prop :=
  (dirName d.store spec.id).utf8ByteSize ≤ maxNameBytes ∧
    checkText (tableFile (d.partitionPath spec.id)) = .ok ()

/-- The path of the table file is the longest that the partition needs but for its scratch file,
which takes as many bytes. So its directory has room for both. -/
theorem HasPlace.hasRoom {spec : PartitionSpec} (place : HasPlace d spec) :
    (d.partitionPath spec.id).HasRoom 9 :=
  hasRoom_of_files (text_partitionPath_ne d _) (endsWithSlash_partitionPath d _) (.inl rfl) place.2

/-- A name that is short enough can be that of an entry, as nothing else is wrong with it. -/
theorem HasPlace.usable {spec : PartitionSpec} (place : HasPlace d spec) :
    isEntryName (dirName d.store spec.id) = true := by
  simp [isEntryName_of_text (d.mark_not_mem_dirName _), isPlainName_dir, place.1]

/-- On disk nothing fails while the folder has the tables of the registered partitions: a table is
there to be written over, and a directory to be removed. While the engine is being closed the folder
may have others beside them. -/
theorem reliable_table (d : StoreFolder) (loc : Location) :
    Reliable Backend.table d (HasPlace d)
      (fun host registry => ∃ table,
        Stored d loc table host (· ∈ registry.map Prod.fst) registry)
      fun host registry => ∃ ids table, Stored d loc table host ids registry where
  put := rfl
  get := rfl
  delete := rfl
  registered := by
    rintro host registry ⟨table, stored⟩
    exact stored.registered.imp fun _ _ kept => kept.isOpen
  perm := by
    rintro host registry registry' ⟨table, stored⟩ hperm
    exact ⟨table, (stored.perm hperm).congr_ids fun i => (hperm.map Prod.fst).mem_iff⟩
  touch := by
    rintro host registry id h ⟨table, stored⟩ hmem entries
    exact ⟨table, stored.touch hmem entries⟩
  attach := by
    rintro host registry spec ⟨table, stored⟩ hstore hid place
    rcases stored.attach_cases hstore hid fun _ => place.hasRoom with
      ⟨t, -, hattach, hstored⟩ | ⟨hrefused, -⟩
    · exact ⟨_, _, hattach, rfl, _, hstored.congr_ids fun i => mem_ids_registered_iff⟩
    · -- Neither the name nor the path is a reason to refuse it.
      have htext := Path.checkText_of_hasRoom place.hasRoom
      rcases hrefused with hlong | hname
      · exact absurd htext hlong
      · exact absurd place.usable (by simp [hname])
  sync := by
    rintro host registry id h ⟨table, stored⟩ hmem fits
    obtain ⟨t, -, ⟨hsync, hstored⟩ | ⟨-, -, hfits⟩⟩ := stored.sync_cases hmem
    · exact ⟨_, hsync, ⟨_, hstored⟩, entries_setPartition host h _ t⟩
    · exact absurd fits hfits
  drop := by
    rintro host registry id h ⟨table, stored⟩ hmem
    obtain ⟨t, part, -, hdrop, hstored⟩ := stored.drop_ok hmem
    exact ⟨_, hdrop, ⟨table, hstored.congr_ids fun i => mem_ids_unregistered_iff⟩,
      fun g hg => Host.partition_setPartition_of_ne _ _ hg⟩
  removeFolder := by
    rintro host ⟨table, stored⟩
    exact StoreFolder.exists_remove stored.tables.lead
  startClosing := by
    rintro host registry ⟨table, stored⟩
    exact ⟨_, table, stored⟩
  handles := by
    rintro host registry ⟨ids, table, stored⟩
    exact stored.registered.imp fun _ _ kept => kept.isOpen
  close := by
    rintro host registry id h ⟨ids, table, stored⟩ hmem fits
    obtain ⟨t, -, ⟨part, hclose, hstored⟩ | ⟨-, hfits⟩⟩ := stored.close_cases hmem
    · exact ⟨_, hclose, ⟨ids, _, hstored⟩, fun g hg => Host.partition_setPartition_of_ne _ _ hg⟩
    · exact absurd fits hfits

/-! ### Memory -/

/-- The registered partitions are open and in memory only, and the folder is there. -/
structure Remembered (d : StoreFolder) (loc : Location) (host : Host)
    (registry : List (Int32 × Handle)) : Prop where
  lead : host.tree.LeadsTo d.path loc
  registered : Registered (fun _ part => part.closed = false ∧ part.storage = .memory) host registry

namespace Remembered

variable (remembered : Remembered d loc host registry) (hmem : (id, h) ∈ registry)
include remembered hmem

/-- A registered partition is open. -/
theorem isOpen : (host.partition h).closed = false := (remembered.registered.each id h hmem).1

/-- A registered partition is in memory. -/
theorem storage : (host.partition h).storage = .memory := (remembered.registered.each id h hmem).2

/-- There is nothing to flush. -/
theorem flush : (host.partition h).flush = pure (host.partition h) := by
  rw [Partition.flush_eq, remembered.storage hmem]

/-- So a sync has nothing to write. -/
theorem sync_ok : HostAction.sync h host = .ok () host := by
  have hsync : Partition.sync (host.partition h) host.tree = .ok (host.partition h) host.tree := by
    rw [Partition.sync_eq, if_neg (by simp [remembered.isOpen hmem]), remembered.flush hmem]
    rfl
  rw [HostAction.sync_of_ok hsync]
  exact congrArg _ (Host.setPartition_partition host h)

/-- Once a partition has left the registry it may be replaced by any other. -/
theorem release (part : Partition) : Remembered d loc (host.setPartition h part)
    (registry.filter fun entry => entry.1 != id) :=
  ⟨remembered.lead, remembered.registered.release hmem part fun _ _ _ old => old⟩

/-- A partition in memory can be closed. -/
theorem close_ok : ∃ part, HostAction.close h host = .ok () (host.setPartition h part) := by
  have hclose := @close_of_isOpen host.tree (host.partition h) (remembered.isOpen hmem)
  rw [remembered.flush hmem] at hclose
  exact ⟨_, HostAction.close_of_ok hclose⟩

/-- A partition in memory can be dropped. -/
theorem drop_ok : ∃ part, HostAction.drop h host = .ok () (host.setPartition h part) := by
  have hdrop := Partition.drop_of_memory (remembered.storage hmem) host.tree
  exact ⟨_, HostAction.drop_of_ok hdrop⟩

end Remembered

/-- In memory nothing fails, whatever the partitions hold. -/
theorem reliable_inMemory (d : StoreFolder) (loc : Location) :
    Reliable Backend.inMemory d (fun _ => True) (Remembered d loc) (Remembered d loc) where
  put := rfl
  get := rfl
  delete := rfl
  registered remembered := remembered.registered.imp fun _ _ h => h.1
  perm remembered hperm := ⟨remembered.lead, remembered.registered.perm hperm⟩
  touch remembered hmem entries := by
    refine ⟨remembered.lead, remembered.registered.setPartition hmem
      ⟨remembered.isOpen hmem, ?_⟩ fun _ _ _ old => old⟩
    simp [remembered.storage hmem, Storage.touched]
  attach := by
    intro host registry spec remembered _ hid _
    refine ⟨_, _, HostAction.register_of_ok rfl, rfl, remembered.lead, ?_⟩
    exact remembered.registered.add hid ⟨rfl, rfl⟩ fun _ _ _ old => old
  sync remembered hmem _ := ⟨_, remembered.sync_ok hmem, remembered, fun _ => rfl⟩
  drop remembered hmem := by
    obtain ⟨part, hdrop⟩ := remembered.drop_ok hmem
    exact ⟨_, hdrop, remembered.release hmem part,
      fun g hg => Host.partition_setPartition_of_ne _ _ hg⟩
  removeFolder remembered := StoreFolder.exists_remove remembered.lead
  startClosing remembered := remembered
  handles remembered := remembered.registered.imp fun _ _ h => h.1
  close remembered hmem _ := by
    obtain ⟨part, hclose⟩ := remembered.close_ok hmem
    exact ⟨_, hclose, remembered.release hmem part,
      fun g hg => Host.partition_setPartition_of_ne _ _ hg⟩

end PartitionStore
