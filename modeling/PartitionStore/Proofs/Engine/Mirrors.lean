import PartitionStore.Proofs.Engine.Steps
import PartitionStore.Proofs.Registered
import PartitionStore.Proofs.Table.Block

/-!
# `PartitionStore.Proofs.Engine.Mirrors`: a registry and what it stands for

The partitions of a store are, to its clients, a map from ids to maps. `Mirrors`
says that this is what an engine has registered: there is a handle for every
id of the map, and behind it are the entries that the map has for the id.

* `Mirrors.openIds_eq`: the ids that the engine lists are those of the map.
* `Mirrors.change`, `Mirrors.add`, `Mirrors.remove`: what is done to one
  partition is done to the map.
-/

set_option autoImplicit false

namespace PartitionStore

/-- The registry has just the ids of the partitions, and behind their handles are their entries,
all of which fit into a table. -/
structure Mirrors (partitions : SortedMap Int32 (SortedMap Bytes Bytes)) (host : Host)
    (registry : List (Int32 × Handle)) : Prop where
  ids : ∀ id, id ∈ registry.map Prod.fst ↔ ∃ entries, partitions.get? id = some entries
  entries : ∀ id h, (id, h) ∈ registry → partitions.get? id = some (host.partition h).entries
  fits : ∀ id h, (id, h) ∈ registry →
    ∀ entry ∈ (host.partition h).entries.toList, Table.Fits entry

variable {partitions : SortedMap Int32 (SortedMap Bytes Bytes)} {host host' : Host}
  {registry registry' : List (Int32 × Handle)} {id : Int32} {h : Handle}
  {entries : SortedMap Bytes Bytes}

/-! ### Entries that fit -/

/-- Entries that fit into a table still do with another one that fits. -/
theorem fits_insert (fits : ∀ entry ∈ entries.toList, Table.Fits entry) {key value : Bytes}
    (new : Table.Fits (key, value)) :
    ∀ entry ∈ (entries.insert key value).toList, Table.Fits entry := by
  intro entry hentry
  rcases SortedMap.mem_of_mem_insertIn hentry with rfl | hold
  · exact new
  · exact fits entry hold

theorem fits_erase (fits : ∀ entry ∈ entries.toList, Table.Fits entry) (key : Bytes) :
    ∀ entry ∈ (entries.erase key).toList, Table.Fits entry :=
  fun entry hentry => fits entry (List.mem_of_mem_filter hentry)

/-! ### Changes of the registry -/

namespace Mirrors

theorem perm (mirrors : Mirrors partitions host registry) (hperm : registry'.Perm registry) :
    Mirrors partitions host registry' :=
  ⟨fun id => (hperm.map Prod.fst).mem_iff.trans (mirrors.ids id),
    fun id h hmem => mirrors.entries id h (hperm.mem_iff.1 hmem),
    fun id h hmem => mirrors.fits id h (hperm.mem_iff.1 hmem)⟩

/-- Only the entries of the registered partitions count. -/
theorem congr (mirrors : Mirrors partitions host registry)
    (same : ∀ id h, (id, h) ∈ registry → (host'.partition h).entries = (host.partition h).entries) :
    Mirrors partitions host' registry := by
  refine ⟨mirrors.ids, fun id h hmem => ?_, fun id h hmem => ?_⟩
  · rw [same id h hmem]
    exact mirrors.entries id h hmem
  · rw [same id h hmem]
    exact mirrors.fits id h hmem

/-- Both list the same ids. -/
theorem openIds_eq {e : Engine} (mirrors : Mirrors partitions host e.registry) :
    e.openIds = partitions.keys := by
  refine SortedMap.keys_eq_of_mem_iff (SortedMap.keys_ascending _) partitions.keys_ascending ?_
  intro id
  rw [Engine.mem_openIds_iff, mirrors.ids, SortedMap.mem_keys_iff]

/-- The entries of one partition change. -/
theorem change (mirrors : Mirrors partitions host registry)
    {P : Int32 → Partition → Prop} (registered : Registered P host registry)
    (hmem : (id, h) ∈ registry) {part : Partition} (same : part.entries = entries)
    (fits : ∀ entry ∈ entries.toList, Table.Fits entry) :
    Mirrors (partitions.insert id entries) (host.setPartition h part) registry := by
  -- Handles are not shared, so the partition of `id` changes and no other one.
  have hentries : ∀ i g, (i, g) ∈ registry → ((host.setPartition h part).partition g).entries =
      if i = id then entries else (host.partition g).entries := by
    intro i g hg
    by_cases hid : i = id
    · subst hid
      obtain rfl := registered.handle_unique hmem hg
      rw [if_pos rfl, Host.partition_setPartition_self _ _ (registered.known i g hg), same]
    · rw [if_neg hid, Host.partition_setPartition_of_ne _ _ (registered.handle_ne hmem hg hid)]
  refine ⟨fun i => ?_, fun i g hg => ?_, fun i g hg => ?_⟩
  · by_cases hid : i = id
    · subst hid
      simp only [SortedMap.get?_insert_self, Option.some.injEq, exists_eq', iff_true]
      exact List.mem_map.2 ⟨_, hmem, rfl⟩
    · rw [SortedMap.get?_insert_of_ne _ _ hid]
      exact mirrors.ids i
  · rw [hentries i g hg]
    by_cases hid : i = id
    · rw [if_pos hid, hid, SortedMap.get?_insert_self]
    · rw [if_neg hid, SortedMap.get?_insert_of_ne _ _ hid]
      exact mirrors.entries i g hg
  · rw [hentries i g hg]
    split
    · exact fits
    · exact mirrors.fits i g hg

/-- A partition without entries joins. -/
theorem add (mirrors : Mirrors partitions host registry) {P : Int32 → Partition → Prop}
    (registered : Registered P host registry) {part : Partition}
    (hhost : host'.partitions = host.partitions ++ [part]) (hempty : part.entries = SortedMap.empty)
    (hid : id ∉ registry.map Prod.fst) :
    Mirrors (partitions.insert id SortedMap.empty) host'
      (registry ++ [(id, host.partitions.length)]) := by
  have hpartition (g : Handle) : host'.partition g = (host.add part).partition g := by
    rw [Host.partition, hhost]
    rfl
  -- The new handle is the next free one, so the partitions of before are where they were.
  have hentries : ∀ i g, (i, g) ∈ registry ++ [(id, host.partitions.length)] →
      i = id ∧ (host'.partition g).entries = SortedMap.empty ∨
        i ≠ id ∧ (i, g) ∈ registry ∧ host'.partition g = host.partition g := by
    intro i g hin
    rcases List.mem_append.1 hin with hg | hg
    · refine .inr ⟨?_, hg, ?_⟩
      · rintro rfl
        exact hid (List.mem_map.2 ⟨_, hg, rfl⟩)
      · rw [hpartition, Host.partition_add_of_lt _ _ (registered.known i g hg)]
    · obtain ⟨rfl, rfl⟩ := Prod.mk.inj (List.mem_singleton.1 hg)
      exact .inl ⟨rfl, by rw [hpartition, Host.partition_add_self, hempty]⟩
  refine ⟨fun i => ?_, fun i g hin => ?_, fun i g hin => ?_⟩
  · rw [mem_ids_registered_iff]
    by_cases hi : i = id
    · simp [hi]
    · rw [SortedMap.get?_insert_of_ne _ _ hi, mirrors.ids]
      simp [hi]
  · rcases hentries i g hin with ⟨rfl, hg⟩ | ⟨hi, hold, hg⟩
    · rw [SortedMap.get?_insert_self, hg]
    · rw [SortedMap.get?_insert_of_ne _ _ hi, hg]
      exact mirrors.entries i g hold
  · rcases hentries i g hin with ⟨rfl, hg⟩ | ⟨hi, hold, hg⟩
    · rw [hg]
      simp [SortedMap.empty]
    · rw [hg]
      exact mirrors.fits i g hold

/-- A partition leaves. -/
theorem remove (mirrors : Mirrors partitions host registry) {P : Int32 → Partition → Prop}
    (registered : Registered P host registry) (hmem : (id, h) ∈ registry)
    (same : ∀ g, g ≠ h → host'.partition g = host.partition g) :
    Mirrors (partitions.erase id) host' (registry.filter fun entry => entry.1 != id) := by
  have hsame : ∀ i g, (i, g) ∈ registry.filter (fun entry => entry.1 != id) →
      i ≠ id ∧ (i, g) ∈ registry ∧ host'.partition g = host.partition g := by
    intro i g hin
    obtain ⟨hg, hi⟩ := mem_unregistered_iff.1 hin
    exact ⟨hi, hg, same g (registered.handle_ne hmem hg hi)⟩
  refine ⟨fun i => ?_, fun i g hg => ?_, fun i g hg => ?_⟩
  · rw [mem_ids_unregistered_iff, mirrors.ids]
    by_cases hi : i = id
    · simp [hi]
    · rw [SortedMap.get?_erase_of_ne _ hi]
      simp [hi]
  · obtain ⟨hi, hold, hg⟩ := hsame i g hg
    rw [SortedMap.get?_erase_of_ne _ hi, hg]
    exact mirrors.entries i g hold
  · obtain ⟨-, hold, hg⟩ := hsame i g hg
    rw [hg]
    exact mirrors.fits i g hold

/-- Without registered partitions the machine has none. -/
theorem nil (host : Host) : Mirrors SortedMap.empty host [] :=
  ⟨fun _ => by simp, fun _ _ h => absurd h (by simp), fun _ _ h => absurd h (by simp)⟩

end Mirrors

end PartitionStore
