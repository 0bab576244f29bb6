import Mathlib.Data.List.Nodup
import PartitionStore.Proofs.Host
import PartitionStore.Proofs.SortedMap

/-!
# `PartitionStore.Proofs.Registered`: registries and the partitions in them

A registry gives each id a handle. `Registered P host registry` says that no id
and no handle is in it twice, and that `P` is true of each id and the partition
behind its handle. So a change of one partition is of no consequence to others.

* `Registered.lookup_iff`: ids are looked up under their handles.
* `Registered.setPartition`, `Registered.add`, `Registered.release`: what becomes
  of a registry when a partition changes, joins it or leaves it.
-/

set_option autoImplicit false

namespace PartitionStore

/-- Each id of the registry has a handle of its own, and `P` is true of the partition behind it. -/
structure Registered (P : Int32 → Partition → Prop) (host : Host)
    (registry : List (Int32 × Handle)) : Prop where
  ids : (registry.map Prod.fst).Nodup
  handles : (registry.map Prod.snd).Nodup
  known : ∀ id h, (id, h) ∈ registry → h < host.partitions.length
  each : ∀ id h, (id, h) ∈ registry → P id (host.partition h)

variable {P Q : Int32 → Partition → Prop} {host : Host} {registry registry' : List (Int32 × Handle)}
  {id : Int32} {h : Handle} {part : Partition}

/-! ### Registries -/

/-- Once an id was taken out, the others are left. -/
theorem mem_unregistered_iff {id' : Int32} {h' : Handle} :
    (id', h') ∈ registry.filter (fun entry => entry.1 != id) ↔ (id', h') ∈ registry ∧ id' ≠ id := by
  rw [List.mem_filter, bne_iff_ne]

/-- So are their ids. -/
theorem mem_ids_unregistered_iff {i : Int32} :
    i ∈ (registry.filter fun entry => entry.1 != id).map Prod.fst ↔
      i ≠ id ∧ i ∈ registry.map Prod.fst := by
  simp only [List.mem_map, Prod.exists, exists_eq_right, mem_unregistered_iff, exists_and_right]
  exact and_comm

/-- Once an id was put in, it is there beside the others. -/
theorem mem_ids_registered_iff {i : Int32} :
    i ∈ (registry ++ [(id, h)]).map Prod.fst ↔ i = id ∨ i ∈ registry.map Prod.fst := by
  rw [List.map_append, List.mem_append, List.map_singleton, List.mem_singleton, or_comm]

/-- Where ids are registered once, the first entry goes with its id. -/
theorem unregister_head (hids : (((id, h) :: registry).map Prod.fst).Nodup) :
    ((id, h) :: registry).filter (fun entry => entry.1 != id) = registry := by
  have hnot := (List.nodup_cons.1 hids).1
  rw [List.filter_cons_of_neg (by simp), List.filter_eq_self]
  intro entry he
  refine bne_iff_ne.2 fun e => hnot ?_
  exact List.mem_map.2 ⟨entry, he, e⟩

namespace Registered

/-- An id is looked up under its handle. -/
theorem lookup_iff (registered : Registered P host registry) :
    registry.lookup id = some h ↔ (id, h) ∈ registry :=
  SortedMap.lookup_eq_some_iff (List.pairwise_map.1 registered.ids)

/-- There is one handle for an id. -/
theorem handle_unique (registered : Registered P host registry) {h' : Handle}
    (hmem : (id, h) ∈ registry) (hmem' : (id, h') ∈ registry) : h' = h :=
  Option.some.inj ((registered.lookup_iff.2 hmem').symm.trans (registered.lookup_iff.2 hmem))

/-- Different ids have different handles. -/
theorem handle_ne (registered : Registered P host registry) {id' : Int32} {h' : Handle}
    (hmem : (id, h) ∈ registry) (hmem' : (id', h') ∈ registry) (hne : id' ≠ id) : h' ≠ h := by
  rintro rfl
  exact hne (Prod.mk.inj (List.inj_on_of_nodup_map registered.handles hmem' hmem rfl)).1

/-- The handle that is given out next is none of those that are registered. -/
theorem not_mem_handles (registered : Registered P host registry) :
    host.partitions.length ∉ registry.map Prod.snd := by
  intro hin
  obtain ⟨⟨i, h⟩, hmem, rfl⟩ := List.mem_map.1 hin
  exact Nat.lt_irrefl _ (registered.known i _ hmem)

/-- The order of the registry makes no difference. -/
theorem perm (registered : Registered P host registry) (hperm : registry'.Perm registry) :
    Registered P host registry' :=
  ⟨(hperm.map Prod.fst).nodup_iff.2 registered.ids,
    (hperm.map Prod.snd).nodup_iff.2 registered.handles,
    fun id h hmem => registered.known id h (hperm.mem_iff.1 hmem),
    fun id h hmem => registered.each id h (hperm.mem_iff.1 hmem)⟩

/-- The file tree has nothing to do with it. -/
theorem setTree (registered : Registered P host registry) (t : FileTree) :
    Registered P { host with tree := t } registry :=
  ⟨registered.ids, registered.handles, registered.known, registered.each⟩

/-- One partition changes, and all others are what they were. -/
theorem setPartition (registered : Registered P host registry) (hmem : (id, h) ∈ registry)
    (new : Q id part) (others : ∀ i, i ≠ id → ∀ p, P i p → Q i p) :
    Registered Q (host.setPartition h part) registry := by
  refine ⟨registered.ids, registered.handles, ?_, ?_⟩
  · intro i g hg
    simpa [Host.setPartition] using registered.known i g hg
  · intro i g hg
    by_cases hid : i = id
    · -- Ids are registered once, so this is the handle whose partition changed.
      subst hid
      obtain rfl := registered.handle_unique hmem hg
      rw [Host.partition_setPartition_self _ _ (registered.known i g hg)]
      exact new
    · rw [Host.partition_setPartition_of_ne _ _ (registered.handle_ne hmem hg hid)]
      exact others i hid _ (registered.each i g hg)

/-- One partition leaves the registry, whatever becomes of it. -/
theorem release (registered : Registered P host registry) (hmem : (id, h) ∈ registry)
    (part : Partition) (others : ∀ i, i ≠ id → ∀ p, P i p → Q i p) :
    Registered Q (host.setPartition h part) (registry.filter fun entry => entry.1 != id) := by
  have hsublist := List.filter_sublist (l := registry) (p := fun entry => entry.1 != id)
  refine ⟨registered.ids.sublist (hsublist.map _), registered.handles.sublist (hsublist.map _),
    ?_, ?_⟩
  · intro i g hin
    simpa [Host.setPartition] using registered.known i g (mem_unregistered_iff.1 hin).1
  · intro i g hin
    obtain ⟨hg, hne⟩ := mem_unregistered_iff.1 hin
    rw [Host.partition_setPartition_of_ne _ _ (registered.handle_ne hmem hg hne)]
    exact others i hne _ (registered.each i g hg)

/-- A partition of a new id joins the registry. -/
theorem add (registered : Registered P host registry) (hid : id ∉ registry.map Prod.fst)
    (new : Q id part) (others : ∀ i, i ≠ id → ∀ p, P i p → Q i p) :
    Registered Q (host.add part) (registry ++ [(id, host.partitions.length)]) := by
  have hold : ∀ i g, (i, g) ∈ registry ++ [(id, host.partitions.length)] →
      (i, g) ∈ registry ∧ i ≠ id ∨ i = id ∧ g = host.partitions.length := by
    intro i g hin
    rcases List.mem_append.1 hin with hmem | hmem
    · refine .inl ⟨hmem, ?_⟩
      rintro rfl
      exact hid (List.mem_map.2 ⟨_, hmem, rfl⟩)
    · exact .inr (Prod.mk.inj (List.mem_singleton.1 hmem))
  refine ⟨?_, ?_, ?_, ?_⟩
  · rw [List.map_append]
    exact registered.ids.append (List.nodup_singleton _) (List.disjoint_singleton.2 hid)
  · rw [List.map_append]
    exact registered.handles.append (List.nodup_singleton _)
      (List.disjoint_singleton.2 registered.not_mem_handles)
  · intro i g hin
    rw [Host.add, List.length_append, List.length_singleton]
    rcases hold i g hin with ⟨hmem, -⟩ | ⟨-, rfl⟩
    · exact Nat.lt_succ_of_lt (registered.known i g hmem)
    · exact Nat.lt_succ_self _
  · intro i g hin
    rcases hold i g hin with ⟨hmem, hne⟩ | ⟨rfl, rfl⟩
    · -- The partitions that were there before are where they were.
      rw [Host.partition_add_of_lt _ _ (registered.known i g hmem)]
      exact others i hne _ (registered.each i g hmem)
    · rw [Host.partition_add_self]
      exact new

end Registered

end PartitionStore
