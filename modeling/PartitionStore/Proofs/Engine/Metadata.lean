import PartitionStore.Proofs.Engine.Upkeep

/-!
# `PartitionStore.Proofs.Engine.Metadata`: the metadata partition and the record

An engine that answers for its store has the metadata partition open, and the record in
its directory. The partition can be removed like any other one, and the record goes with
it. That is the only way to lose either: as long as no request to remove the metadata
partition succeeds the engine keeps both, and the record is what it was
(`metadata_kept_iff`).
-/

set_option autoImplicit false

namespace PartitionStore

open FileTree Naming StoreFolder

variable {d : StoreFolder} {c : EngineSettings} {loc parent : Location} {start : FileTree}
  {ids : List Int32} {host host' : Host} {e : Engine} {r r' final : Running} {id : Int32}
  {request : Request} {requests : List Request} {seen : List Observation}

/-- A partition that was removed is not open, be it that it was not open before. -/
theorem EngineAction.not_mem_openIds_of_removePartition (hphase : r.engine.phase = .opened)
    (hremove : EngineAction.removePartition id r = .ok () r') : id ∉ r'.engine.openIds := by
  rw [Engine.mem_openIds_iff]
  rw [removePartition_eq hphase] at hremove
  cases hlookup : r.engine.handle? id with
  | none =>
      rw [hlookup] at hremove
      cases hremove
      exact Engine.handle?_eq_none_iff.1 hlookup
  | some h =>
      simp only [hlookup] at hremove
      split at hremove
      · cases hremove
        rw [Engine.registry_reported]
        exact fun hmem => (mem_ids_unregistered_iff.1 hmem).1 rfl
      · cases hremove

/-- The requests to remove the metadata partition are refused or fail. -/
def MetadataSpared (requests : List Request) (seen : List Observation) : Prop :=
  ∀ o, (.removePartition metadataId, o) ∈ requests.zip seen → ∃ e, o.answer = .error e

/-- The metadata partition is spared by requests if the first one does not drop it and the others
spare it. -/
theorem metadataSpared_cons_iff {o : Observation} :
    MetadataSpared (request :: requests) (o :: seen) ↔
      (request = .removePartition metadataId → ∃ e, o.answer = .error e) ∧
        MetadataSpared requests seen := by
  simp only [MetadataSpared, List.zip_cons_cons, List.mem_cons, Prod.mk.injEq]
  constructor
  · exact fun h => ⟨fun e => h o (.inl ⟨e.symm, rfl⟩), fun o' ho' => h o' (.inr ho')⟩
  · rintro ⟨hhere, hrest⟩ o' (⟨e, rfl⟩ | ho')
    · exact hhere e.symm
    · exact hrest o' ho'

/-- What an engine keeps up as long as its metadata partition is spared. -/
abbrev Owns (d : StoreFolder) (loc : Location) (start : FileTree) (ids : List Int32)
    (r : Running) : Prop :=
  Live Backend.table d (Upkeep d loc (· ≠ metadataId) start ids) r

/-- An engine that has made the metadata partition its own has it open. -/
theorem Owns.mem_openIds (owns : Owns d loc start ids r) (hids : metadataId ∈ ids) :
    metadataId ∈ r.engine.openIds :=
  Engine.mem_openIds_iff.2 (owns.inv.stays _ hids fun h => h rfl)

/-- One request keeps it, or it removes the metadata partition. -/
theorem Owns.serve (owns : Owns d loc start ids r) (hlast : request.isLast = false) :
    Owns d loc start ids (request.serve r).2 ∧ (request = .removePartition metadataId →
        ∃ e, (request.serve r).1.answer = .error e) ∨
      request = .removePartition metadataId ∧ (∃ reply, (request.serve r).1.answer = .ok reply) ∧
        metadataId ∉ (request.serve r).1.ids := by
  by_cases hremove : ∃ r', request = .removePartition metadataId ∧
      EngineAction.removePartition metadataId r = .ok () r'
  · obtain ⟨r', rfl, hok⟩ := hremove
    rw [Request.serve_of_ok (Action.bind_of_ok hok)]
    exact .inr ⟨rfl, ⟨_, rfl⟩,
      EngineAction.not_mem_openIds_of_removePartition owns.phase hok⟩
  · refine .inl ⟨(Upkeep.keeps d loc _ start ids).serve owns hlast ?_, ?_⟩
    · rintro id r' rfl hok rfl
      exact hremove ⟨r', rfl, hok⟩
    · rintro rfl
      cases hrun : EngineAction.removePartition metadataId r with
      | ok _ r' => exact absurd ⟨r', rfl, hrun⟩ hremove
      | error e r' =>
          rw [Request.serve_of_error (Action.bind_of_error hrun)]
          exact ⟨e, rfl⟩

/-- The metadata partition is seen open all the time exactly if it is spared, and then it is kept
to the end. -/
theorem Served.owns (run : Served r requests seen final) (owns : Owns d loc start ids r)
    (hids : metadataId ∈ ids) (hlast : ∀ request ∈ requests, request.isLast = false) :
    ((∀ o ∈ seen, metadataId ∈ o.ids) ↔ MetadataSpared requests seen) ∧
      (MetadataSpared requests seen → Owns d loc start ids final) := by
  induction run with
  | done r => exact ⟨by simp [MetadataSpared], fun _ => owns⟩
  | request perm rest ih =>
      have reordered := (Upkeep.keeps d loc _ start ids).reorder owns perm
      rw [metadataSpared_cons_iff, List.forall_mem_cons]
      rcases Owns.serve reordered (hlast _ (List.mem_cons_self ..)) with
        ⟨kept, hanswer⟩ | ⟨hremove, ⟨reply, hreply⟩, hgone⟩
      · obtain ⟨hiff, hkept⟩ := ih kept fun next hnext => hlast next (List.mem_cons_of_mem _ hnext)
        have hhere := kept.mem_openIds hids
        rw [← Request.serve_ids] at hhere
        exact ⟨(and_iff_right hhere).trans (hiff.trans (and_iff_right hanswer).symm),
          fun spared => hkept spared.2⟩
      · -- The partition is gone, and the answer says that it was removed.
        refine ⟨iff_of_false (fun h => hgone h.1) fun h => ?_, fun h => ?_⟩ <;>
          · obtain ⟨e, he⟩ := h.1 hremove
            cases hreply.symm.trans he

/-- An engine that answers for its store keeps the metadata partition and the record exactly as
long as no request to remove that partition is answered with success. The store's folder is where
its path points to, and has no symbolic links. -/
theorem metadata_kept_iff (hkind : c.backend = .table) (hmetadata : c.withMetadata = true)
    (points : host.tree.PointsTo c.root parent) (free : host.tree.LinkFree (c.store :: parent))
    (hopen : Engine.open c host = .ok e host') (run : Served ⟨e, host'⟩ requests seen r)
    (hlast : ∀ request ∈ requests, request.isLast = false) :
    metadataId ∈ e.openIds ∧ (∃ place node, host'.tree.PointsTo e.folder.recordPath place ∧
        host'.tree.node? place = some node ∧
        (MetadataSpared requests seen → r.engine.phase = .opened ∧ metadataId ∈ r.engine.openIds ∧
          r.host.tree.PointsTo e.folder.recordPath place ∧
          r.host.tree.node? place = some node)) ∧
      ((∀ o ∈ seen, metadataId ∈ o.ids) ↔ MetadataSpared requests seen) := by
  obtain ⟨owns, hstart⟩ := upkeep_of_open hkind points free hopen (· ≠ metadataId)
  obtain ⟨hids, node, hnode⟩ := hstart hmetadata
  obtain ⟨hiff, hkept⟩ := run.owns owns hids hlast
  refine ⟨hids, ⟨_, node, owns.inv.sited.record, hnode, fun spared => ?_⟩, hiff⟩
  have owns' := hkept spared
  exact ⟨owns'.phase, owns'.mem_openIds hids, owns'.inv.sited.record,
    owns'.inv.changes.eq_of_some (not_touched_recordPlace fun h => h rfl) hnode⟩

set_option maxRecDepth 10000 in
/-- Partitions come and go and the record stays, until the metadata partition is removed: then it is
not open any more, and the record is gone. -/
theorem metadata_kept_and_lost : ∃ e host seen seen' r r' place,
    Engine.open (settingsUnder ⟨"."⟩) (Host.ofTree FileTree.empty) = .ok e host ∧
      Served ⟨e, host⟩ [.addPartition 5, .removePartition 5] seen r ∧
      (∀ o ∈ seen, metadataId ∈ o.ids) ∧
      host.tree.PointsTo e.folder.recordPath place ∧
      r.host.tree.node? place = host.tree.node? place ∧
      Served ⟨e, host⟩ [.removePartition (-1)] seen' r' ∧
      (¬∀ o ∈ seen', metadataId ∈ o.ids) ∧ r'.engine.phase = .opened ∧
      host.tree.exists e.folder.recordPath = true ∧
      r'.host.tree.exists e.folder.recordPath = false := by
  -- Both runs are evaluated at once, and their results are read off below.
  have key : Action.succeedsWith (Engine.open (settingsUnder ⟨"."⟩)) (Host.ofTree FileTree.empty)
      (fun e host =>
        let added := Request.serve (.addPartition 5) ⟨e, host⟩
        let removed := Request.serve (.removePartition 5) added.2
        let lost := Request.serve (.removePartition (-1)) ⟨e, host⟩
        added.1.ids.contains (-1) && removed.1.ids.contains (-1) && !lost.1.ids.contains (-1) &&
          decide (lost.2.engine.phase = .opened) && host.tree.exists e.folder.recordPath &&
          !lost.2.host.tree.exists e.folder.recordPath) = true := by decide +kernel
  obtain ⟨e, host, hopen, key⟩ := Action.exists_of_succeedsWith key
  simp only [Bool.and_eq_true, decide_eq_true_eq, Bool.not_eq_true', List.contains_iff_mem,
    ← Bool.not_eq_true] at key
  obtain ⟨⟨⟨⟨⟨hadded, hremoved⟩, hlost⟩, hphase⟩, hthere⟩, hgone⟩ := key
  have points : (Host.ofTree FileTree.empty).tree.PointsTo (settingsUnder ⟨"."⟩).root [] := by
    rfl
  have run := (Served.done (Request.serve (.removePartition 5)
    (Request.serve (.addPartition 5) ⟨e, host⟩).2).2).cons.cons
  have run' := (Served.done (Request.serve (.removePartition (-1)) ⟨e, host⟩).2).cons
  obtain ⟨-, ⟨place, node, hplace, hnode, hkept⟩, hiff⟩ :=
    metadata_kept_iff rfl rfl points (linkFree_empty _) hopen run (by simp [Request.isLast])
  have hall : ∀ o ∈ [(Request.serve (.addPartition 5) ⟨e, host⟩).1,
      (Request.serve (.removePartition 5) (Request.serve (.addPartition 5) ⟨e, host⟩).2).1],
      metadataId ∈ o.ids := by
    simpa using ⟨hadded, hremoved⟩
  refine ⟨e, host, _, _, _, _, place, hopen, run, hall, hplace, ?_, run', ?_, hphase, hthere,
    Bool.not_eq_true _ ▸ hgone⟩
  · exact (hkept (hiff.1 hall)).2.2.2.trans hnode.symm
  · exact fun h => hlost (h _ (List.mem_singleton.2 rfl))

end PartitionStore
