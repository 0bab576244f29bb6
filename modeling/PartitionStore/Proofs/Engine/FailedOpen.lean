import PartitionStore.Proofs.Engine.Slots

/-!
# `PartitionStore.Proofs.Engine.FailedOpen`: opening a store after an opening that failed

An opening that fails over a table does not undo what it did. What it leaves are slots that
were opened: directories and empty tables of the format that it asked for. To open them again
comes to the same (`Slot.openIn_openIn`), but for one thing: a table that was made for the
first opening is refused by a second one of another format.

* `Twins.openAnswer_eq`: two trees that differ in nothing that an opening asks for.
* `exists_settled_of_open_error`: what an opening that failed has done.
* `answer_after_failed_open`: what an opening answers on what a failed one left.
-/

set_option autoImplicit false

namespace PartitionStore

open FileTree Naming PartitionStore.Partition StoreFolder

/-- What an opening comes to: the partitions that are open then, with their ids, or the error. -/
def Engine.openAnswer (c : EngineSettings) (host : Host) :
    Except StoreError (List (Int32 × Partition)) :=
  match Engine.open c host with
  | .ok e host' => .ok (e.registry.map fun entry => (entry.1, host'.partition entry.2))
  | .error e _ => .error e

/-- A table was found that cannot be opened. -/
def StoreError.RefusesTable : StoreError → Prop
  | .formatMismatch _ _ _ => True
  | .corruption _ _ => True
  | _ => False

/-- Partitions of this id are opened if they are on disk, or even if not. -/
def EngineSettings.Restores (c : EngineSettings) (id : Int32) : Prop :=
  if id = metadataId then c.withMetadata = true else c.withData = true

/-- Between `t` and `u` a table was made for the partition. -/
def TableMade (d : StoreFolder) (loc : Location) (t u : FileTree) (id : Int32) : Prop :=
  (d.slot loc u id).table ≠ (d.slot loc t id).table

/-- Nothing that an opening with the settings `c₁` made between `t` and `u` stands in the way of
one with the settings `c₂`: the formats are the same, or the folder is emptied first, or no table
was made that is opened now. -/
def Unhindered (d : StoreFolder) (c₁ c₂ : EngineSettings) (loc : Location) (t u : FileTree) :
    Prop :=
  c₂.format = c₁.format ∨ Engine.Wipes d c₂ t ∨ ∀ id, c₂.Restores id → ¬TableMade d loc t u id

/-- Two trees that differ in nothing that an opening with the settings asks for. `found` are the
partitions on disk in the first one. -/
structure Twins (d : StoreFolder) (c : EngineSettings) (loc : Location) (found : List Int32)
    (t u : FileTree) : Prop where
  standing : Standing d loc t
  standing' : Standing d loc u
  record : SameRecord d loc t u
  onDisk : d.idsOnDisk t = .ok found t
  onDisk' : ∃ found', d.idsOnDisk u = .ok found' u ∧ c.restored found' = c.restored found
  openings : ∀ id ∈ c.restored found, d.opening c loc u id = d.opening c loc t id

variable {d : StoreFolder} {c c₁ c₂ : EngineSettings} {loc parent : Location} {t u v : FileTree}
  {host host' host₁ : Host} {ids found : List Int32} {id : Int32} {e : StoreError}

/-! ### The answer -/

/-- Once the folder was made ready, each partition answers for itself, and then the record is
kept. -/
theorem openAnswer_eq (hkind : c.backend = .table) (hnamed : StoreFolder.named c.root c.store = .ok d)
    (hprepare : Engine.prepare d c host.tree = .ok () t) (standing : Standing d loc t)
    (hfound : d.idsOnDisk t = .ok found t) :
    ∃ v, Settled d c loc (c.restored found) t v ∧
      (∀ parts, (c.restored found).mapM (d.opened c loc t) = .ok parts →
        ∀ id ∈ c.restored found, d.slot loc v id = (d.opening c loc t id).2) ∧
      Engine.openAnswer c host = (do
        let parts ← (c.restored found).mapM (d.opened c loc t)
        Action.answer (Engine.keepRecord d c v)
        pure parts) := by
  have hopened : HostAction.onTree (Engine.prepare d c) host = .ok () { host with tree := t } :=
    HostAction.onTree_of_ok hprepare
  have hopen : Engine.open c host = (do
      let registry ← Restore.openAll Backend.table d c
      HostAction.onTree (Engine.keepRecord d c)
      let host ← get
      let engine : Engine :=
        { settings := c, folder := d, backend := Backend.table, registry, phase := .opened,
          listener := none, reports := [] }
      pure (engine.reported host.tree) : HostAction Engine) { host with tree := t } := by
    rw [Engine.open, Engine.openWith, hnamed, hkind]
    exact Action.bind_of_ok hopened
  have restored := @Standing.restored_openAll _ c _ { host with tree := t } standing
    (store_of_named hnamed).2 _ hfound
  -- The answer is read off the slots as they are before any partition is opened.
  rw [Engine.openAnswer, hopen]
  cases hall : Restore.openAll Backend.table d c { host with tree := t } with
  | error e host' =>
      rw [hall] at restored
      obtain ⟨settled, -, herror⟩ := restored
      refine ⟨host'.tree, settled, fun parts hparts => ?_, ?_⟩
      · cases herror.symm.trans hparts
      · rw [Action.bind_of_error hall, herror]
        rfl
  | ok registry host' =>
      rw [hall] at restored
      obtain ⟨settled, -, hslots, parts, hparts, holds⟩ := restored
      refine ⟨host'.tree, settled, fun _ _ => hslots, ?_⟩
      rw [Action.bind_of_ok hall, hparts]
      cases hkeep : Engine.keepRecord d c host'.tree with
      | error e w =>
          rw [Action.bind_of_error (HostAction.onTree_of_error hkeep)]
          rfl
      | ok _ w =>
          rw [Action.bind_of_ok (HostAction.onTree_of_ok hkeep)]
          -- Keeping the record leaves the partitions as they are.
          have holds' : (⟨w, host'.partitions⟩ : Host).Holds registry parts := holds
          exact congrArg Except.ok holds'.map_partition

namespace Twins

/-- Before anything was opened the two trees are the same. -/
theorem refl (standing : Standing d loc t) (hfound : d.idsOnDisk t = .ok found t) :
    Twins d c loc found t t :=
  ⟨standing, standing, ⟨.inl rfl, rfl, rfl⟩, hfound, ⟨found, hfound, rfl⟩, fun _ _ => rfl⟩

/-- If all partitions came to the same the record is the same as well. -/
theorem sameRecord (twins : Twins d c loc found t u) {v' : FileTree}
    (settled : Settled d c loc (c.restored found) t v)
    (settled' : Settled d c loc (c.restored found) u v')
    (hsame : ∀ id ∈ c.restored found, d.slot loc v' id = d.slot loc v id) :
    SameRecord d loc v v' := by
  refine ⟨?_, ?_, ?_⟩
  · by_cases hid : metadataId ∈ c.restored found
    · exact .inl (congrArg Slot.dir (hsame metadataId hid))
    · have hv : v.node? (dirName d.store metadataId :: loc) =
          t.node? (dirName d.store metadataId :: loc) :=
        congrArg Slot.dir (settled.others metadataId hid)
      have hv' : v'.node? (dirName d.store metadataId :: loc) =
          u.node? (dirName d.store metadataId :: loc) :=
        congrArg Slot.dir (settled'.others metadataId hid)
      rw [hv, hv']
      exact twins.record.dir
  · rw [settled'.node?_record (.inl rfl), settled.node?_record (.inl rfl), twins.record.record]
  · rw [settled'.node?_record (.inr rfl), settled.node?_record (.inr rfl), twins.record.scratch]

/-- Two trees that differ in nothing that an opening asks for answer it the same. -/
theorem openAnswer_eq (twins : Twins d c loc found t u) (hkind : c.backend = .table)
    (hnamed : StoreFolder.named c.root c.store = .ok d)
    (hprepare : Engine.prepare d c host.tree = .ok () t)
    (hprepare' : Engine.prepare d c host'.tree = .ok () u) :
    Engine.openAnswer c host' = Engine.openAnswer c host := by
  obtain ⟨found', hfound', hids⟩ := twins.onDisk'
  obtain ⟨v, settled, hslots, hanswer⟩ :=
    PartitionStore.openAnswer_eq hkind hnamed hprepare twins.standing twins.onDisk
  obtain ⟨v', settled', hslots', hanswer'⟩ :=
    PartitionStore.openAnswer_eq hkind hnamed hprepare' twins.standing' hfound'
  rw [hids] at settled' hslots' hanswer'
  rw [mapM_opened_congr twins.openings] at hslots' hanswer'
  rw [hanswer, hanswer']
  cases hparts : (c.restored found).mapM (d.opened c loc t) with
  | error e => rfl
  | ok parts =>
      -- All partitions were opened, in both trees, and their slots came to the same.
      have hsame : ∀ id ∈ c.restored found, d.slot loc v' id = d.slot loc v id := fun id hid => by
        rw [hslots' parts hparts id hid, hslots parts hparts id hid, twins.openings id hid]
      have hdir (h : c.withMetadata = true) :
          v.node? (dirName d.store metadataId :: loc) = some .dir := by
        have hid : metadataId ∈ c.restored found := by simp [EngineSettings.restored, h]
        obtain ⟨part, hpart⟩ := forall_of_mapM_eq_ok hparts metadataId hid
        have hslot : (d.slot loc v metadataId).dir = some .dir := by
          rw [hslots parts hparts metadataId hid, dir_of_opened hpart]
        exact hslot
      have hkeep := settled.standing.answer_keepRecord settled'.standing
        (twins.sameRecord settled settled' hsame) hdir
      show (do Action.answer (Engine.keepRecord d c v'); pure parts : Except StoreError _) =
        (do Action.answer (Engine.keepRecord d c v); pure parts)
      rw [hkeep]

end Twins

/-! ### After an opening that failed -/

/-- The ids that are opened are those that the settings ask for and that are found, and the metadata
partition also where it is not found. -/
theorem EngineSettings.mem_restored_iff : id ∈ c.restored found ↔
    c.Restores id ∧ (id = metadataId ∨ id ∈ found) := by
  rw [restored, Restores, List.mem_append]
  by_cases hid : id = metadataId
  · cases c.withMetadata <;> cases c.withData <;> simp [hid]
  · cases c.withMetadata <;> cases c.withData <;> simp [hid]

/-- An opening that cannot make its folder ready fails for that. -/
theorem openAnswer_of_prepare_error (hnamed : StoreFolder.named c.root c.store = .ok d)
    (hprepare : Engine.prepare d c host.tree = .error e t) :
    Engine.openAnswer c host = .error e := by
  have hopen : Engine.open c host = .error e { host with tree := t } := by
    have hfolder : (HostAction.ofExcept (.ok d) : HostAction StoreFolder) host = .ok d host := rfl
    rw [Engine.open, Engine.openWith, hnamed, Action.bind_of_ok hfolder]
    exact Action.bind_of_error (HostAction.onTree_of_error hprepare)
  rw [Engine.openAnswer, hopen]

/-- To make the folder refuses no table. -/
theorem not_refusesTable_of_ensure (h : d.ensure t = .error e u) : ¬e.RefusesTable := by
  rw [ensure, Action.bind_of_ok (Action.get_apply t)] at h
  split at h
  · split at h
    · cases h
    · cases h
      exact id
  · rcases Action.bind_eq_error_iff.1 h with hmake | ⟨_, v, -, hpure⟩
    · obtain ⟨cause, -, rfl⟩ := StoreAction.exists_of_ofFiles_error hmake
      exact id
    · cases hpure

/-- To guard it refuses none either. -/
theorem not_refusesTable_of_guard {format : TableFormat} (h : d.guard format t = .error e u) :
    ¬e.RefusesTable := by
  cases hread : EngineRecord.readFrom t d.recordPath with
  | error cause =>
      cases (guard_of_readFrom_error hread format).symm.trans h
      exact id
  | ok record? =>
      rcases d.guard_cases record? format with ⟨verdict, -, hkept⟩ | ⟨recorded, hempties⟩
      · cases (hkept t hread).symm.trans h
      · rw [hempties t hread] at h
        rcases Action.bind_eq_error_iff.1 h with hempty | ⟨_, v, -, hpure⟩
        · obtain ⟨step, cause, rfl⟩ := exists_of_empty_error hempty
          exact id
        · cases hpure

/-- Making the folder ready does not look at tables. -/
theorem not_refusesTable_of_prepare (h : Engine.prepare d c t = .error e u) : ¬e.RefusesTable := by
  rcases Action.bind_eq_error_iff.1 h with hensure | ⟨made, v, -, hrest⟩
  · exact not_refusesTable_of_ensure hensure
  · split at hrest
    · rcases Action.bind_eq_error_iff.1 hrest with hguard | ⟨_, w, -, hpure⟩
      · exact not_refusesTable_of_guard hguard
      · cases hpure
    · cases hrest

/-- In a folder where no table file is, none is refused. -/
theorem not_refusesTable_of_mapM (hfile : ∀ id data, (d.slot loc t id).table ≠ some (.file data))
    (h : ids.mapM (d.opened c loc t) = .error e) : ¬e.RefusesTable := by
  obtain ⟨id, -, hopened⟩ := exists_of_mapM_eq_error h
  obtain ⟨cause, rfl⟩ := io_of_opened hopened (hfile id)
  exact fun hrefused => hrefused

/-- Where a table is refused the folder was made ready, and it is a partition that failed. -/
theorem exists_failed_of_open_error (hkind : c.backend = .table)
    (hnamed : StoreFolder.named c.root c.store = .ok d)
    (hopen : Engine.open c host = .error e host₁) (hrefused : e.RefusesTable) :
    ∃ t, Engine.prepare d c host.tree = .ok () t ∧ (Standing d loc t →
      ∃ found, d.idsOnDisk t = .ok found t ∧
        Settled d c loc (c.restored found) t host₁.tree ∧
        (c.restored found).mapM (d.opened c loc t) = .error e) := by
  obtain ⟨d', hnamed', hcases⟩ := (exists_of_open_error hopen).resolve_left (by simp [hnamed])
  obtain rfl : d' = d := Except.ok.inj (hnamed'.symm.trans hnamed)
  rw [hkind] at hcases
  obtain ⟨t, hprepare, hlater⟩ := hcases.resolve_left fun ⟨t, hprepare, _⟩ =>
    not_refusesTable_of_prepare hprepare hrefused
  refine ⟨t, hprepare, fun standing => ?_⟩
  obtain ⟨found, hfound, -, -⟩ := idsOnDisk_of_find (standing.find .followed) standing.isDir
  have restored := @Standing.restored_openAll _ c _ { host with tree := t } standing
    (store_of_named hnamed).2 _ hfound
  rcases hlater with hall | ⟨registry, host₂, t₁, hall, hkeep, -⟩
  · rw [show Restore.openAll Backend.table d' c { host with tree := t } = .error e host₁
      from hall] at restored
    exact ⟨found, hfound, restored.1, restored.2.2⟩
  · -- Keeping the record fails for other reasons.
    rw [show Restore.openAll Backend.table d' c { host with tree := t } = .ok registry host₂
      from hall] at restored
    rcases restored.1.standing.sited.keepRecord_cases c with ⟨v, hok, -⟩ | ⟨cause, v, hfail, -⟩
    · cases hkeep.symm.trans hok
    · cases hkeep.symm.trans hfail
      exact absurd hrefused id

/-- A folder that was there, and is not emptied, is made ready by leaving it as it is. -/
theorem standing_of_prepare (sited : Sited d loc t) (hpresent : d.isThere t = true)
    (hprepare : Engine.prepare d c t = .ok () u) (hspared : ¬Engine.Wipes d c t) :
    Standing d loc t ∧ u = t := by
  have standing := sited.standing_of_isDir (isDir_of_prepare hpresent hprepare)
  refine ⟨standing, ?_⟩
  rcases standing.prepare_cases standing ⟨.inl rfl, rfl, rfl⟩ (fun _ _ => rfl) c with
    ⟨step, cause, hfailing, -⟩ | ⟨hkept, -, -⟩ | ⟨hempty, -, hwiped⟩
  · cases hprepare.symm.trans hfailing
  · cases hprepare.symm.trans hkept
    rfl
  · exact absurd (hwiped u (hempty.symm.trans hprepare)) hspared

/-- A folder that is made where nothing was has no tables: all that may be in it are directories on
the way to it. -/
theorem no_tables_of_prepare (sited : Sited d loc t) (hmissing : ¬d.isThere t = true)
    (hnone : t.node? loc = none) (hprepare : Engine.prepare d c t = .ok () u) :
    Standing d loc u ∧ ∀ id data, (d.slot loc u id).table ≠ some (.file data) := by
  have hcreate := createDirAll_of_prepare hmissing hprepare
  have hgrown := grown_createDirAll d.path t
  rw [hcreate] at hgrown
  replace hgrown : Grown t u := hgrown
  obtain ⟨htext, place, hway⟩ :=
    resolveSteps_of_createDirAll (isPlainName_of_isStoreName d.isStoreName) hcreate
  refine ⟨(sited.congr hgrown.sameLinks).standing htext hway, fun id data hfile => ?_⟩
  have hbelow : t.node? ([tableFileName, dirName d.store id] ++ loc) = none :=
    node?_below (by simp [hnone]) (List.cons_ne_nil _ _)
  replace hfile : u.node? ([tableFileName, dirName d.store id] ++ loc) = some (.file data) := hfile
  rcases hgrown ([tableFileName, dirName d.store id] ++ loc) with hsame | ⟨-, hdir⟩
  · cases (hfile.symm.trans hsame).trans hbelow
  · cases hfile.symm.trans hdir

/-- An opening that failed over a table has opened some slots, and done nothing else. The folder
was there, for in one that is made no table is found. -/
theorem exists_settled_of_open_error (hkind : c.backend = .table)
    (hnamed : StoreFolder.named c.root c.store = .ok d) (sited : Sited d loc host.tree)
    (hthere : d.isThere host.tree = true ∨ host.tree.node? loc = none)
    (hopen : Engine.open c host = .error e host₁) (hrefused : e.RefusesTable)
    (hspared : ¬Engine.Wipes d c host.tree) :
    ∃ found, Standing d loc host.tree ∧ d.idsOnDisk host.tree = .ok found host.tree ∧
      Settled d c loc (c.restored found) host.tree host₁.tree := by
  obtain ⟨t, hprepare, hfailed⟩ :=
    @exists_failed_of_open_error _ _ loc _ _ _ hkind hnamed hopen hrefused
  by_cases hpresent : d.isThere host.tree = true
  · obtain ⟨standing, rfl⟩ := standing_of_prepare sited hpresent hprepare hspared
    obtain ⟨found, hfound, settled, -⟩ := hfailed standing
    exact ⟨found, standing, hfound, settled⟩
  · obtain ⟨standing, hfile⟩ :=
      no_tables_of_prepare sited hpresent (hthere.resolve_left hpresent) hprepare
    obtain ⟨found, -, -, herror⟩ := hfailed standing
    exact absurd hrefused (not_refusesTable_of_mapM hfile herror)

namespace Settled

variable (settled : Settled d c₁ loc (c₁.restored found) t u)
include settled

/-- The partitions that are found afterwards are those that were found before, but for the
metadata partition. -/
theorem exists_restored_eq (hfound : d.idsOnDisk t = .ok found t) (standing : Standing d loc t) :
    ∃ found', d.idsOnDisk u = .ok found' u ∧ ∀ c : EngineSettings,
      c.restored found' = c.restored found := by
  obtain ⟨found₀, hfound₀, hascending, hmem⟩ :=
    idsOnDisk_of_find (standing.find .followed) standing.isDir
  cases hfound₀.symm.trans hfound
  obtain ⟨found', hfound', hascending', hmem'⟩ :=
    idsOnDisk_of_find (settled.standing.find .followed) settled.standing.isDir
  have hfilter : found'.filter (· != metadataId) = found.filter (· != metadataId) := by
    refine SortedMap.keys_eq_of_mem_iff (hascending'.filter _) (hascending.filter _) fun id => ?_
    rw [List.mem_filter, List.mem_filter]
    refine and_congr_left fun hid => ?_
    -- Only the metadata partition is opened where it was not found.
    rw [hmem', hmem, settled.lists_iff]
    refine or_iff_left_of_imp fun ⟨hrestored, _, _⟩ => (hmem id).1 ?_
    exact (EngineSettings.mem_restored_iff.1 hrestored).2.resolve_left (by simpa using hid)
  refine ⟨found', hfound', fun c => ?_⟩
  rw [EngineSettings.restored, EngineSettings.restored, hfilter]

/-- Where nothing stands in the way the two trees are twins for the next opening. -/
theorem twins (hfound : d.idsOnDisk t = .ok found t) (standing : Standing d loc t)
    (h : c₂.format = c₁.format ∨ ∀ id ∈ c₂.restored found, ¬TableMade d loc t u id) :
    Twins d c₂ loc found t u := by
  obtain ⟨found', hfound', hids⟩ := settled.exists_restored_eq hfound standing
  refine ⟨standing, settled.standing, settled.sameRecord, hfound, ⟨found', hfound', hids c₂⟩,
    fun id hid => ?_⟩
  exact settled.opening_of_kept (h.imp_right fun htables => not_not.1 (htables id hid))

/-- Where a table of another format was made, an opening that would have succeeded is refused over
such a table. -/
theorem exists_refused (hfound : d.idsOnDisk t = .ok found t) (standing : Standing d loc t)
    (hkind : c₂.backend = .table) (hnamed : StoreFolder.named c₂.root c₂.store = .ok d)
    (hprepare : Engine.prepare d c₂ host.tree = .ok () t)
    (hprepare' : Engine.prepare d c₂ host'.tree = .ok () u) (hformat : c₂.format ≠ c₁.format)
    {i : Int32} (hrestores : c₂.Restores i) (hmade : TableMade d loc t u i)
    {parts : List (Int32 × Partition)} (hparts : Engine.openAnswer c₂ host = .ok parts) :
    ∃ id, TableMade d loc t u id ∧
      Engine.openAnswer c₂ host' = .error (.formatMismatch id c₂.format c₁.format) := by
  obtain ⟨found', hfound', hids⟩ := settled.exists_restored_eq hfound standing
  obtain ⟨v, -, -, hanswer⟩ := openAnswer_eq hkind hnamed hprepare standing hfound
  obtain ⟨v', -, -, hanswer'⟩ := openAnswer_eq hkind hnamed hprepare' settled.standing hfound'
  rw [hids] at hanswer'
  -- All partitions could be opened, so it takes a table that was made to refuse one.
  have hopened (id : Int32) (hid : id ∈ c₂.restored found) :
      ∃ part, d.opened c₂ loc t id = .ok part := by
    cases hall : (c₂.restored found).mapM (d.opened c₂ loc t) with
    | error e =>
        rw [hall, hparts] at hanswer
        cases hanswer
    | ok opened => exact forall_of_mapM_eq_ok hall id hid
  have hslot {id : Int32} (hid : TableMade d loc t u id) :=
    settled.slot_of_ne fun e => hid (congrArg Slot.table e)
  obtain ⟨id, hid, herror⟩ : ∃ id, TableMade d loc t u id ∧
      (c₂.restored found).mapM (d.opened c₂ loc u) =
        .error (.formatMismatch id c₂.format c₁.format) := by
    refine exists_mapM_eq_error (fun id hmem hkept => ?_)
      (fun id _ hid => opened_of_made (hslot hid).2 hid hformat) ⟨i, ?_, hmade⟩
    · -- Where no table was made the answer is what it was.
      rw [opened, settled.opening_of_kept (.inr (not_not.1 hkept)), ← opened]
      exact hopened id hmem
    · exact EngineSettings.mem_restored_iff.2
        ⟨hrestores, (EngineSettings.mem_restored_iff.1 (hslot hmade).1).2⟩
  refine ⟨id, hid, ?_⟩
  rw [hanswer', herror]
  rfl

end Settled

/-- What an opening answers after one that failed over a table, and whose guard did not empty the
store. Where nothing stands in its way it answers what it would have answered without that one.
Otherwise it is refused where it would have succeeded, over a table that the failed opening made.
The folder was there before, below the place that the root points to, and has no symbolic links. -/
theorem answer_after_failed_open (hkind₁ : c₁.backend = .table) (hkind₂ : c₂.backend = .table)
    (hnamed₁ : StoreFolder.named c₁.root c₁.store = .ok d)
    (hnamed₂ : StoreFolder.named c₂.root c₂.store = .ok d)
    (points : host.tree.PointsTo d.root parent) (free : host.tree.LinkFree (d.store :: parent))
    (hthere : d.isThere host.tree = true ∨ host.tree.node? (d.store :: parent) = none)
    (hopen : Engine.open c₁ host = .error e host₁) (hrefused : e.RefusesTable)
    (hspared : ¬Engine.Wipes d c₁ host.tree) :
    (Unhindered d c₁ c₂ (d.store :: parent) host.tree host₁.tree →
        Engine.openAnswer c₂ host₁ = Engine.openAnswer c₂ host) ∧
      (¬Unhindered d c₁ c₂ (d.store :: parent) host.tree host₁.tree →
        ∀ parts, Engine.openAnswer c₂ host = .ok parts →
          ∃ id, TableMade d (d.store :: parent) host.tree host₁.tree id ∧
            Engine.openAnswer c₂ host₁ = .error (.formatMismatch id c₂.format c₁.format)) := by
  have sited : Sited d (d.store :: parent) host.tree := ⟨⟨parent, rfl, points⟩, free⟩
  obtain ⟨found, standing, hfound, settled⟩ :=
    exists_settled_of_open_error hkind₁ hnamed₁ sited hthere hopen hrefused hspared
  rcases standing.prepare_cases settled.standing settled.sameRecord settled.outside c₂ with
    ⟨step, cause, hprepare, hprepare'⟩ | ⟨hprepare, hprepare', hkept⟩ |
      ⟨hprepare, hprepare', hwiped⟩
  · -- The record cannot be read, now as before.
    have hanswer := openAnswer_of_prepare_error hnamed₂ hprepare
    refine ⟨fun _ => (openAnswer_of_prepare_error hnamed₂ hprepare').trans hanswer.symm,
      fun _ parts hparts => ?_⟩
    cases hanswer.symm.trans hparts
  · -- The folder is left as it is, and what the failed opening made is in it.
    refine ⟨fun unhindered => ?_, fun hindered parts hparts => ?_⟩
    · have htables : c₂.format = c₁.format ∨ ∀ id ∈ c₂.restored found,
          ¬TableMade d (d.store :: parent) host.tree host₁.tree id := by
        rcases unhindered with hformat | hwipes | htables
        · exact .inl hformat
        · exact absurd hwipes hkept
        · exact .inr fun id hid => htables id (EngineSettings.mem_restored_iff.1 hid).1
      exact (settled.twins hfound standing htables).openAnswer_eq hkind₂ hnamed₂ hprepare hprepare'
    · rw [Unhindered, not_or, not_or, not_forall] at hindered
      obtain ⟨hformat, -, i, hi⟩ := hindered
      obtain ⟨hrestores, hmade⟩ := Classical.not_imp.1 hi
      exact settled.exists_refused hfound standing hkind₂ hnamed₂ hprepare hprepare' hformat
        hrestores (not_not.1 hmade) hparts
  · -- The guard empties the folder, and nothing is left of what the failed opening made.
    cases hempty : d.empty host.tree with
    | error e t =>
        rw [hempty] at hprepare hprepare'
        have hanswer := openAnswer_of_prepare_error hnamed₂ hprepare
        refine ⟨fun _ => (openAnswer_of_prepare_error hnamed₂ hprepare').trans hanswer.symm,
          fun _ parts hparts => ?_⟩
        cases hanswer.symm.trans hparts
    | ok _ t =>
        rw [hempty] at hprepare hprepare'
        have standing' := sited.standing_of_empty hempty
        obtain ⟨found', hfound', -, -⟩ :=
          idsOnDisk_of_find (standing'.find .followed) standing'.isDir
        exact ⟨fun _ => (Twins.refl standing' hfound').openAnswer_eq hkind₂ hnamed₂ hprepare
          hprepare', fun hindered => absurd (.inr (.inl (hwiped t hempty))) hindered⟩

/-- A store at the top that holds an empty table of partition 0, and nothing else. -/
def looseTable : FileTree :=
  Action.after (openTable ⟨"./s/s_0"⟩ ⟨"s", 0, .blockBased⟩ FileTree.empty)

/-- There are no links around the loose table. -/
theorem linkFree_looseTable (loc : Location) : looseTable.LinkFree loc :=
  linkFree_of_listsNoLink (by decide +kernel) loc

set_option maxRecDepth 10000 in
/-- An opening that is refused over the table of partition 0 leaves one for the metadata partition
behind. Over that one the store's own format is refused, in which it could be opened before. One
of the other format comes to the same as before. -/
theorem refused_after_failed_open :
    ∃ host₁ parts, Engine.open { settingsUnder ⟨"."⟩ with format := .plain }
        (Host.ofTree looseTable) = .error (.formatMismatch 0 .plain .blockBased) host₁ ∧
      Engine.openAnswer { settingsUnder ⟨"."⟩ with format := .plain, withData := false } host₁ =
        Engine.openAnswer { settingsUnder ⟨"."⟩ with format := .plain, withData := false }
          (Host.ofTree looseTable) ∧
      Engine.openAnswer (settingsUnder ⟨"."⟩) (Host.ofTree looseTable) = .ok parts ∧
      ∃ id, Engine.openAnswer (settingsUnder ⟨"."⟩) host₁ =
        .error (.formatMismatch id .blockBased .plain) := by
  have key : Action.failsWith (Engine.open { settingsUnder ⟨"."⟩ with format := .plain })
      (Host.ofTree looseTable) (fun e host₁ =>
        decide (e = .formatMismatch 0 .plain .blockBased) &&
          decide (host₁.tree.node? [tableFileName, dirName "s" metadataId, "s"] ≠
            looseTable.node? [tableFileName, dirName "s" metadataId, "s"])) = true := by
    decide +kernel
  have key' : Action.succeedsWith (Engine.open (settingsUnder ⟨"."⟩)) (Host.ofTree looseTable)
      (fun _ _ => true) = true := by decide +kernel
  obtain ⟨e, host₁, hopen, key⟩ := Action.exists_of_failsWith key
  simp only [Bool.and_eq_true, decide_eq_true_eq] at key
  obtain ⟨rfl, hmade⟩ := key
  obtain ⟨engine, host₂, hopen₂, -⟩ := Action.exists_of_succeedsWith key'
  have hnamed : StoreFolder.named ⟨"."⟩ "s" = .ok ⟨⟨"."⟩, "s", by decide⟩ := rfl
  have hrecord : EngineRecord.readFrom looseTable (StoreFolder.recordPath ⟨⟨"."⟩, "s", by decide⟩) =
      .ok none := by decide +kernel
  have points : (Host.ofTree looseTable).tree.PointsTo ⟨"."⟩ [] := rfl
  -- The general theorem for this folder, whatever the second opening asks for.
  have later (c : EngineSettings) (hkind : c.backend = .table)
      (hnamed₂ : StoreFolder.named c.root c.store = .ok ⟨⟨"."⟩, "s", by decide⟩) :=
    answer_after_failed_open (d := ⟨⟨"."⟩, "s", by decide⟩) rfl hkind hnamed hnamed₂ points
      (linkFree_looseTable _) (.inl (by decide +kernel)) hopen trivial
      (Engine.not_wipes_of_readFrom hrecord)
  have hanswer : ∃ parts,
      Engine.openAnswer (settingsUnder ⟨"."⟩) (Host.ofTree looseTable) = .ok parts := by
    rw [Engine.openAnswer, hopen₂]
    exact ⟨_, rfl⟩
  obtain ⟨parts, hparts⟩ := hanswer
  have hindered : ¬Unhindered ⟨⟨"."⟩, "s", by decide⟩
      { settingsUnder ⟨"."⟩ with format := .plain } (settingsUnder ⟨"."⟩) ["s"] looseTable
      host₁.tree := by
    rintro (hformat | hwipes | htables)
    · cases hformat
    · exact Engine.not_wipes_of_readFrom hrecord hwipes
    · exact htables metadataId rfl hmade
  obtain ⟨id, -, hrefused⟩ := (later _ rfl rfl).2 hindered parts hparts
  exact ⟨host₁, parts, hopen, (later _ rfl rfl).1 (.inl rfl), hparts, id, hrefused⟩

end PartitionStore
