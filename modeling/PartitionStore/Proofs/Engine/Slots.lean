import Mathlib.Data.List.Forall2
import PartitionStore.Proofs.Engine.Opening
import PartitionStore.Proofs.Partition.Slot
import PartitionStore.Proofs.StoreFolder.Standing

/-!
# `PartitionStore.Proofs.Engine.Slots`: what bringing a store up hangs on

Each partition of a store has a slot of its own, and opening one leaves the slots of the
others as they are. So it makes no difference how the opening is shared out among workers:
the answer is that of opening each partition in the tree that was there at first, one
after another, up to the first failure (`StoreFolder.opened`). What a failure leaves is
less certain, for other workers go on: some of the slots were opened, and others not
(`Settled`).

* `Standing.attach`: one partition.
* `Standing.restored_openAll`: all of them.
-/

set_option autoImplicit false

namespace PartitionStore

open FileTree Naming PartitionStore.Partition StoreFolder

/-! ### Slots of a store -/

/-- The slot of the partition with an id, in the folder at `loc`. -/
def StoreFolder.slot (d : StoreFolder) (loc : Location) (t : FileTree) (id : Int32) : Slot :=
  Slot.of t (dirName d.store id :: loc)

/-- What opening the partition with an id answers, and what becomes of its slot. -/
def StoreFolder.opening (d : StoreFolder) (c : EngineSettings) (loc : Location) (t : FileTree)
    (id : Int32) : Except StoreError (SortedMap Bytes Bytes) × Slot :=
  (d.slot loc t id).openIn (d.partitionPath id) (dirName d.store id) (c.spec id)

/-- The partition that is opened then, with its id. -/
def StoreFolder.opened (d : StoreFolder) (c : EngineSettings) (loc : Location) (t : FileTree)
    (id : Int32) : Except StoreError (Int32 × Partition) :=
  (d.opening c loc t id).1.map fun entries =>
    (id, ⟨id, c.format, entries, .table (d.partitionPath id) false, false⟩)

/-- The ids of the partitions that are opened if those of `found` are on disk. -/
def EngineSettings.restored (c : EngineSettings) (found : List Int32) : List Int32 :=
  (if c.withMetadata then [metadataId] else []) ++
    (if c.withData then found.filter (· != metadataId) else [])

/-- From `t` to `u` nothing changed but slots of partitions in `ids`, which were opened. Not all
of them need to have been. -/
structure Settled (d : StoreFolder) (c : EngineSettings) (loc : Location) (ids : List Int32)
    (t u : FileTree) : Prop where
  standing : Standing d loc u
  slots : ∀ id ∈ ids, d.slot loc u id = d.slot loc t id ∨
    d.slot loc u id = (d.opening c loc t id).2
  others : ∀ id, id ∉ ids → d.slot loc u id = d.slot loc t id
  same : ∀ l, (∀ id, ¬Slot.Has (dirName d.store id :: loc) l) → u.node? l = t.node? l

/-- The ids that are registered, with their partitions. -/
def Host.registered (host : Host) (registry : List (Int32 × Handle)) : List (Int32 × Partition) :=
  registry.map fun entry => (entry.1, host.partition entry.2)

/-- The registry has handles of these partitions, in this order. -/
def Host.Holds (host : Host) (registry : List (Int32 × Handle)) (parts : List (Int32 × Partition)) :
    Prop :=
  List.Forall₂ (fun entry part => entry.1 = part.1 ∧ host.partitions[entry.2]? = some part.2)
    registry parts

/-- The answer is that of opening the partitions of `ids` one by one in the tree of `host`. On
success all of them were opened. -/
def Restored (d : StoreFolder) (c : EngineSettings) (loc : Location) (host : Host)
    (ids : List Int32) : EStateM.Result StoreError Host (List (Int32 × Handle)) → Prop
  | .ok registry host' => Settled d c loc ids host.tree host'.tree ∧
      host.partitions <+: host'.partitions ∧
      (∀ id ∈ ids, d.slot loc host'.tree id = (d.opening c loc host.tree id).2) ∧
      ∃ parts, ids.mapM (d.opened c loc host.tree) = .ok parts ∧ host'.Holds registry parts
  | .error e host' => Settled d c loc ids host.tree host'.tree ∧
      host.partitions <+: host'.partitions ∧ ids.mapM (d.opened c loc host.tree) = .error e

variable {d : StoreFolder} {c : EngineSettings} {loc : Location} {t u v : FileTree}
  {host host' : Host} {ids ids' : List Int32} {id i : Int32}

/-! ### Sequences of answers -/

/-- Where there is an answer for all items there is one for each. -/
theorem forall_of_mapM_eq_ok {ε α β : Type} {f : α → Except ε β} {xs : List α} {ys : List β}
    (h : xs.mapM f = .ok ys) : ∀ x ∈ xs, ∃ y, f x = .ok y := by
  induction xs generalizing ys with
  | nil => simp
  | cons x rest ih =>
      rw [List.mapM_cons] at h
      cases hx : f x with
      | error e =>
          rw [hx] at h
          cases h
      | ok y =>
          cases hrest : rest.mapM f with
          | error e =>
              rw [hx, hrest] at h
              cases h
          | ok ys' => exact List.forall_mem_cons.2 ⟨⟨y, hx⟩, ih hrest⟩

/-- The refusal of a sequence is that of one of its items. -/
theorem exists_of_mapM_eq_error {ε α β : Type} {f : α → Except ε β} {xs : List α} {e : ε}
    (h : xs.mapM f = .error e) : ∃ x ∈ xs, f x = .error e := by
  induction xs with
  | nil => cases h
  | cons x rest ih =>
      rw [List.mapM_cons] at h
      cases hx : f x with
      | error e' =>
          rw [hx] at h
          cases h
          exact ⟨x, List.mem_cons_self .., hx⟩
      | ok y =>
          cases hrest : rest.mapM f with
          | error e' =>
              rw [hx, hrest] at h
              cases h
              obtain ⟨z, hz, herror⟩ := ih hrest
              exact ⟨z, List.mem_cons_of_mem _ hz, herror⟩
          | ok ys =>
              rw [hx, hrest] at h
              cases h

/-- If exactly the items with a property are refused, the answer is the refusal of one of them. -/
theorem exists_mapM_eq_error {ε α β : Type} {f : α → Except ε β} {refusal : α → ε} {P : α → Prop}
    {xs : List α} (hgood : ∀ x ∈ xs, ¬P x → ∃ y, f x = .ok y)
    (hbad : ∀ x ∈ xs, P x → f x = .error (refusal x)) (h : ∃ x ∈ xs, P x) :
    ∃ x, P x ∧ xs.mapM f = .error (refusal x) := by
  induction xs with
  | nil => simp at h
  | cons x rest ih =>
      rw [List.forall_mem_cons] at hgood hbad
      by_cases hx : P x
      · refine ⟨x, hx, ?_⟩
        rw [List.mapM_cons, hbad.1 hx]
        rfl
      · obtain ⟨y, hy⟩ := hgood.1 hx
        obtain ⟨z, hz, hzbad⟩ := h
        have hrest : z ∈ rest := (List.mem_cons.1 hz).resolve_left fun e => hx (e ▸ hzbad)
        obtain ⟨w, hw, herror⟩ := ih hgood.2 hbad.2 ⟨z, hrest, hzbad⟩
        refine ⟨w, hw, ?_⟩
        rw [List.mapM_cons, hy, herror]
        rfl

/-! ### Slots that differ -/

/-- The slots of different partitions have no place in common. -/
theorem eq_of_has {l : Location} (h : Slot.Has (dirName d.store i :: loc) l)
    (h' : Slot.Has (dirName d.store id :: loc) l) : i = id := by
  -- A place of a slot is its directory or below that, and no place is below two of them.
  have hin {j : Int32} (hj : Slot.Has (dirName d.store j :: loc) l) :
      dirName d.store j :: loc <:+ l := by
    rcases hj with rfl | rfl | rfl
    · exact List.suffix_refl _
    · exact List.suffix_cons ..
    · exact List.suffix_cons ..
  by_contra hne
  exact not_suffix_of_ne hne (hin h) (hin h')

/-- A slot is what the tree has at its places. -/
theorem StoreFolder.slot_eq_iff : d.slot loc u id = d.slot loc t id ↔
    ∀ l, Slot.Has (dirName d.store id :: loc) l → u.node? l = t.node? l := by
  constructor
  · rintro h l (rfl | rfl | rfl)
    · exact congrArg Slot.dir h
    · exact congrArg Slot.table h
    · exact congrArg Slot.scratch h
  · intro h
    rw [slot, slot, Slot.of, Slot.of, h _ (.inl rfl), h _ (.inr (.inl rfl)),
      h _ (.inr (.inr rfl))]

/-- What becomes of an opening hangs on the partition's own slot. -/
theorem StoreFolder.opening_congr (c : EngineSettings) (h : d.slot loc u id = d.slot loc t id) :
    d.opening c loc u id = d.opening c loc t id := by
  rw [opening, h, ← opening]

/-- An opening takes nothing out of the slot but what it writes over. -/
theorem StoreFolder.grows_opening (d : StoreFolder) (c : EngineSettings) (loc : Location)
    (t : FileTree) (id : Int32) : (d.slot loc t id).Grows (d.opening c loc t id).2 :=
  Slot.grows_openIn ..

/-- After another opening a partition answers as before, unless a table of another format was
made. -/
theorem StoreFolder.opening_opening {c' : EngineSettings}
    (hslot : d.slot loc u id = (d.opening c loc t id).2)
    (h : c'.format = c.format ∨ (d.slot loc u id).table = (d.slot loc t id).table) :
    d.opening c' loc u id = d.opening c' loc t id := by
  rw [hslot] at h
  rw [opening] at hslot h
  rw [opening, opening, hslot]
  exact Slot.openIn_openIn h

/-- A partition is refused exactly if its opening is. -/
theorem StoreFolder.opened_eq_error_iff {e : StoreError} :
    d.opened c loc t id = .error e ↔ (d.opening c loc t id).1 = .error e := by
  rw [opened]
  cases (d.opening c loc t id).1 <;> simp [Except.map]

/-- Where a table of another format was made the partition is refused. -/
theorem StoreFolder.opened_of_made {c' : EngineSettings}
    (hslot : d.slot loc u id = (d.opening c loc t id).2)
    (hmade : (d.slot loc u id).table ≠ (d.slot loc t id).table) (hformat : c'.format ≠ c.format) :
    d.opened c' loc u id = .error (.formatMismatch id c'.format c.format) := by
  rw [hslot] at hmade
  rw [opening] at hslot hmade
  rw [opened_eq_error_iff, opening, hslot]
  exact Slot.openIn_of_made hmade hformat

/-- Where there is no table file nothing but the file system fails. -/
theorem StoreFolder.io_of_opened {e : StoreError} (h : d.opened c loc t id = .error e)
    (hfile : ∀ data, (d.slot loc t id).table ≠ some (.file data)) : ∃ cause, e = .io cause := by
  rw [opened_eq_error_iff, opening] at h
  exact Slot.io_of_openIn h hfile

/-- A partition that is opened has its directory afterwards. -/
theorem StoreFolder.dir_of_opened {part : Int32 × Partition} (h : d.opened c loc t id = .ok part) :
    (d.opening c loc t id).2.dir = some .dir := by
  cases hopen : (d.opening c loc t id).1 with
  | error e => cases (opened_eq_error_iff.2 hopen).symm.trans h
  | ok entries =>
      rw [opening] at hopen ⊢
      exact Slot.dir_openIn hopen

/-- So is a sequence of partitions, if each opening is the same. -/
theorem mapM_opened_congr (h : ∀ id ∈ ids, d.opening c loc u id = d.opening c loc t id) :
    ids.mapM (d.opened c loc u) = ids.mapM (d.opened c loc t) := by
  induction ids with
  | nil => rw [List.mapM_nil, List.mapM_nil]
  | cons id rest ih =>
      have hfirst : d.opened c loc u id = d.opened c loc t id := by
        rw [opened, h id (List.mem_cons_self ..), ← opened]
      rw [List.mapM_cons, List.mapM_cons, hfirst,
        ih fun j hj => h j (List.mem_cons_of_mem _ hj)]

/-- Handles stand for the same partitions on a host with more of them. -/
theorem Host.Holds.mono {registry : List (Int32 × Handle)} {parts : List (Int32 × Partition)}
    (h : host.Holds registry parts) (hgrows : host.partitions <+: host'.partitions) :
    host'.Holds registry parts := by
  obtain ⟨more, hmore⟩ := hgrows
  refine h.imp fun entry part hentry => ⟨hentry.1, ?_⟩
  obtain ⟨hlt, -⟩ := List.getElem?_eq_some_iff.1 hentry.2
  rw [← hmore, List.getElem?_append_left hlt]
  exact hentry.2

/-- The partitions are those that the handles stand for. -/
theorem Host.Holds.map_partition {registry : List (Int32 × Handle)}
    {parts : List (Int32 × Partition)} (h : host.Holds registry parts) :
    host.registered registry = parts := by
  refine List.forall₂_eq_eq_eq ▸ List.forall₂_map_left_iff.2 (h.imp ?_)
  rintro ⟨i, h⟩ ⟨j, part⟩ ⟨hid, hpart⟩
  simp only at hid hpart
  rw [hid, Host.partition, List.getD_eq_getElem?_getD, hpart]
  rfl

namespace Settled

/-- Before anything is opened nothing has changed. -/
theorem refl (standing : Standing d loc t) (c : EngineSettings) (ids : List Int32) :
    Settled d c loc ids t t :=
  ⟨standing, fun _ _ => .inl rfl, fun _ _ => rfl, fun _ _ => rfl⟩

/-- The opening of a partition that was not among those comes to the same as before. -/
theorem opening_eq (h : Settled d c loc ids t u) (hid : id ∉ ids) :
    d.opening c loc u id = d.opening c loc t id := d.opening_congr c (h.others id hid)

/-- Some partitions were opened, and then others; these found their slots as they had been. -/
theorem trans (h : Settled d c loc ids t u) (h' : Settled d c loc ids' u v)
    (hnew : ∀ id ∈ ids', id ∉ ids) : Settled d c loc (ids ++ ids') t v := by
  refine ⟨h'.standing, fun id hid => ?_, fun id hid => ?_, fun l hl =>
    (h'.same l hl).trans (h.same l hl)⟩
  · -- No slot has its turn twice: it is what it was when it comes, or what it became stays.
    rcases List.mem_append.1 hid with hfirst | hsecond
    · rw [h'.others id fun hsecond => hnew id hsecond hfirst]
      exact h.slots id hfirst
    · rw [← h.others id (hnew id hsecond), ← h.opening_eq (hnew id hsecond)]
      exact h'.slots id hsecond
  · rw [List.mem_append, not_or] at hid
    exact (h'.others id hid.2).trans (h.others id hid.1)

/-- What holds of some ids holds of more of them, as not all need to have been opened. -/
theorem mono (h : Settled d c loc ids t u) (hsub : ∀ id ∈ ids, id ∈ ids') :
    Settled d c loc ids' t u := by
  refine ⟨h.standing, fun id _ => ?_, fun id hid => h.others id fun hmem => hid (hsub id hmem),
    h.same⟩
  by_cases hid : id ∈ ids
  · exact h.slots id hid
  · exact .inl (h.others id hid)

end Settled

/-- The record of a store and the file beside it are in no slot. -/
theorem not_has_record (id : Int32) {l : Location}
    (hl : l = d.recordPlace loc ∨ l = d.recordScratchPlace loc) :
    ¬Slot.Has (dirName d.store id :: loc) l := by
  rintro (h | h | h) <;> rcases hl with rfl | rfl
  · exact absurd (congrArg List.length h) (by simp [recordPlace])
  · exact absurd (congrArg List.length h) (by simp [recordScratchPlace])
  · exact absurd (List.cons.inj h).1 (by decide)
  · exact absurd (List.cons.inj h).1 (by decide)
  · exact absurd (List.cons.inj h).1 (by decide)
  · exact absurd (List.cons.inj h).1 (by decide)

namespace Settled

variable (settled : Settled d c loc ids t u)
include settled

/-- A slot that changed was opened. -/
theorem slot_of_ne (h : d.slot loc u id ≠ d.slot loc t id) :
    id ∈ ids ∧ d.slot loc u id = (d.opening c loc t id).2 := by
  have hid : id ∈ ids := by
    by_contra hnot
    exact h (settled.others id hnot)
  exact ⟨hid, (settled.slots id hid).resolve_left h⟩

/-- A partition answers as before, unless a table of another format was made for it. -/
theorem opening_of_kept {c' : EngineSettings}
    (h : c'.format = c.format ∨ (d.slot loc u id).table = (d.slot loc t id).table) :
    d.opening c' loc u id = d.opening c' loc t id := by
  by_cases hsame : d.slot loc u id = d.slot loc t id
  · exact d.opening_congr c' hsame
  · exact opening_opening (settled.slot_of_ne hsame).2 h

/-- The directory in a slot is what it was, or was made. -/
theorem dir_cases (id : Int32) : (d.slot loc u id).dir = (d.slot loc t id).dir ∨
    (d.slot loc t id).dir = none ∧ (d.slot loc u id).dir = some .dir := by
  by_cases hsame : d.slot loc u id = d.slot loc t id
  · exact .inl (by rw [hsame])
  · rw [(settled.slot_of_ne hsame).2]
    exact (d.grows_opening c loc t id).dir

/-- An entry of the folder is what it was, or it is the directory of a partition that was opened
and had none. -/
theorem entry_cases (name : String) : u.node? (name :: loc) = t.node? (name :: loc) ∨
    ∃ id ∈ ids, name = dirName d.store id ∧ t.node? (name :: loc) = none ∧
      u.node? (name :: loc) = some .dir := by
  by_cases hname : ∃ id, name = dirName d.store id
  · obtain ⟨id, rfl⟩ := hname
    rcases settled.dir_cases id with hsame | ⟨hnone, hmade⟩
    · exact .inl hsame
    · have hid : id ∈ ids := (settled.slot_of_ne fun e => by simp [e, hnone] at hmade).1
      exact .inr ⟨id, hid, rfl, hnone, hmade⟩
  · refine .inl (settled.same _ fun id hhas => ?_)
    rcases hhas with e | e | e
    · exact hname ⟨id, (List.cons.inj e).1⟩
    · exact absurd (congrArg List.length e) (by simp)
    · exact absurd (congrArg List.length e) (by simp)

/-- Opening partitions makes the folder list these, and no other one that it did not list. -/
theorem lists_iff : d.Lists u loc id ↔ d.Lists t loc id ∨
    id ∈ ids ∧ t.node? (dirName d.store id :: loc) = none ∧
      u.node? (dirName d.store id :: loc) = some .dir := by
  constructor
  · rintro ⟨name, hread, hdir⟩
    rcases settled.entry_cases name with hsame | ⟨id', hid', rfl, hnone, hmade⟩
    · exact .inl ⟨name, hread, hsame ▸ hdir⟩
    · rw [FileName.reading_of_text (d.mark_not_mem_dirName id')] at hread
      obtain rfl := dirName_injective hread
      exact .inr ⟨hid', hnone, hmade⟩
  · rintro (⟨name, hread, hdir⟩ | ⟨-, -, hmade⟩)
    · rcases settled.entry_cases name with hsame | ⟨-, -, -, hnone, -⟩
      · exact ⟨name, hread, hsame.trans hdir⟩
      · cases hnone.symm.trans hdir
    · exact lists_of_dir hmade

/-- The record and its scratch file belong to no slot. -/
theorem node?_record {l : Location}
    (hl : l = d.recordPlace loc ∨ l = d.recordScratchPlace loc) : u.node? l = t.node? l :=
  settled.same l fun id => not_has_record id hl

/-- So the record is what it was. -/
theorem sameRecord : SameRecord d loc t u :=
  ⟨settled.dir_cases metadataId, settled.node?_record (.inl rfl), settled.node?_record (.inr rfl)⟩

/-- All that changed is in the folder. -/
theorem outside (l : Location) (hl : ¬Location.Inside loc l) : u.node? l = t.node? l := by
  refine settled.same l fun id hhas => hl ?_
  rcases hhas with rfl | rfl | rfl
  · exact Location.inside_cons ..
  · exact Location.inside_cons_cons ..
  · exact Location.inside_cons_cons ..

end Settled

/-! ### One partition -/

/-- Opening a partition changes its own slot only, and leaves the folder where it is. -/
theorem Standing.settled (standing : Standing d loc t) (c : EngineSettings)
    (filled : (d.opening c loc t id).2.Filled (dirName d.store id :: loc) t u) :
    Settled d c loc [id] t u := by
  have hchanged (l : Location) (hl : u.node? l ≠ t.node? l) :=
    filled.of_changed (d.grows_opening c loc t id) hl
  have hlinks (l : Location) (hl : u.node? l ≠ t.node? l) (target : Path) :
      t.node? l ≠ some (.link target) :=
    standing.free l target ((List.suffix_cons ..).trans (hchanged l hl).1)
  -- What changed is no link now, and was none before. So ways are what they were.
  refine ⟨standing.frame (.of_changed fun l hl target => ⟨(hchanged l hl).2.2 target,
      hlinks l hl target⟩) fun l hl => takesFile_of_ne (hchanged l hl).2.1 (hlinks l hl),
    fun j hj => ?_, fun j hj => ?_, fun l hl => filled.same l (hl id)⟩
  · obtain rfl := List.mem_singleton.1 hj
    exact .inr filled.slot
  · -- None of the places of another slot has changed.
    exact slot_eq_iff.2 fun l hl =>
      filled.same l fun hid => hj (List.mem_singleton.2 (eq_of_has hl hid))

/-- One partition is opened as its slot says. -/
theorem Standing.attach (standing : Standing d loc host.tree) (hstore : c.store = d.store)
    (id : Int32) : Restored d c loc host [id] ((do
      let h ← Backend.table.attach d (c.spec id)
      pure [(id, h)] : HostAction (List (Int32 × Handle))) host) := by
  obtain ⟨u, filled, hopen⟩ := opensTo_openIn standing.way (d.isPlainName_dir id)
    (standing.free.cons _) (c.spec id)
  -- The slot's own account of the opening, under the folder's names for its paths.
  have hopening : (Slot.of host.tree (dirName d.store id :: loc)).openIn
      (d.path.join (dirName d.store id)) (dirName d.store id) (c.spec id) =
        d.opening c loc host.tree id := rfl
  have hpath : d.path.join (dirName d.store id) = d.partitionPath id := rfl
  rw [hopening] at filled hopen
  rw [hpath] at hopen
  have settled := standing.settled c filled
  have hattach : Backend.table.attach d (c.spec id) =
      HostAction.register (openTable (d.partitionPath id) (c.spec id)) :=
    Backend.attach_table hstore
  rw [hattach]
  cases hanswer : (d.opening c loc host.tree id).1 with
  | error e =>
      rw [hanswer] at hopen
      rw [Action.bind_of_error (HostAction.register_of_error hopen)]
      refine ⟨settled, List.prefix_refl _, ?_⟩
      rw [List.mapM_cons, opened_eq_error_iff.2 hanswer]
      rfl
  | ok entries =>
      rw [hanswer] at hopen
      rw [Action.bind_of_ok (HostAction.register_of_ok hopen)]
      refine ⟨settled, List.prefix_append _ _, fun j hj => ?_,
        [(id, ⟨id, c.format, entries, .table (d.partitionPath id) false, false⟩)], ?_,
        .cons ⟨rfl, ?_⟩ .nil⟩
      · rw [List.mem_singleton.1 hj]
        exact filled.slot
      · rw [List.mapM_cons, List.mapM_nil, opened, hanswer]
        rfl
      · exact List.getElem?_concat_length

/-! ### One after another -/

/-- After what was opened first, the rest is opened as if it came first. -/
theorem Settled.mapM_opened (settled : Settled d c loc ids t u) (hnew : ∀ id ∈ ids', id ∉ ids) :
    ids'.mapM (d.opened c loc u) = ids'.mapM (d.opened c loc t) :=
  mapM_opened_congr fun id hid => settled.opening_eq (hnew id hid)

namespace Restored

variable {registry more : List (Int32 × Handle)} {e e' : StoreError} {host'' : Host}

/-- Where opening the first ones fails, others may be opened or not. -/
theorem append_of_error (h : Restored d c loc host ids (.error e host'))
    (settled : Settled d c loc ids' host'.tree host''.tree)
    (hgrows : host'.partitions <+: host''.partitions) (hnew : ∀ id ∈ ids', id ∉ ids) :
    Restored d c loc host (ids ++ ids') (.error e host'') := by
  obtain ⟨settled', hgrows', herror⟩ := h
  refine ⟨settled'.trans settled hnew, hgrows'.trans hgrows, ?_⟩
  rw [List.mapM_append, herror]
  rfl

/-- Where it succeeds, the rest decides. -/
theorem append (h : Restored d c loc host ids (.ok registry host'))
    (hmore : Restored d c loc host' ids' (.ok more host'')) (hnew : ∀ id ∈ ids', id ∉ ids) :
    Restored d c loc host (ids ++ ids') (.ok (registry ++ more) host'') := by
  obtain ⟨settled, hgrows, hall, parts, hparts, holds⟩ := h
  obtain ⟨settled', hgrows', hall', parts', hparts', holds'⟩ := hmore
  refine ⟨settled.trans settled' hnew, hgrows.trans hgrows', fun id hid => ?_, parts ++ parts',
    ?_, List.rel_append (holds.mono hgrows') holds'⟩
  · rcases List.mem_append.1 hid with hfirst | hsecond
    · rw [settled'.others id fun hsecond => hnew id hsecond hfirst]
      exact hall id hfirst
    · rw [hall' id hsecond, settled.opening_eq (hnew id hsecond)]
  · rw [settled.mapM_opened hnew] at hparts'
    rw [List.mapM_append, hparts, hparts']
    rfl

/-- If the first ids were opened and one of the others failed, that failure is the answer for all.
-/
theorem append_error (h : Restored d c loc host ids (.ok registry host'))
    (hmore : Restored d c loc host' ids' (.error e host'')) (hnew : ∀ id ∈ ids', id ∉ ids) :
    Restored d c loc host (ids ++ ids') (.error e host'') := by
  obtain ⟨settled, hgrows, -, parts, hparts, -⟩ := h
  obtain ⟨settled', hgrows', herror⟩ := hmore
  refine ⟨settled.trans settled' hnew, hgrows.trans hgrows', ?_⟩
  rw [settled.mapM_opened hnew] at herror
  rw [List.mapM_append, hparts, herror]
  rfl

/-- What was opened first and what comes after it. -/
theorem bind {x y : HostAction (List (Int32 × Handle))} (hx : Restored d c loc host ids (x host))
    (hy : ∀ host', Standing d loc host'.tree → Restored d c loc host' ids' (y host'))
    (hnew : ∀ id ∈ ids', id ∉ ids) : Restored d c loc host (ids ++ ids') ((do
      let opened ← x
      let more ← y
      pure (opened ++ more) : HostAction (List (Int32 × Handle))) host) := by
  cases hfirst : x host with
  | error e host' =>
      rw [hfirst] at hx
      rw [Action.bind_of_error hfirst]
      exact hx.append_of_error (.refl hx.1.standing c ids') (List.prefix_refl _) hnew
  | ok opened host' =>
      rw [hfirst] at hx
      have hrest := hy host' hx.1.standing
      rw [Action.bind_of_ok hfirst]
      cases hsecond : y host' with
      | error e host'' =>
          rw [hsecond] at hrest
          rw [Action.bind_of_error hsecond]
          exact hx.append_error hrest hnew
      | ok more host'' =>
          rw [hsecond] at hrest
          rw [Action.bind_of_ok hsecond]
          exact hx.append hrest hnew

/-- To open nothing is to open no ids. -/
theorem nil (standing : Standing d loc host.tree) (c : EngineSettings) :
    Restored d c loc host [] (.ok [] host) :=
  ⟨.refl standing c [], List.prefix_refl _, by simp, [], rfl, .nil⟩

end Restored

namespace Standing

/-- One worker opens its stretch as the slots in the tree of the host say, by induction on the ids.
-/
theorem restored_openStretch (standing : Standing d loc host.tree) (hstore : c.store = d.store)
    (hnodup : ids.Nodup) :
    Restored d c loc host ids (Restore.openStretch Backend.table d c ids host) := by
  induction ids generalizing host with
  | nil => exact .nil standing c
  | cons id rest ih =>
      obtain ⟨hid, hrest⟩ := List.nodup_cons.1 hnodup
      -- The rest is opened in the tree that the first one left, which has the same slots for it.
      rw [Restore.openStretch_cons]
      exact (standing.attach hstore id).bind (fun host' standing' => ih standing' hrest)
        fun j hj hmem => hid (List.mem_singleton.1 hmem ▸ hj)

/-- Workers that come after one that failed are not stopped, but its failure is the answer. -/
theorem restored_openStretches (standing : Standing d loc host.tree) (hstore : c.store = d.store)
    {stretches : List (List Int32)} (hnodup : stretches.flatten.Nodup) :
    Restored d c loc host stretches.flatten
      (Restore.openStretches Backend.table d c stretches host) := by
  induction stretches generalizing host with
  | nil => exact .nil standing c
  | cons stretch rest ih =>
      rw [List.flatten_cons] at hnodup ⊢
      obtain ⟨hstretch, hrest, hdisjoint⟩ := List.nodup_append.1 hnodup
      have hnew : ∀ id ∈ rest.flatten, id ∉ stretch := fun id hid hmem =>
        hdisjoint id hmem id hid rfl
      have hfirst := standing.restored_openStretch hstore hstretch
      simp only [Restore.openStretches]
      cases hopen : Restore.openStretch Backend.table d c stretch host with
      | error e host' =>
          rw [hopen] at hfirst
          have hothers := ih hfirst.1.standing hrest
          simp only
          -- The other workers go on, and whatever becomes of them the answer is there.
          cases hmore : Restore.openStretches Backend.table d c rest host' with
          | ok more host'' =>
              rw [hmore] at hothers
              exact hfirst.append_of_error hothers.1 hothers.2.1 hnew
          | error e' host'' =>
              rw [hmore] at hothers
              exact hfirst.append_of_error hothers.1 hothers.2.1 hnew
      | ok opened host' =>
          rw [hopen] at hfirst
          have hothers := ih hfirst.1.standing hrest
          simp only
          cases hmore : Restore.openStretches Backend.table d c rest host' with
          | ok more host'' =>
              rw [hmore] at hothers
              exact hfirst.append hothers hnew
          | error e' host'' =>
              rw [hmore] at hothers
              exact hfirst.append_error hothers hnew

/-- All partitions of the store are opened as their slots say. -/
theorem restored_openAll (standing : Standing d loc host.tree) (hstore : c.store = d.store)
    {found : List Int32} (hfound : d.idsOnDisk host.tree = .ok found host.tree) :
    Restored d c loc host (c.restored found) (Restore.openAll Backend.table d c host) := by
  have hnodup := (d.idsOnDisk_nodup host.tree).2 found _ hfound
  have hids : Backend.table.idsOnDisk d host = .ok found host := HostAction.onTree_of_ok hfound
  rw [Restore.openAll_of_idsOnDisk hids, EngineSettings.restored]
  refine Restored.bind ?_ (fun host' standing' => ?_) fun id hid hmem => ?_
  · split
    · exact standing.restored_openStretch hstore (List.nodup_singleton _)
    · exact .nil standing c
  · split
    · rw [Restore.openData]
      have hflat := flatten_stretches c.workers (found.filter (· != metadataId))
      have hopen := @restored_openStretches _ c _ host' standing' hstore
        (Restore.stretches c.workers (found.filter (· != metadataId)))
        (by rw [hflat]; exact hnodup.filter _)
      rwa [hflat] at hopen
    · exact .nil standing' c
  · -- The metadata partition is not opened twice.
    split at hmem
    · rw [List.mem_singleton.1 hmem] at hid
      split at hid <;> simp at hid
    · cases hmem

end Standing

end PartitionStore
