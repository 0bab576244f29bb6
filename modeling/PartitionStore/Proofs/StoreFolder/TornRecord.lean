import PartitionStore.Proofs.EngineRecord.Torn
import PartitionStore.Proofs.FileTree.Shape
import PartitionStore.Proofs.StoreFolder.Guarding

/-!
# `PartitionStore.Proofs.StoreFolder.TornRecord`: the format guard and records that were cut short

The format guard goes by the record that it reads and empties the store if that tells another
format than the one asked for. So a record file that was cut short must tell no format that the
whole does not tell.

What such a file reads as is a matter of its bytes (`EngineRecord.read_of_torn`). What the guard does
with it is a matter of two trees, one with the whole file and one with the beginning of it, which
are of one shape: where the same format is read in both, the same is done in both.

* `tells_no_other_format_if_torn`: the record file cut short reads as no record or as one of the
  same format, and the guard lets the store be, or does what it does with the whole file.
-/

set_option autoImplicit false

namespace PartitionStore.StoreFolder

open FileTree PartitionStore.Action

variable {d : StoreFolder} {r : EngineRecord} {found : Option EngineRecord} {t u : FileTree}
  {torn : Bytes}

/-- The folder is emptied alike in trees of one shape. -/
theorem respects_empty_shape (d : StoreFolder) : Respects SameShape d.empty :=
  .bind (StoreAction.respects_ofFiles (respects_removeDirAll_shape _)) fun _ =>
    StoreAction.respects_ofFiles (respects_createDirAll_shape _)

/-- From one format that is read in two trees of one shape the guard comes to the same. -/
theorem guard_of_sameShape (shape : SameShape t u) {found' : Option EngineRecord}
    (h : d.readRecord t = .ok found t) (h' : d.readRecord u = .ok found' u)
    (hformat : found'.bind EngineRecord.format? = found.bind EngineRecord.format?)
    (format : TableFormat) :
    answer (d.guard format u) = answer (d.guard format t) ∧
      SameShape (after (d.guard format t)) (after (d.guard format u)) := by
  rw [guard_eq h, guard_eq h', hformat]
  cases found.bind EngineRecord.format? with
  | none => exact ⟨rfl, shape⟩
  | some recorded =>
      simp only
      split
      · exact ⟨rfl, shape⟩
      · exact ((respects_empty_shape d).bind fun _ => respects_pure _ _) t u shape

/-- The file of a record, cut short anywhere, reads as no record or as one of the same format. The
guard, whatever format is asked for, leaves the store alone then, or it does what it does with the
whole file. -/
theorem tells_no_other_format_if_torn (h : EngineRecord.parse? r.properties = some r)
    (cut : torn <+: r.bytes) :
    (∀ (p : Path) (t : FileTree), t.read p = .ok torn →
      ∃ found, EngineRecord.read p t = .ok found t ∧ ∀ r' ∈ found, r'.format? = r.format?) ∧
    ∀ (d : StoreFolder) (format : TableFormat) (t u : FileTree), SameShape t u →
      t.read d.recordPath = .ok r.bytes → u.read d.recordPath = .ok torn →
      d.guard format u = .ok .noRecord u ∨
        (answer (d.guard format u) = answer (d.guard format t) ∧
          SameShape (after (d.guard format t)) (after (d.guard format u))) := by
  have hwell := EngineRecord.wellFormed_of_parse? h
  refine ⟨fun p t => EngineRecord.read_of_torn hwell cut, fun d format t u shape ht hu => ?_⟩
  -- Of the two trees only the format that is read matters: none at all, or the one of the whole.
  obtain ⟨found, hfound, hformat⟩ := EngineRecord.read_of_torn hwell cut hu
  cases found with
  | none => exact .inl (guard_eq hfound format)
  | some r' =>
      have hwhole : d.readRecord t = .ok (some r) t := h ▸ EngineRecord.read_of_bytes ht
      exact .inr (guard_of_sameShape shape hwhole hfound (hformat r' rfl) format)

/-- A record with a character of two bytes before the flag. -/
def ownedRecord : EngineRecord := (EngineRecord.ofFormat .plain).set "owner" "\u00e4"

/-- A store with the first `n` bytes of the record in its file. -/
def tornUnder (n : Nat) : FileTree :=
  (((FileTree.empty.place [] "s" .dir).place ["s"] "s_-1" .dir).place ["s_-1", "s"]
    recordFileName (.file (ownedRecord.bytes.take n)))

/-- However much of the record was written, the tree has one shape. -/
theorem sameShape_tornUnder (m n : Nat) : SameShape (tornUnder m) (tornUnder n) :=
  sameShape_place_file (by decide) (by decide +kernel) (by decide +kernel) _ _

/-- Cut in the middle of a character the record is none, and the store is left alone. With nothing
but the last line end missing it is the whole record still, and the store is emptied as it is with
the whole. -/
theorem torn_in_character_and_at_end :
    guard ⟨⟨"."⟩, "s", by decide⟩ .blockBased (tornUnder 7) = .ok .noRecord (tornUnder 7) ∧
      answer (guard ⟨⟨"."⟩, "s", by decide⟩ .blockBased (tornUnder 48)) =
        .ok (.emptied .plain) ∧
      answer (guard ⟨⟨"."⟩, "s", by decide⟩ .blockBased (tornUnder 49)) =
        .ok (.emptied .plain) := by
  have hparse : EngineRecord.parse? ownedRecord.properties = some ownedRecord := by decide +kernel
  have hwhole : (tornUnder 49).read (recordPath ⟨⟨"."⟩, "s", by decide⟩) =
      .ok ownedRecord.bytes := by decide +kernel
  have hemptied : answer (guard ⟨⟨"."⟩, "s", by decide⟩ .blockBased (tornUnder 49)) =
      .ok (.emptied .plain) := by decide +kernel
  have key (n : Nat) := (tells_no_other_format_if_torn hparse (ownedRecord.bytes.take_prefix n)).2
    ⟨⟨"."⟩, "s", by decide⟩ .blockBased (tornUnder 49) (tornUnder n) (sameShape_tornUnder 49 n)
    hwhole
  refine ⟨?_, ?_, hemptied⟩
  · rcases key 7 (by decide +kernel) with hnone | ⟨hanswer, -⟩
    · exact hnone
    · exact absurd (hanswer.trans hemptied) (by decide +kernel)
  · rcases key 48 (by decide +kernel) with hnone | ⟨hanswer, -⟩
    · exact absurd (congrArg answer hnone) (by decide +kernel)
    · exact hanswer.trans hemptied

end PartitionStore.StoreFolder
