import PartitionStore.EngineRecord.Basic
import PartitionStore.Proofs.Text.Trim

/-!
# `PartitionStore.Proofs.EngineRecord.Lines`: what the lines of a record say

A line of a record's text is skipped (`IsSkipped`), or assigns a value to a
property (`Assigns`), or can be read as neither. `SetsLast` picks out, of many
lines, the last one that assigns something to a given property.

* `addLine_eq_some_iff`: what one line does to the properties read so far.
* `foldlM_addLine`: lines that can all be read set each property to what the
  last of them assigns to it.
* `foldlM_addLine_eq_none`: a single line that cannot be read spoils the text.
-/

set_option autoImplicit false

namespace PartitionStore.EngineRecord

open Text

/-- A blank line, or one that starts with `#` behind blanks. -/
def IsSkipped (line : List Char) : Prop := trim line = [] ∨ (trim line).head? = some '#'

/-- The line is `key=value`, up to blanks around both. -/
def Assigns (line : List Char) (key value : String) : Prop :=
  ¬IsSkipped line ∧ ∃ left right, line = left ++ '=' :: right ∧ '=' ∉ left ∧
    trim left = key.toList ∧ key ≠ "" ∧ trim right = value.toList

/-- The line is skipped or assigns something. -/
def Readable (line : List Char) : Prop := IsSkipped line ∨ ∃ key value, Assigns line key value

/-- Of the lines, the last one that assigns anything to `key` assigns `value`. -/
def SetsLast (lines : List (List Char)) (key value : String) : Prop :=
  ∃ front line back, lines = front ++ line :: back ∧ Assigns line key value ∧
    ∀ later ∈ back, ∀ other, ¬Assigns later key other

/-! ### One line -/

/-- The sign between a key and its value is no blank, so that trimming leaves it. -/
theorem isBlank_equals : isBlank '=' = false := by decide

/-- A line assigns one value to one property at most. -/
theorem Assigns.unique {line : List Char} {key key' value value' : String}
    (h : Assigns line key value) (h' : Assigns line key' value') :
    key = key' ∧ value = value' := by
  obtain ⟨-, left, right, hline, hleft, hkey, -, hvalue⟩ := h
  obtain ⟨-, left', right', hline', hleft', hkey', -, hvalue'⟩ := h'
  have hcut := splitFirst?_eq_some_iff.2 ⟨hline, hleft⟩
  have hcut' := splitFirst?_eq_some_iff.2 ⟨hline', hleft'⟩
  obtain ⟨rfl, rfl⟩ := Prod.mk.inj (Option.some.inj (hcut.symm.trans hcut'))
  exact ⟨String.toList_inj.1 (hkey.symm.trans hkey'),
    String.toList_inj.1 (hvalue.symm.trans hvalue')⟩

/-- Values that lines assign are trimmed. -/
theorem Assigns.trim_value {line : List Char} {key value : String} (h : Assigns line key value) :
    trim value.toList = value.toList := by
  obtain ⟨-, left, right, -, -, -, -, hvalue⟩ := h
  rw [← hvalue, trim_trim]

/-- What one line does to the properties read so far. -/
theorem addLine_eq_some_iff {entries entries' : SortedMap String String} {line : List Char} :
    addLine entries line = some entries' ↔
      (IsSkipped line ∧ entries' = entries) ∨
        ∃ key value, Assigns line key value ∧ entries' = entries.insert key value := by
  unfold addLine
  by_cases hskip : trim line = [] ∨ (trim line).head? = some '#'
  · simp only [if_pos hskip]
    constructor
    · intro h
      exact .inl ⟨hskip, (Option.some.inj h).symm⟩
    · rintro (⟨-, rfl⟩ | ⟨key, value, hassigns, -⟩)
      · rfl
      · exact absurd hskip hassigns.1
  simp only [if_neg hskip, splitFirst?_trim isBlank_equals]
  cases hcut : splitFirst? '=' line with
  | none =>
      -- Without an equals sign the line assigns nothing.
      simp only [Option.map_none, Option.bind_eq_bind, Option.bind_none, reduceCtorEq, false_iff]
      rintro (⟨h, -⟩ | ⟨key, value, ⟨-, left, right, hline, -⟩, -⟩)
      · exact hskip h
      · exact splitFirst?_eq_none_iff.1 hcut (by simp [hline])
  | some sides =>
      obtain ⟨left, right⟩ := sides
      obtain ⟨hline, hleft⟩ := splitFirst?_eq_some_iff.1 hcut
      simp only [Option.map_some, Option.bind_eq_bind, Option.bind_some, trim_dropWhile,
        trim_trimEnd]
      split
      · -- With nothing but blanks before the equals sign there is no key.
        rename_i hkey
        simp only [reduceCtorEq, false_iff]
        rintro (⟨h, -⟩ | ⟨key, value, ⟨-, left', right', hline', hleft', hkey', hne, -⟩, -⟩)
        · exact hskip h
        · have hcut' := splitFirst?_eq_some_iff.2 ⟨hline', hleft'⟩
          obtain ⟨rfl, -⟩ := Prod.mk.inj (Option.some.inj (hcut.symm.trans hcut'))
          exact hne (String.toList_inj.1 (hkey'.symm.trans hkey))
      · rename_i hkey
        have hassigns : Assigns line (String.ofList (trim left)) (String.ofList (trim right)) := by
          refine ⟨hskip, left, right, hline, hleft, by simp, ?_, by simp⟩
          intro e
          refine hkey ?_
          simpa using congrArg String.toList e
        constructor
        · intro h
          exact .inr ⟨_, _, hassigns, (Option.some.inj h).symm⟩
        · rintro (⟨h, -⟩ | ⟨key, value, h, rfl⟩)
          · exact absurd h hskip
          · obtain ⟨rfl, rfl⟩ := hassigns.unique h
            rfl

/-- A line is readable exactly if it can be added to what was read before it, whatever that was. -/
theorem readable_iff (entries : SortedMap String String) {line : List Char} :
    Readable line ↔ ∃ entries', addLine entries line = some entries' := by
  constructor
  · rintro (h | ⟨key, value, h⟩)
    · exact ⟨_, addLine_eq_some_iff.2 (.inl ⟨h, rfl⟩)⟩
    · exact ⟨_, addLine_eq_some_iff.2 (.inr ⟨key, value, h, rfl⟩)⟩
  · rintro ⟨entries', h⟩
    rcases addLine_eq_some_iff.1 h with ⟨h, -⟩ | ⟨key, value, h, -⟩
    · exact .inl h
    · exact .inr ⟨key, value, h⟩

/-! ### Many lines -/

/-- A line before the others does not change what is set last. -/
theorem SetsLast.cons {lines : List (List Char)} {key value : String} (line : List Char)
    (h : SetsLast lines key value) : SetsLast (line :: lines) key value := by
  obtain ⟨front, last, back, rfl, hassigns, hlater⟩ := h
  exact ⟨line :: front, last, back, rfl, hassigns, hlater⟩

/-- The last assignment is in the tail, or it is the head and the tail assigns nothing. -/
theorem setsLast_cons_iff {lines : List (List Char)} {line : List Char} {key value : String} :
    SetsLast (line :: lines) key value ↔
      SetsLast lines key value ∨
        (Assigns line key value ∧ ∀ later ∈ lines, ∀ other, ¬Assigns later key other) := by
  constructor
  · rintro ⟨front, last, back, hsplit, hassigns, hlater⟩
    cases front with
    | nil =>
        obtain ⟨rfl, rfl⟩ := List.cons.inj hsplit
        exact .inr ⟨hassigns, hlater⟩
    | cons first front =>
        exact .inl ⟨front, last, back, (List.cons.inj hsplit).2, hassigns, hlater⟩
  · rintro (h | ⟨hassigns, hlater⟩)
    · exact h.cons line
    · exact ⟨[], line, lines, rfl, hassigns, hlater⟩

/-- Without lines nothing is set. -/
theorem not_setsLast_nil {key value : String} : ¬SetsLast [] key value := by
  rintro ⟨front, line, back, hsplit, -⟩
  simp at hsplit

/-- What comes later decides, if it assigns anything. -/
theorem setsLast_append_iff {front back : List (List Char)} {key value : String} :
    SetsLast (front ++ back) key value ↔
      SetsLast back key value ∨
        (SetsLast front key value ∧ ∀ later ∈ back, ∀ other, ¬Assigns later key other) := by
  induction front with
  | nil => simp [not_setsLast_nil]
  | cons line front ih =>
      rw [List.cons_append, setsLast_cons_iff, setsLast_cons_iff, ih]
      simp only [List.mem_append, or_imp, forall_and]
      tauto

/-- Nor do any number of lines before the others, by induction on them. -/
theorem SetsLast.prepend {back : List (List Char)} {key value : String}
    (front : List (List Char)) (h : SetsLast back key value) :
    SetsLast (front ++ back) key value := setsLast_append_iff.2 (.inl h)

/-- Lines behind the others do not either, as long as none of them is about the key. -/
theorem SetsLast.append {front back : List (List Char)} {key value : String}
    (h : SetsLast front key value) (none : ∀ later ∈ back, ∀ other, ¬Assigns later key other) :
    SetsLast (front ++ back) key value := setsLast_append_iff.2 (.inr ⟨h, none⟩)

/-- What is set last is set by one of the lines. -/
theorem SetsLast.exists_assigns {lines : List (List Char)} {key value : String}
    (h : SetsLast lines key value) : ∃ line ∈ lines, Assigns line key value := by
  obtain ⟨front, line, back, rfl, hassigns, -⟩ := h
  exact ⟨line, by simp, hassigns⟩

/-- One value at most is assigned last. -/
theorem SetsLast.unique {lines : List (List Char)} {key value value' : String}
    (h : SetsLast lines key value) (h' : SetsLast lines key value') : value = value' := by
  induction lines with
  | nil => exact absurd h not_setsLast_nil
  | cons line rest ih =>
      have excluded : ∀ {v v'}, SetsLast rest key v →
          ¬(Assigns line key v' ∧ ∀ later ∈ rest, ∀ other, ¬Assigns later key other) := by
        rintro v v' hrest ⟨-, hnone⟩
        obtain ⟨later, hmem, hassigns⟩ := hrest.exists_assigns
        exact hnone later hmem v hassigns
      rcases setsLast_cons_iff.1 h with h | h
      · rcases setsLast_cons_iff.1 h' with h' | h'
        · exact ih h h'
        · exact absurd h' (excluded h)
      · rcases setsLast_cons_iff.1 h' with h' | h'
        · exact absurd h (excluded h')
        · exact (h.1.unique h'.1).2

/-- If any line assigns something to a property, one is the last to do so. -/
theorem exists_setsLast {lines : List (List Char)} {key : String}
    (h : ∃ line ∈ lines, ∃ value, Assigns line key value) : ∃ value, SetsLast lines key value := by
  induction lines with
  | nil => obtain ⟨line, hmem, -⟩ := h; simp at hmem
  | cons line rest ih =>
      by_cases hrest : ∃ later ∈ rest, ∃ value, Assigns later key value
      · obtain ⟨value, hvalue⟩ := ih hrest
        exact ⟨value, hvalue.cons line⟩
      · obtain ⟨line', hmem, value, hassigns⟩ := h
        rcases List.mem_cons.1 hmem with rfl | hmem
        · refine ⟨value, setsLast_cons_iff.2 (.inr ⟨hassigns, ?_⟩)⟩
          intro later hlater other ho
          exact hrest ⟨later, hlater, other, ho⟩
        · exact absurd ⟨line', hmem, value, hassigns⟩ hrest

/-- Lines that can all be read set each property to what the last of them assigns to it, and
leave every other property as it was. -/
theorem foldlM_addLine {lines : List (List Char)} (h : ∀ line ∈ lines, Readable line)
    (entries : SortedMap String String) :
    ∃ entries', lines.foldlM addLine entries = some entries' ∧
      ∀ key value, entries'.get? key = some value ↔
        SetsLast lines key value ∨
          ((∀ line ∈ lines, ∀ other, ¬Assigns line key other) ∧ entries.get? key = some value) := by
  induction lines generalizing entries with
  | nil =>
      refine ⟨entries, rfl, ?_⟩
      intro key value
      simp [not_setsLast_nil]
  | cons line rest ih =>
      obtain ⟨next, hnext⟩ := (readable_iff entries).1 (h line (List.mem_cons_self ..))
      obtain ⟨entries', hfold, hget⟩ := ih (fun l hl => h l (List.mem_cons_of_mem _ hl)) next
      refine ⟨entries', by simp [List.foldlM_cons, hnext, hfold], ?_⟩
      intro key value
      rw [hget, setsLast_cons_iff, or_assoc, List.forall_mem_cons]
      refine or_congr_right ?_
      -- What is left is the case that nothing behind the head assigns to the key.
      by_cases hrest : ∀ later ∈ rest, ∀ other, ¬Assigns later key other
      · rw [and_iff_left hrest, and_iff_left hrest, and_iff_right hrest]
        rcases addLine_eq_some_iff.1 hnext with ⟨hskip, rfl⟩ | ⟨key', value', hassigns, rfl⟩
        · have hnot : ∀ other, ¬Assigns line key other := by
            intro other ho
            exact ho.1 hskip
          simp [hnot]
        · by_cases hkey : key = key'
          · subst hkey
            have hsome : ¬∀ other, ¬Assigns line key other := fun hn => hn value' hassigns
            simp only [SortedMap.get?_insert_self, Option.some.injEq, hsome, false_and, or_false]
            exact ⟨fun e => e ▸ hassigns, fun ha => (hassigns.unique ha).2⟩
          · -- The head assigns to another key, so this one is as before.
            have hnot : ∀ other, ¬Assigns line key other := by
              intro other ho
              exact hkey (hassigns.unique ho).1.symm
            simp [SortedMap.get?_insert_of_ne _ _ hkey, hnot]
      · simp [hrest]

/-- A single line that cannot be read spoils the text. -/
theorem foldlM_addLine_eq_none {lines : List (List Char)} (h : ∃ line ∈ lines, ¬Readable line)
    (entries : SortedMap String String) : lines.foldlM addLine entries = none := by
  induction lines generalizing entries with
  | nil => obtain ⟨line, hmem, -⟩ := h; simp at hmem
  | cons line rest ih =>
      cases hline : addLine entries line with
      | none => simp [List.foldlM_cons, hline]
      | some next =>
          -- The head can be read, so the line that cannot is in the rest.
          have hread : Readable line := (readable_iff entries).2 ⟨next, hline⟩
          have hrest : ∃ l ∈ rest, ¬Readable l := by
            obtain ⟨l, hmem, hl⟩ := h
            rcases List.mem_cons.1 hmem with rfl | hmem
            · exact absurd hread hl
            · exact ⟨l, hmem, hl⟩
          simp [List.foldlM_cons, hline, ih hrest]

/-! ### Whole texts -/

/-- A flag is read from its own text and from no other. -/
theorem flagOfText?_eq_some_iff {cs : List Char} {flag : Bool} :
    flagOfText? cs = some flag ↔ cs = (flagText flag).toList := by
  unfold flagOfText?
  split
  · cases flag <;> decide
  · cases flag <;> decide
  · rename_i htrue hfalse
    cases flag with
    | true => exact ⟨fun h => by simp at h, fun e => absurd (e.trans (by decide)) htrue⟩
    | false => exact ⟨fun h => by simp at h, fun e => absurd (e.trans (by decide)) hfalse⟩

/-- A record tells the format whose flag it has, up to blanks. -/
theorem format?_eq_some_iff {r : EngineRecord} {format : TableFormat} :
    r.format? = some format ↔ ∃ value, r.get? flagKey = some value ∧
      trim value.toList = (flagText format.isPlain).toList := by
  simp only [format?, Option.bind_eq_bind, Option.bind_eq_some_iff, Option.some.injEq,
    flagOfText?_eq_some_iff]
  constructor
  · rintro ⟨value, hvalue, flag, htrim, rfl⟩
    exact ⟨value, hvalue, by rw [htrim, TableFormat.isPlain_ofFlag]⟩
  · rintro ⟨value, hvalue, htrim⟩
    exact ⟨value, hvalue, format.isPlain, htrim, TableFormat.ofFlag_isPlain format⟩

/-- A text reads as a record of a format exactly if all its lines can be read and the last
one that assigns the flag assigns the format's. -/
theorem exists_parse?_iff {text : String} {format : TableFormat} :
    (∃ r, parse? text = some r ∧ r.format? = some format) ↔
      (∀ line ∈ pieces '\n' text.toList, Readable line) ∧
        SetsLast (pieces '\n' text.toList) flagKey (flagText format.isPlain) := by
  by_cases hread : ∀ line ∈ pieces '\n' text.toList, Readable line
  · obtain ⟨entries, hfold, hget⟩ := foldlM_addLine hread SortedMap.empty
    have hparse : parse? text =
        if (EngineRecord.mk entries).format?.isSome then some ⟨entries⟩ else none := by
      rw [parse?, parseEntries?, hfold]
      rfl
    have hflag : (EngineRecord.mk entries).format? = some format ↔
        SetsLast (pieces '\n' text.toList) flagKey (flagText format.isPlain) := by
      rw [format?_eq_some_iff]
      constructor
      · rintro ⟨value, hvalue, htrim⟩
        rcases (hget flagKey value).1 hvalue with hlast | ⟨-, hnone⟩
        · -- What a line assigns is trimmed already.
          obtain ⟨front, line, back, hsplit, hassigns, hlater⟩ := hlast
          rw [hassigns.trim_value, String.toList_inj] at htrim
          exact ⟨front, line, back, hsplit, htrim ▸ hassigns, hlater⟩
        · simp at hnone
      · intro hlast
        exact ⟨_, (hget _ _).2 (.inl hlast), by cases format <;> decide⟩
    rw [and_iff_right hread, ← hflag, hparse]
    constructor
    · rintro ⟨r, hr, hformat⟩
      split at hr
      · exact Option.some.inj hr ▸ hformat
      · simp at hr
    · intro hformat
      exact ⟨⟨entries⟩, by simp [hformat], hformat⟩
  · have hnone : parse? text = none := by
      rw [parse?, parseEntries?, foldlM_addLine_eq_none (by simpa using hread)]
      rfl
    simp [hnone, hread]

end PartitionStore.EngineRecord
