import PartitionStore.Proofs.EngineSettings.Record

/-!
# `PartitionStore.Proofs.EngineRecord.RoundTrip`: which records are read back as they are

A property is written on a line as it is, and lines are read with more freedom
than they are written: the ends of keys and values lose their blanks, and lines
are skipped. So a record comes back from its text if there is nothing that
reading could take away (`WellFormed`), and from no text comes any other record.

* `Writable.assigns`: a writable property is assigned by its line.
* `Assigns.writable`: only writable properties are assigned by lines at all.
* `record_codec`: exactly the well-formed records come back from their texts, these are the
  records that texts hold, and to write down what was read and to read it again changes nothing.
-/

set_option autoImplicit false

namespace PartitionStore.EngineRecord

open Text
open EngineSettings (propertyLines pieces_lines)

variable {key value : String} {r : EngineRecord} {text : String}

/-- A property of which reading takes nothing away. -/
structure Writable (key value : String) : Prop where
  key_ne : key ≠ ""
  key_trimmed : isTrimmed key.toList = true
  /-- The key ends at the equals sign behind it. -/
  key_equals : '=' ∉ key.toList
  key_lineFeed : '\n' ∉ key.toList
  /-- The line is not taken for a comment. -/
  key_comment : key.toList.head? ≠ some '#'
  value_trimmed : isTrimmed value.toList = true
  value_lineFeed : '\n' ∉ value.toList

/-- A record of writable properties, one of which is a readable format flag. -/
structure WellFormed (r : EngineRecord) : Prop where
  writable : ∀ key value, r.get? key = some value → Writable key value
  flag : ∃ flag, r.get? flagKey = some (flagText flag)

/-! ### One property on its line -/

/-- A line starts, behind blanks, as its left side does. -/
theorem head?_trim_append_cons {c : Char} (hc : isBlank c = false) {left : List Char}
    (hleft : trim left ≠ []) (right : List Char) :
    (trim (left ++ c :: right)).head? = (trim left).head? := by
  rw [trim_append_cons hc]
  rw [trim] at hleft ⊢
  cases hfront : left.dropWhile isBlank with
  | nil => exact absurd (by simp [hfront, trimEnd]) hleft
  | cons d front =>
      rw [hfront, trimEnd_cons] at hleft
      rw [trimEnd_cons]
      split
      · rename_i hnone
        rw [if_pos hnone] at hleft
        cases hd : isBlank d with
        | true => exact absurd (by simp [hd]) hleft
        | false => simp
      · simp

/-- A line with a key is skipped if the key makes it a comment. -/
theorem isSkipped_append_cons_iff {left : List Char} (hleft : trim left ≠ [])
    (right : List Char) :
    IsSkipped (left ++ '=' :: right) ↔ (trim left).head? = some '#' := by
  have hne : trim (left ++ '=' :: right) ≠ [] := by simp [trim_append_cons isBlank_equals]
  rw [IsSkipped, or_iff_right hne, head?_trim_append_cons isBlank_equals hleft]

theorem Writable.assigns (h : Writable key value) :
    Assigns (key.toList ++ '=' :: value.toList) key value := by
  have hkey := trim_eq_self_iff.2 h.key_trimmed
  have hne : trim key.toList ≠ [] := by simpa [hkey] using h.key_ne
  refine ⟨?_, _, _, rfl, h.key_equals, hkey, h.key_ne, trim_eq_self_iff.2 h.value_trimmed⟩
  rw [isSkipped_append_cons_iff hne, hkey]
  exact h.key_comment

theorem Writable.propertyLines_eq (h : Writable key value) :
    propertyLines (key, value) = [key.toList ++ '=' :: value.toList] :=
  pieces_of_not_mem (by simp [h.key_lineFeed, h.value_lineFeed])

/-- Nothing that can be assigned needs more than its own line. -/
theorem Assigns.writable {line : List Char} (h : Assigns line key value) (hline : '\n' ∉ line) :
    Writable key value := by
  obtain ⟨hskip, left, right, rfl, hleft, hkey, hne, hvalue⟩ := h
  have hkey_ne : trim left ≠ [] := by simpa [hkey] using hne
  rw [isSkipped_append_cons_iff hkey_ne, hkey] at hskip
  rw [List.mem_append, List.mem_cons, not_or, not_or] at hline
  -- Whatever is in a side that was trimmed was in it before.
  exact {
    key_ne := hne
    key_trimmed := trim_eq_self_iff.1 (hkey ▸ trim_trim left)
    key_equals := fun hmem => hleft (mem_of_mem_trim (hkey ▸ hmem))
    key_lineFeed := fun hmem => hline.1 (mem_of_mem_trim (hkey ▸ hmem))
    key_comment := hskip
    value_trimmed := trim_eq_self_iff.1 (hvalue ▸ trim_trim right)
    value_lineFeed := fun hmem => hline.2.2 (mem_of_mem_trim (hvalue ▸ hmem)) }

/-! ### Whole records -/

/-- The lines of writable properties bind them one after another. -/
theorem foldlM_addLine_of_writable {bindings : List (String × String)}
    (h : ∀ binding ∈ bindings, Writable binding.1 binding.2) (entries : SortedMap String String) :
    (bindings.flatMap propertyLines).foldlM addLine entries =
      some (bindings.foldl (fun m b => m.insert b.1 b.2) entries) := by
  induction bindings generalizing entries with
  | nil => rfl
  | cons binding rest ih =>
      obtain ⟨key, value⟩ := binding
      have hwritable : Writable key value := h _ (List.mem_cons_self ..)
      have hline : addLine entries (key.toList ++ '=' :: value.toList) =
          some (entries.insert key value) :=
        addLine_eq_some_iff.2 (.inr ⟨key, value, hwritable.assigns, rfl⟩)
      rw [List.flatMap_cons, hwritable.propertyLines_eq, List.singleton_append, List.foldlM_cons,
        hline, Option.bind_eq_bind, Option.bind_some,
        ih (fun b hb => h b (List.mem_cons_of_mem _ hb)), List.foldl_cons]

/-- A well-formed record is read back from its text. -/
theorem WellFormed.parse?_properties (h : r.WellFormed) : parse? r.properties = some r := by
  have hwritable : ∀ binding ∈ r.entries.toList, Writable binding.1 binding.2 :=
    fun binding hmem => h.writable _ _ (SortedMap.mem_toList_iff.1 hmem)
  have hend (entries : SortedMap String String) : addLine entries [] = some entries :=
    addLine_eq_some_iff.2 (.inl ⟨.inl rfl, rfl⟩)
  have hentries : parseEntries? r.properties.toList = some r.entries := by
    rw [parseEntries?, properties, String.toList_ofList, pieces_lines, List.foldlM_append,
      foldlM_addLine_of_writable hwritable]
    -- The empty line at the end adds nothing.
    simp only [List.foldlM_cons, List.foldlM_nil, Option.bind_eq_bind, Option.bind_some, hend]
    exact congrArg some r.entries.ofList_toList
  obtain ⟨flag, hflag⟩ := h.flag
  have hformat : r.format?.isSome = true := by simp [format?, hflag]
  simp [parse?, hentries, hformat]

/-- The properties of a record that was read are what the lines assign last. -/
theorem get?_eq_some_iff_of_parse? (h : parse? text = some r) :
    r.get? key = some value ↔ SetsLast (pieces '\n' text.toList) key value := by
  simp only [parse?, Option.bind_eq_bind, Option.bind_eq_some_iff] at h
  obtain ⟨entries, hentries, h⟩ := h
  obtain rfl : ⟨entries⟩ = r := by
    split at h
    · exact Option.some.inj h
    · cases h
  have hread : ∀ line ∈ pieces '\n' text.toList, Readable line := by
    by_contra hread
    rw [parseEntries?, foldlM_addLine_eq_none (by simpa using hread)] at hentries
    cases hentries
  obtain ⟨entries', hfold, hget⟩ := foldlM_addLine hread SortedMap.empty
  rw [parseEntries?, hfold] at hentries
  obtain rfl := Option.some.inj hentries
  rw [get?, hget]
  simp

/-- Whatever a text holds as a record is well formed. -/
theorem wellFormed_of_parse? (h : parse? text = some r) : r.WellFormed := by
  have hwritable (key value : String) (hget : r.get? key = some value) : Writable key value := by
    obtain ⟨line, hline, hassigns⟩ := ((get?_eq_some_iff_of_parse? h).1 hget).exists_assigns
    exact hassigns.writable (not_mem_of_mem_pieces hline)
  refine ⟨hwritable, ?_⟩
  obtain ⟨format, hformat⟩ := Option.isSome_iff_exists.1 (isSome_format?_of_parse? h)
  obtain ⟨value, hvalue, htrim⟩ := format?_eq_some_iff.1 hformat
  rw [trim_eq_self_iff.2 (hwritable _ _ hvalue).value_trimmed] at htrim
  exact ⟨format.isPlain, hvalue.trans (congrArg some (String.toList_inj.1 htrim))⟩

/-- Exactly the well-formed records are read back from the texts that they are written as, and no
text holds another record. So a record that was read stays what it is from then on. -/
theorem record_codec :
    (∀ r : EngineRecord, parse? r.properties = some r ↔ r.WellFormed) ∧
      (∀ r : EngineRecord, (∃ text, parse? text = some r) ↔ r.WellFormed) ∧
      ∀ text, (parse? text).bind (fun r => parse? r.properties) = parse? text := by
  have hback (r : EngineRecord) (h : ∃ text, parse? text = some r) :
      parse? r.properties = some r := by
    obtain ⟨text, h⟩ := h
    exact (wellFormed_of_parse? h).parse?_properties
  refine ⟨fun r => ⟨wellFormed_of_parse?, WellFormed.parse?_properties⟩,
    fun r => ⟨?_, fun h => ⟨_, h.parse?_properties⟩⟩, fun text => ?_⟩
  · rintro ⟨text, h⟩
    exact wellFormed_of_parse? h
  · cases hparse : parse? text with
    | none => rfl
    | some r => exact hback r ⟨text, hparse⟩

/-- A carriage return at the end of a value is not read back, so such a record is none that a text
holds. -/
example : (parse? ((ofFormat .plain).set "owner" "a\r").properties) =
    some ((ofFormat .plain).set "owner" "a") := by
  decide +kernel

end PartitionStore.EngineRecord
