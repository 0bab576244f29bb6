import PartitionStore.EngineRecord.File
import PartitionStore.Proofs.Action
import PartitionStore.Proofs.EngineRecord.RoundTrip

/-!
# `PartitionStore.Proofs.EngineRecord.Torn`: records that were cut short

A file that was not written to its end holds the first bytes of what it was to hold. Where the cut
is inside a character these are no text. Where they are, it is the beginning of the record's text:
whole lines of it and a part of one more. Such a part assigns nothing, or assigns to the property of
its line a part of that property's value, and of the flag's value no part but the whole is a flag.

* `toList_prefix_of_encode`: the bytes of a text begin with those of no other text but its own
  beginnings.
* `pieces_of_prefix`: a text that is cut short has the lines of the whole, up to one cut short.
* `format?_of_torn`: a record that is read from the beginning of a record's text tells the format
  that the record tells.
-/

set_option autoImplicit false

namespace PartitionStore

/-! ### Beginnings of texts -/

namespace Text

/-- The bytes of a text are those of its characters. -/
theorem encode_ofList (cs : List Char) :
    encode (String.ofList cs) = cs.flatMap String.utf8EncodeChar := by
  simp [encode, List.utf8Encode]

/-- Characters are told from the bytes that they start. -/
theorem eq_of_utf8EncodeChar_append {c c' : Char} {rest rest' : List UInt8}
    (h : String.utf8EncodeChar c ++ rest = String.utf8EncodeChar c' ++ rest') : c = c' := by
  have hdecode (c : Char) (rest : List UInt8) :
      ((String.utf8EncodeChar c).toByteArray ++ rest.toByteArray).utf8DecodeChar? 0 = some c :=
    ByteArray.utf8DecodeChar?_utf8EncodeChar_append
  have hchar := hdecode c rest
  rw [← List.toByteArray_append, h, List.toByteArray_append, hdecode] at hchar
  exact (Option.some.inj hchar).symm

/-- If the bytes of characters are the front of those of others, so are the characters: the bytes of
one tell where it ends. -/
theorem prefix_of_flatMap_utf8EncodeChar {cs cs' : List Char}
    (h : cs.flatMap String.utf8EncodeChar <+: cs'.flatMap String.utf8EncodeChar) : cs <+: cs' := by
  induction cs generalizing cs' with
  | nil => exact List.nil_prefix
  | cons c cs ih =>
      obtain ⟨more, hmore⟩ := h
      rw [List.flatMap_cons, List.append_assoc] at hmore
      cases cs' with
      | nil =>
          rw [List.flatMap_nil, List.append_eq_nil_iff] at hmore
          exact absurd hmore.1 String.utf8EncodeChar_ne_nil
      | cons c' cs' =>
          rw [List.flatMap_cons] at hmore
          obtain rfl := eq_of_utf8EncodeChar_append hmore
          exact List.cons_prefix_cons.2 ⟨rfl, ih ⟨more, List.append_cancel_left hmore⟩⟩

/-- The bytes of a text begin with those of no other text but its own beginnings. -/
theorem toList_prefix_of_encode {s s' : String} (h : encode s <+: encode s') :
    s.toList <+: s'.toList := by
  rw [← String.ofList_toList (s := s), ← String.ofList_toList (s := s'), encode_ofList,
    encode_ofList] at h
  exact prefix_of_flatMap_utf8EncodeChar h

/-- A text that is cut short has the pieces of the whole, up to one that is cut short. -/
theorem pieces_of_prefix {separator : Char} {cut whole : List Char} (h : cut <+: whole) :
    ∃ front part full back, pieces separator cut = front ++ [part] ∧
      pieces separator whole = front ++ full :: back ∧ part <+: full := by
  induction cut generalizing whole with
  | nil =>
      obtain ⟨full, back, hwhole⟩ := List.exists_cons_of_ne_nil (pieces_ne_nil separator whole)
      exact ⟨[], [], full, back, rfl, hwhole, List.nil_prefix⟩
  | cons c cut ih =>
      obtain ⟨rest, rfl, hrest⟩ := List.cons_prefix_iff.1 h
      obtain ⟨front, part, full, back, hcut, hwhole, hpart⟩ := ih hrest
      rw [pieces, pieces, hcut, hwhole]
      split
      · exact ⟨[] :: front, part, full, back, rfl, rfl, hpart⟩
      · -- The character goes to the first piece, which is the last one if there is no other.
        cases front with
        | nil =>
            exact ⟨[], c :: part, c :: full, back, rfl, rfl, List.cons_prefix_cons.2 ⟨rfl, hpart⟩⟩
        | cons first front => exact ⟨(c :: first) :: front, part, full, back, rfl, rfl, hpart⟩

/-- Each piece of a text that was cut off is the front of a piece of the whole. -/
theorem exists_piece_of_prefix {separator : Char} {cut whole piece : List Char}
    (h : cut <+: whole) (hpiece : piece ∈ pieces separator cut) :
    ∃ full ∈ pieces separator whole, piece <+: full := by
  obtain ⟨front, part, full, back, hcut, hwhole, hpart⟩ := pieces_of_prefix h
  rw [hcut, List.mem_append, List.mem_singleton] at hpiece
  rw [hwhole]
  rcases hpiece with hfront | rfl
  · exact ⟨piece, List.mem_append_left _ hfront, List.prefix_refl piece⟩
  · exact ⟨full, by simp, hpart⟩

end Text

/-! ### Beginnings of records -/

namespace EngineRecord

open Text
open EngineSettings (pieces_lines)

variable {key key' value value' : String} {line part : List Char} {r r' : EngineRecord}
  {text : String}

/-- What the beginning of a property's line assigns, it assigns to that property, and the value is
the beginning of the property's. -/
theorem Assigns.of_prefix (h : Assigns part key' value') (hwritable : Writable key value)
    (cut : part <+: key.toList ++ '=' :: value.toList) :
    key' = key ∧ ∃ front, front <+: value.toList ∧ trim front = value'.toList := by
  obtain ⟨-, left, right, rfl, hleft, hkey, -, hvalue⟩ := h
  obtain ⟨more, hmore⟩ := cut
  rw [List.append_assoc, List.cons_append] at hmore
  -- A line has one first equals sign, and both lines are cut there.
  have hcut := splitFirst?_eq_some_iff.2 ⟨hmore.symm, hleft⟩
  have hcut' : splitFirst? '=' (key.toList ++ '=' :: value.toList) =
      some (key.toList, value.toList) :=
    splitFirst?_eq_some_iff.2 ⟨rfl, hwritable.key_equals⟩
  obtain ⟨rfl, hright⟩ := Prod.mk.inj (Option.some.inj (hcut.symm.trans hcut'))
  rw [trim_eq_self_iff.2 hwritable.key_trimmed, String.toList_inj] at hkey
  exact ⟨hkey.symm, right, ⟨more, hright⟩, hvalue⟩

/-- No beginning of a flag is another flag. -/
theorem eq_of_trim_prefix {flag flag' : Bool} {front : List Char}
    (h : front <+: (flagText flag).toList) (htrim : trim front = (flagText flag').toList) :
    flag' = flag := by
  have hlength : (flagText flag).toList.length < 6 := by cases flag <;> decide
  have hcuts : ∀ n < 6, trim ((flagText flag).toList.take n) = (flagText flag').toList →
      flag' = flag := by
    cases flag <;> cases flag' <;> decide +kernel
  rw [List.prefix_iff_eq_take.1 h] at htrim
  exact hcuts _ (Nat.lt_of_le_of_lt h.length_le hlength) htrim

/-- The format is that of the flag. -/
theorem format?_of_get? {flag : Bool} (h : r.get? flagKey = some (flagText flag)) :
    r.format? = some (TableFormat.ofFlag flag) := by
  simp [format?, h]

/-- The lines of a well-formed record's text, but for the empty one at its end, are those of its
properties. -/
theorem WellFormed.eq_of_mem_pieces (h : r.WellFormed)
    (hline : line ∈ pieces '\n' r.properties.toList) :
    line = [] ∨ ∃ key value, r.get? key = some value ∧
      line = key.toList ++ '=' :: value.toList := by
  rw [properties, String.toList_ofList, pieces_lines, List.mem_append, List.mem_singleton,
    List.mem_flatMap] at hline
  rcases hline with ⟨⟨key, value⟩, hmem, hline⟩ | rfl
  · have hget := SortedMap.mem_toList_iff.1 hmem
    rw [(h.writable _ _ hget).propertyLines_eq, List.mem_singleton] at hline
    exact .inr ⟨key, value, hget, hline⟩
  · exact .inl rfl

/-- A record that is read from the beginning of a record's text tells the format that the record
tells. -/
theorem format?_of_torn (h : r.WellFormed) (cut : text.toList <+: r.properties.toList)
    (hparse : parse? text = some r') : r'.format? = r.format? := by
  obtain ⟨flag, hflag⟩ := h.flag
  obtain ⟨flag', hflag'⟩ := (wellFormed_of_parse? hparse).flag
  obtain ⟨part, hpart, hassigns⟩ :=
    ((get?_eq_some_iff_of_parse? hparse).1 hflag').exists_assigns
  obtain ⟨line, hline, hcut⟩ := exists_piece_of_prefix cut hpart
  -- The line that sets the flag is one of the flag's own line's beginnings.
  rcases h.eq_of_mem_pieces hline with rfl | ⟨key, value, hget, rfl⟩
  · obtain rfl := List.prefix_nil.1 hcut
    exact absurd (.inl rfl) hassigns.1
  · obtain ⟨rfl, front, hfront, htrim⟩ := hassigns.of_prefix (h.writable _ _ hget) hcut
    obtain rfl := Option.some.inj (hget.symm.trans hflag)
    obtain rfl := eq_of_trim_prefix hfront htrim
    rw [format?_of_get? hflag, format?_of_get? hflag']

/-- The text of a file is that of its bytes, if they are one. -/
theorem readText_of_read {t : FileTree} {p : Path} {data : Bytes} (hread : t.read p = .ok data) :
    readText t p = match decode? data with
      | some text => .ok text
      | none => .error .notUtf8 := by
  rw [readText, hread]
  rfl

/-- The record that is read from a file of its bytes is what is parsed from its text. -/
theorem read_of_bytes {t : FileTree} {p : Path} (hread : t.read p = .ok r.bytes) :
    EngineRecord.read p t = .ok (parse? r.properties) t := by
  have htext : readText t p = .ok r.properties := by
    rw [readText_of_read hread, bytes, decode?_encode]
  exact StoreAction.io_of_ok (Files.ask_of_ok (by rw [readFrom, htext]))

/-- Reading the first bytes of a record's file comes to an answer, and that is no record or one of
the same format. -/
theorem read_of_torn {t : FileTree} {p : Path} {torn : Bytes} (h : r.WellFormed)
    (cut : torn <+: r.bytes) (hread : t.read p = .ok torn) :
    ∃ found, EngineRecord.read p t = .ok found t ∧ ∀ r' ∈ found, r'.format? = r.format? := by
  cases hdecode : decode? torn with
  | none =>
      refine ⟨none, ?_, by simp⟩
      have htext : readText t p = .error .notUtf8 := by rw [readText_of_read hread, hdecode]
      exact StoreAction.io_of_ok (Files.ask_of_ok (by rw [readFrom, htext]))
  | some text =>
      have htext : readText t p = .ok text := by rw [readText_of_read hread, hdecode]
      refine ⟨parse? text, StoreAction.io_of_ok (Files.ask_of_ok (by rw [readFrom, htext])), ?_⟩
      intro r' hr'
      rw [decode?_eq_some_iff.1 hdecode] at cut
      exact format?_of_torn h (toList_prefix_of_encode cut) hr'

end EngineRecord

end PartitionStore
