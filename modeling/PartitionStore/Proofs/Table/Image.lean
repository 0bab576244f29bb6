import PartitionStore.Proofs.Action
import PartitionStore.Proofs.SortedMap
import PartitionStore.Proofs.Table.Block
import PartitionStore.Table.File

/-!
# `PartitionStore.Proofs.Table.Image`: which bytes are a table's image

`IsImage` is the format of table files, stated without reading: the header, a
block, the block's checksum, and four bytes that mean nothing. The block may
hold several records of one key. The last one stands, and the count in the
header is that of the keys.

* `ofImage_eq_ok_iff`: reading accepts exactly this format.
* `read_eq_ok_iff_isImage`: so does reading a table file, and whatever else the
  file holds is reported as damage.
-/

set_option autoImplicit false

namespace PartitionStore

namespace Table

open LittleEndian

/-- The bytes of a table file that holds `table`. -/
inductive IsImage : List UInt8 → Table → Prop where
  /-- A `block` of `entries` between header and footer. A key of the table has the
  value of the last entry with this key. -/
  | intro {table : Table} {block padding : List UInt8}
      {entries : List (List UInt8 × List UInt8)}
      (isBlock : IsBlock block entries)
      (lastStands : ∀ key, table.entries.get? key = entries.reverse.lookup key)
      (fourBytes : padding.length = 4) :
      IsImage
        ([0x50, 0x4B, 0x56, 0x54] ++ toBytes 2 1 ++ [table.format.code] ++
          toBytes 8 table.entries.size ++ block ++
          toBytes 4 (Checksum.crc32 block).toNat ++ padding)
        table

/-! ### The fields of an image -/

section Fields

variable {magicField versionField countField checksumField padding : List UInt8}

/-- Bytes that are no shorter than header and footer have all fields. -/
theorem exists_fields {bytes : List UInt8} (h : headerSize + footerSize ≤ bytes.length) :
    ∃ magicField versionField code countField block checksumField padding,
      magicField.length = 4 ∧ versionField.length = 2 ∧ countField.length = 8 ∧
        checksumField.length = 4 ∧ padding.length = 4 ∧
        bytes = magicField ++ versionField ++ [code] ++ countField ++ block ++ checksumField ++
          padding := by
  have hsize : 23 ≤ bytes.length := h
  have hcode : (bytes.drop 6).take 1 = [bytes.getD 6 0] := by
    have hlt : 6 < bytes.length := by omega
    rw [List.take_one, List.head?_drop, List.getD, List.getElem?_eq_getElem hlt]
    rfl
  -- The block is what is left between fifteen bytes in front and eight behind.
  refine ⟨bytes.take 4, (bytes.drop 4).take 2, bytes.getD 6 0, (bytes.drop 7).take 8,
    (bytes.drop 15).take (bytes.length - 23), (bytes.drop (bytes.length - 8)).take 4,
    bytes.drop (bytes.length - 4), ?_, ?_, ?_, ?_, ?_, ?_⟩
  · simp; omega
  · simp; omega
  · simp; omega
  · simp; omega
  · simp; omega
  · -- Each field starts where the one before it ends.
    rw [← hcode]
    have join (a n : Nat) : bytes.take a ++ (bytes.drop a).take n = bytes.take (a + n) := by
      rw [List.take_add]
    rw [join 4 2, join 6 1, join 7 8, join 15 (bytes.length - 23),
      show 15 + (bytes.length - 23) = bytes.length - 8 by omega, join (bytes.length - 8) 4,
      show bytes.length - 8 + 4 = bytes.length - 4 by omega, List.take_append_drop]

theorem field_eq (front : List UInt8) {bytes data back : List UInt8} {start count : Nat}
    (h : bytes = front ++ (data ++ back)) (hstart : front.length = start)
    (hcount : data.length = count) : field bytes start count = data := by
  rw [h, field, List.drop_left' hstart, List.take_left' hcount]

/-- What reading makes of the fields. -/
theorem ofImage_fields (code : UInt8) (block : List UInt8) (hmagic : magicField.length = 4)
    (hversion : versionField.length = 2) (hcount : countField.length = 8)
    (hchecksum : checksumField.length = 4) (hpadding : padding.length = 4) :
    ofImage (magicField ++ versionField ++ [code] ++ countField ++ block ++ checksumField ++
        padding) =
      if magicField ≠ magic then .error .badMagic
      else if ofBytes versionField ≠ version then
        .error (.unsupportedVersion (ofBytes versionField))
      else match TableFormat.ofCode? code with
        | none => .error .unknownFormat
        | some format =>
          if (Checksum.crc32 block).toNat ≠ ofBytes checksumField then .error .checksumMismatch
          else match records block with
            | .error damage => .error damage
            | .ok found =>
              if toBytes 8 (SortedMap.ofList found).size ≠ countField then .error .countMismatch
              else .ok ⟨format, SortedMap.ofList found⟩ := by
  generalize hbytes : magicField ++ versionField ++ [code] ++ countField ++ block ++
    checksumField ++ padding = bytes
  have hlength : bytes.length = 23 + block.length := by
    rw [← hbytes]
    simp only [List.length_append, List.length_singleton, hmagic, hversion, hcount, hchecksum,
      hpadding]
    omega
  have h₀ : field bytes 0 4 = magicField :=
    field_eq [] (by rw [← hbytes]; simp only [List.append_assoc, List.nil_append]; rfl)
      rfl hmagic
  have h₁ : field bytes 4 2 = versionField :=
    field_eq magicField (by rw [← hbytes]; simp only [List.append_assoc]; rfl) hmagic hversion
  have h₂ : bytes.getD 6 0 = code := by
    rw [← hbytes]
    simp [List.getD, List.getElem?_append, hmagic, hversion]
  have h₃ : field bytes 7 8 = countField :=
    field_eq (magicField ++ versionField ++ [code])
      (by rw [← hbytes]; simp only [List.append_assoc]; rfl) (by simp [hmagic, hversion]) hcount
  have h₄ : field bytes headerSize (bytes.length - (headerSize + footerSize)) = block :=
    field_eq (magicField ++ versionField ++ [code] ++ countField)
      (by rw [← hbytes]; simp only [List.append_assoc]; rfl)
      (by simp [hmagic, hversion, hcount, headerSize])
      (show block.length = bytes.length - 23 by omega)
  have h₅ : field bytes (headerSize + (bytes.length - (headerSize + footerSize))) 4 =
      checksumField := by
    refine field_eq (magicField ++ versionField ++ [code] ++ countField ++ block)
      (by rw [← hbytes]; simp only [List.append_assoc]; rfl) ?_ hchecksum
    show _ = 15 + (bytes.length - 23)
    simp only [List.length_append, List.length_singleton, hmagic, hversion, hcount]
    omega
  rw [ofImage, if_neg (by show ¬bytes.length < 23; omega)]
  -- What is left is the definition itself.
  rewrite [h₀, h₁, h₂, h₃]
  dsimp only
  rewrite [h₄, h₅]
  rfl

end Fields

/-! ### Reading accepts exactly the images -/

/-- A format has two fixed bytes of version. -/
theorem version_field_iff {versionField : List UInt8} (h : versionField.length = 2) :
    ofBytes versionField = version ↔ versionField = toBytes 2 1 := by
  constructor
  · intro e
    have := toBytes_ofBytes versionField
    rw [h, e] at this
    exact this.symm
  · rintro rfl
    rfl

theorem checksum_field_iff {checksumField : List UInt8} (h : checksumField.length = 4)
    (checksum : UInt32) :
    checksum.toNat = ofBytes checksumField ↔ checksumField = toBytes 4 checksum.toNat := by
  constructor
  · intro e
    have := toBytes_ofBytes checksumField
    rw [h, ← e] at this
    exact this.symm
  · rintro rfl
    exact (ofBytes_toBytes checksum.toNat_lt).symm

/-- Reading accepts exactly the images, and finds their tables. -/
theorem ofImage_eq_ok_iff {bytes : List UInt8} {table : Table} :
    ofImage bytes = .ok table ↔ IsImage bytes table := by
  constructor
  · intro h
    by_cases hsize : bytes.length < headerSize + footerSize
    · simp [ofImage, hsize] at h
    obtain ⟨magicField, versionField, code, countField, block, checksumField, padding, hmagic,
      hversion, hcount, hchecksum, hpadding, rfl⟩ := exists_fields (Nat.not_lt.1 hsize)
    rw [ofImage_fields code block hmagic hversion hcount hchecksum hpadding] at h
    -- Each check that fails ends the reading, so all of them were passed.
    split at h
    · simp at h
    rename_i magicOk
    split at h
    · simp at h
    rename_i versionOk
    split at h
    · simp at h
    rename_i format formatOk
    split at h
    · simp at h
    rename_i checksumOk
    split at h
    · simp at h
    rename_i found recordsOk
    split at h
    · simp at h
    rename_i countOk
    simp only [ne_eq, Decidable.not_not] at magicOk versionOk checksumOk countOk
    obtain rfl := Except.ok.inj h
    rw [(version_field_iff hversion).1 versionOk, magicOk, ← countOk,
      (checksum_field_iff hchecksum _).1 checksumOk, TableFormat.ofCode?_eq_some_iff.1 formatOk]
    exact @IsImage.intro ⟨format, SortedMap.ofList found⟩ block padding found
      (records_eq_ok_iff.1 recordsOk) (SortedMap.get?_ofList found) hpadding
  · rintro ⟨isBlock, lastStands, fourBytes⟩
    rename_i block padding entries
    -- What the records add up to is the table, whatever their order was.
    have hentries : SortedMap.ofList entries = table.entries :=
      SortedMap.ext_get? fun key => by rw [SortedMap.get?_ofList, lastStands]
    rw [ofImage_fields _ _ rfl rfl (by simp) (by simp) fourBytes]
    have hversion : ofBytes (toBytes 2 1) = version := (version_field_iff rfl).2 rfl
    have hchecksum := (checksum_field_iff (length_toBytes 4 _) (Checksum.crc32 block)).2 rfl
    -- Each check of the reader is passed in turn.
    rw [if_neg (fun h => h rfl), if_neg (fun h => h hversion),
      TableFormat.ofCode?_eq_some_iff.2 rfl]
    show (if (Checksum.crc32 block).toNat ≠ _ then _ else _) = _
    rw [if_neg (fun h => h hchecksum), records_eq_ok_iff.2 isBlock]
    show (if toBytes 8 (SortedMap.ofList entries).size ≠ _ then _ else _) = _
    rw [hentries, if_neg (fun h => h rfl)]

/-- Bytes are the image of one table at most. -/
theorem IsImage.unique {bytes : List UInt8} {a b : Table} (ha : IsImage bytes a)
    (hb : IsImage bytes b) : a = b :=
  Except.ok.inj ((ofImage_eq_ok_iff.2 ha).symm.trans (ofImage_eq_ok_iff.2 hb))

@[simp] theorem length_header (format : TableFormat) (count : Nat) :
    (header format count).length = 15 := by
  simp [header, magic]

/-- An image is a header, a block with its checksum, and four bytes; the records of the block
add up to the table's entries. -/
theorem isImage_iff {bytes : List UInt8} {table : Table} :
    IsImage bytes table ↔ ∃ block entries padding,
      bytes = header table.format table.entries.size ++
          (block ++ toBytes 4 (Checksum.crc32 block).toNat) ++ padding ∧
        IsBlock block entries ∧ table.entries = SortedMap.ofList entries ∧ padding.length = 4 := by
  constructor
  · rintro ⟨isBlock, lastStands, fourBytes⟩
    rename_i block padding entries
    refine ⟨block, entries, padding, by simp [header, magic, version], isBlock, ?_, fourBytes⟩
    exact SortedMap.ext_get? fun key => by rw [SortedMap.get?_ofList, lastStands]
  · rintro ⟨block, entries, padding, rfl, isBlock, hentries, fourBytes⟩
    have h := IsImage.intro isBlock (fun key => hentries ▸ SortedMap.get?_ofList entries key)
      fourBytes
    simpa [header, magic, version] using h

/-- The image of a table whose entries fit is one. -/
theorem isImage_image {table : Table} (fits : ∀ entry ∈ table.entries.toList, Fits entry) :
    IsImage table.image table := by
  have h := @IsImage.intro table (block table.entries.toList) [0, 0, 0, 0] table.entries.toList
    (isBlock_block fits) (fun key => (table.entries.lookup_reverse_toList key).symm) rfl
  simpa [image, header, footer, magic, version] using h

/-- A table that was made without entries is read back as that. -/
theorem ofImage_image_empty (format : TableFormat) :
    ofImage (image ⟨format, SortedMap.empty⟩) = .ok ⟨format, SortedMap.empty⟩ :=
  ofImage_eq_ok_iff.2 (isImage_image (by simp [SortedMap.empty]))

/-- The image of a table has 23 bytes beside its block. -/
theorem length_image (table : Table) :
    table.image.length =
      23 + table.entries.toList.foldr (fun e others => 8 + e.1.length + e.2.length + others) 0 := by
  rw [← length_block]
  simp [image, header, footer, magic]
  omega

/-- What a file is read as hangs on its bytes alone. -/
theorem read_eq {t : FileTree} {p : Path} {bytes : Bytes} (h : t.read p = .ok bytes) :
    read p t = match ofImage bytes with
      | .ok table => .ok table t
      | .error damage => .error (.corruption p damage) t := by
  have hask : StoreAction.io (Files.ask (·.read p)) t = .ok bytes t :=
    StoreAction.io_of_ok (Files.ask_of_ok h)
  rw [read, Action.bind_of_ok hask]
  cases ofImage bytes <;> rfl

/-- A table file is read exactly when its bytes are an image, and yields the one
table of which they are. Any other file is reported as damaged, and stays as it is. -/
theorem read_eq_ok_iff_isImage {t : FileTree} {p : Path} {bytes : Bytes}
    (h : t.read p = .ok bytes) :
    (∀ table, read p t = .ok table t ↔ IsImage bytes table) ∧
      ((¬∃ table, IsImage bytes table) →
        ∃ damage, read p t = .error (.corruption p damage) t) ∧
      ∀ a b, IsImage bytes a → IsImage bytes b → a = b := by
  rw [read_eq h]
  refine ⟨?_, ?_, fun a b => IsImage.unique⟩
  · intro table
    rw [← ofImage_eq_ok_iff]
    cases ofImage bytes <;> simp
  · intro none
    cases hread : ofImage bytes with
    | ok table => exact absurd ⟨table, ofImage_eq_ok_iff.1 hread⟩ none
    | error damage => exact ⟨damage, rfl⟩

/-- A key that is recorded twice counts once, with its later value. -/
theorem read_repeated_key :
    ∃ t bytes, t.read ⟨"data.tbl"⟩ = .ok bytes ∧
      read ⟨"data.tbl"⟩ t = .ok ⟨.blockBased, SortedMap.ofList [([97], [2])]⟩ t := by
  let entries : List (List UInt8 × List UInt8) := [([97], [1]), ([97], [2])]
  have same : SortedMap.ofList entries = SortedMap.ofList [([97], [2])] := by decide
  have fits : ∀ entry ∈ entries, Fits entry := by decide
  obtain ⟨bytes, himage⟩ : ∃ bytes, IsImage bytes ⟨.blockBased, SortedMap.ofList entries⟩ :=
    ⟨_, @IsImage.intro ⟨.blockBased, SortedMap.ofList entries⟩ (block entries) [0, 0, 0, 0]
      entries (isBlock_block fits) (SortedMap.get?_ofList entries) rfl⟩
  have hread : (FileTree.empty.place [] "data.tbl" (.file bytes)).read ⟨"data.tbl"⟩ = .ok bytes :=
    rfl
  exact ⟨_, bytes, hread, ((read_eq_ok_iff_isImage hread).1 _).2 (same ▸ himage)⟩

end Table

end PartitionStore
