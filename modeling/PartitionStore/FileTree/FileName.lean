/-!
# `PartitionStore.FileTree.FileName`: names that are no text

A file name is a string of bytes. Most are the UTF-8 bytes of a text, and then the text stands for
the name. In others there are bytes that belong to no character. In the text that stands for such a
name each of these bytes is written as two characters: U+0000, which is in no name itself, and the
character whose number is the byte. `ofBytes` writes a name so and `bytesOf` reads it back;
`isWritten` tells the texts that stand for a name.

Who wants to see such a name as a text gets its `reading`, in which every broken piece of a character
is replaced by U+FFFD. So the reading of one name may be another name.

* `reading_of_text`, `isWritten_of_text`, `byteLength_of_text`: a name that is a text is read as
  itself.
-/

set_option autoImplicit false

namespace PartitionStore.FileName

/-- What stands before the character for a byte. -/
def mark : Char := Char.ofNat 0

/-- What stands for a broken piece of a character in the reading of a name. -/
def replacement : Char := Char.ofNat 0xFFFD

/-! ### From names to bytes -/

/-- The bytes of the name that characters stand for. -/
def bytesOf : List Char → List UInt8
  | [] => []
  | [c] => String.utf8EncodeChar c
  | c :: d :: rest =>
    if c = mark then UInt8.ofNat d.toNat :: bytesOf rest
    else String.utf8EncodeChar c ++ bytesOf (d :: rest)

/-- How many bytes a name has. -/
def byteLength (name : String) : Nat := (bytesOf name.toList).length

/-! ### From bytes to names -/

/-- The character that bytes begin with. -/
def first? (bytes : List UInt8) : Option Char := bytes.toByteArray.utf8DecodeChar? 0

/-- Whether a character of three or four bytes may begin with these two. The bounds keep out what
has a shorter form, the surrogates, and what lies behind the last character. -/
def mayBegin (lead second : UInt8) : Bool :=
  let least := if lead = 0xE0 then 0xA0 else if lead = 0xF0 then 0x90 else 0x80
  let greatest := if lead = 0xED then 0x9F else if lead = 0xF4 then 0x8F else 0xBF
  0xE0 ≤ lead && lead ≤ 0xF4 && least ≤ second && second ≤ greatest

/-- How many bytes, where bytes begin with no character, are together the broken piece of one:
as many as a character may begin with, and at least one. -/
def brokenSize : List UInt8 → Nat
  | lead :: second :: rest =>
    if mayBegin lead second then
      match rest with
      | third :: _ => if 0xF0 ≤ lead ∧ 0x80 ≤ third ∧ third ≤ 0xBF then 3 else 2
      | [] => 2
    else 1
  | _ => 1

/-- The characters of bytes, with `broken` for each broken piece of a character. The first `skip`
bytes are passed over, as they belong to what was told already. -/
def charsFrom (broken : List UInt8 → List Char) : (skip : Nat) → List UInt8 → List Char
  | _, [] => []
  | skip + 1, _ :: rest => charsFrom broken skip rest
  | 0, b :: rest =>
    match first? (b :: rest) with
    | some c => c :: charsFrom broken (c.utf8Size - 1) rest
    | none =>
      let size := brokenSize (b :: rest)
      broken ((b :: rest).take size) ++ charsFrom broken (size - 1) rest

/-- How a byte that belongs to no character is written. -/
def written (b : UInt8) : List Char := [mark, Char.ofNat b.toNat]

/-- The text that stands for the name with these bytes. -/
def ofBytes (bytes : List UInt8) : String :=
  String.ofList (charsFrom (·.flatMap written) 0 bytes)

/-- Whether the text stands for a name. One without the mark stands for itself. One with it has to
be written as `ofBytes` writes, and no name has a byte that is zero. -/
def isWritten (name : String) : Bool :=
  let bytes := bytesOf name.toList
  !name.toList.contains mark || (!bytes.contains 0 && ofBytes bytes == name)

/-- The name as a text, with U+FFFD for every broken piece of a character. -/
def reading (name : String) : String :=
  String.ofList (charsFrom (fun _ => [replacement]) 0 (bytesOf name.toList))

/-! ### Names that are texts -/

variable {cs : List Char} {name : String} {broken : List UInt8 → List Char}

/-- The name that a text stands for has the bytes of its characters. -/
theorem bytesOf_of_text (h : mark ∉ cs) : bytesOf cs = cs.flatMap String.utf8EncodeChar := by
  induction cs using bytesOf.induct with
  | case1 => rfl
  | case2 c => simp [bytesOf]
  | case3 d rest => exact absurd (List.mem_cons_self ..) h
  | case4 c d rest hc ih =>
      have hrest : mark ∉ d :: rest := fun hmem => h (List.mem_cons_of_mem _ hmem)
      rw [bytesOf, if_neg hc, ih hrest]
      rfl

/-- The character whose bytes come first is found. -/
theorem first?_utf8EncodeChar_append (c : Char) (bytes : List UInt8) :
    first? (String.utf8EncodeChar c ++ bytes) = some c := by
  rw [first?, List.toByteArray_append]
  exact ByteArray.utf8DecodeChar?_utf8EncodeChar_append

/-- Bytes that were told are passed over. -/
theorem charsFrom_append (front bytes : List UInt8) :
    charsFrom broken front.length (front ++ bytes) = charsFrom broken 0 bytes := by
  induction front with
  | nil => rfl
  | cons b front ih => exact ih

/-- The bytes of a character are read as it, and the rest is read on. -/
theorem charsFrom_utf8EncodeChar_append (c : Char) (bytes : List UInt8) :
    charsFrom broken 0 (String.utf8EncodeChar c ++ bytes) = c :: charsFrom broken 0 bytes := by
  have hfirst := first?_utf8EncodeChar_append c bytes
  have hlength := String.length_utf8EncodeChar c
  cases hbytes : String.utf8EncodeChar c with
  | nil => exact absurd hbytes String.utf8EncodeChar_ne_nil
  | cons b more =>
      rw [hbytes, List.cons_append] at hfirst
      rw [hbytes, List.length_cons] at hlength
      have hskip : c.utf8Size - 1 = more.length := by omega
      rw [List.cons_append, charsFrom, hfirst]
      simp only
      rw [hskip, charsFrom_append]

/-- The bytes of characters are read as these characters: there is no broken piece among them. -/
theorem charsFrom_of_text (cs : List Char) :
    charsFrom broken 0 (cs.flatMap String.utf8EncodeChar) = cs := by
  induction cs with
  | nil => rfl
  | cons c cs ih => rw [List.flatMap_cons, charsFrom_utf8EncodeChar_append, ih]

/-- A text is read as itself. -/
theorem reading_of_text (h : mark ∉ name.toList) : reading name = name := by
  rw [reading, bytesOf_of_text h, charsFrom_of_text, String.ofList_toList]

/-- A text without the mark is a name. -/
theorem isWritten_of_text (h : mark ∉ name.toList) : isWritten name = true := by
  simp [isWritten, h]

/-- A name that is a text has as many bytes as the text. -/
theorem byteLength_of_text (h : mark ∉ name.toList) : byteLength name = name.utf8ByteSize := by
  have hsize : name.utf8ByteSize = name.toList.utf8Encode.size := by
    rw [← String.toByteArray_ofList, String.ofList_toList]
    rfl
  rw [byteLength, bytesOf_of_text h, hsize, List.utf8Encode, List.size_toByteArray]

end PartitionStore.FileName
