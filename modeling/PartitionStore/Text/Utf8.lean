/-!
# `PartitionStore.Text.Utf8`: text as the bytes of a file

`encode` gives the bytes that a text is stored as and `decode?` reads them
back; `decode?_eq_some_iff` says that reading accepts exactly what encoding
produces.
-/

set_option autoImplicit false

namespace PartitionStore.Text

/-- The bytes that a text is stored as. -/
def encode (s : String) : List UInt8 := s.toByteArray.data.toList

/-- The text that bytes store, or `none` if they are not UTF-8. -/
def decode? (bytes : List UInt8) : Option String := String.fromUTF8? ⟨bytes.toArray⟩

/-- Bytes are read as a text exactly when that text is stored as them. -/
theorem decode?_eq_some_iff {bytes : List UInt8} {s : String} :
    decode? bytes = some s ↔ bytes = encode s := by
  unfold decode? String.fromUTF8? encode
  constructor
  · intro h
    split at h
    · rw [← Option.some.inj h]
      rfl
    · simp at h
  · rintro rfl
    have hb : (⟨s.toByteArray.data.toList.toArray⟩ : ByteArray) = s.toByteArray := by simp
    rw [hb, dif_pos s.isValidUTF8]
    rfl

/-- The bytes of a text are read as that text. -/
@[simp] theorem decode?_encode (s : String) : decode? (encode s) = some s :=
  decode?_eq_some_iff.2 rfl

end PartitionStore.Text
