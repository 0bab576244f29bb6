import PartitionStore.FileTree.Resolve

/-!
# `PartitionStore.Proofs.Path`: paths of names below a directory

A path text is looked at before it is walked: it may hold no U+0000, must not
be empty and has an upper bound to its length. `Path.HasRoom p n` says that `p`
passes and will do so with `n` more bytes, so that what is composed below `p`
passes too (`hasRoom_join_iff`).

* `checkText_of_hasRoom`: such texts pass.
* `withExtension_join`: a file's scratch file is beside it.
-/

set_option autoImplicit false

namespace PartitionStore

namespace Path

variable {p : Path} {name : String}

/-- The path ends in no slash, can be walked, and could with `n` bytes more. -/
structure HasRoom (p : Path) (n : Nat) : Prop where
  noNul : Char.ofNat 0 ∉ p.text.toList
  nonempty : p.text ≠ ""
  noSlash : p.endsWithSlash = false
  short : p.text.utf8ByteSize + n ≤ maxBytes

/-- Room for more is room for less. -/
theorem HasRoom.mono {m n : Nat} (h : p.HasRoom n) (hle : m ≤ n) : p.HasRoom m :=
  ⟨h.noNul, h.nonempty, h.noSlash, Nat.le_trans (Nat.add_le_add_left hle _) h.short⟩

/-- Once a path has any room, how much of it is a matter of its length. -/
theorem HasRoom.iff_short {m n : Nat} (h : p.HasRoom m) :
    p.HasRoom n ↔ p.text.utf8ByteSize + n ≤ maxBytes :=
  ⟨fun h' => h'.short, fun hle => ⟨h.noNul, h.nonempty, h.noSlash, hle⟩⟩

/-- A text can be a path exactly if it has no U+0000, is not empty and is short enough. -/
theorem checkText_eq_ok_iff : FileTree.checkText p = .ok () ↔
    Char.ofNat 0 ∉ p.text.toList ∧ p.text ≠ "" ∧ p.text.utf8ByteSize ≤ maxBytes := by
  rw [FileTree.checkText]
  split
  · simp_all
  split
  · simp_all
  split <;> simp_all

/-- A path with any room can be walked. -/
theorem checkText_of_hasRoom {n : Nat} (h : p.HasRoom n) : FileTree.checkText p = .ok () :=
  checkText_eq_ok_iff.2 ⟨h.noNul, h.nonempty, Nat.le_of_add_right_le h.short⟩

/-- A path that can be walked, and ends in no slash, has room for itself. -/
theorem hasRoom_of_checkText (h : FileTree.checkText p = .ok ())
    (hslash : p.endsWithSlash = false) : p.HasRoom 0 := by
  obtain ⟨hnul, hempty, hshort⟩ := checkText_eq_ok_iff.1 h
  exact ⟨hnul, hempty, hslash, hshort⟩

/-! ### Plain names below a path -/

/-- A plain name has no slash. -/
theorem not_mem_of_isPlainName (h : isPlainName name = true) : '/' ∉ name.toList := by
  simp only [isPlainName, Bool.and_eq_true, Bool.not_eq_true'] at h
  simpa using h.2

/-- A plain name has a character. -/
theorem toList_ne_nil_of_isPlainName (h : isPlainName name = true) : name.toList ≠ [] := by
  intro e
  simp only [isPlainName, Bool.and_eq_true, bne_iff_ne, ne_eq] at h
  exact h.1.1.1 (String.toList_inj.1 (e.trans (by rfl : [] = "".toList)))

/-- What comes before a plain name in the text of a composed path. -/
theorem exists_join_eq (p : Path) (h : isPlainName name = true) :
    ∃ before, (p.join name).text.toList = before ++ name.toList ∧
      (before = [] ∨ before.getLast? = some '/') ∧
      ∀ other, isPlainName other = true →
        (p.join other).text.toList = before ++ other.toList := by
  have key : ∀ other, isPlainName other = true → (p.join other).text.toList =
      (if p.text.isEmpty || p.endsWithSlash then p.text.toList else p.text.toList ++ ['/']) ++
        other.toList := by
    intro other hother
    have hslash : "/".toList = ['/'] := rfl
    rw [join, not_isAbsolute_of_isPlainName hother, if_neg Bool.false_ne_true]
    split
    · rw [String.toList_append]
    · rw [String.toList_append, String.toList_append, hslash]
  refine ⟨_, key name h, ?_, key⟩
  split
  · rename_i hp
    rcases Bool.or_eq_true_iff.1 hp with hp | hp
    · exact .inl (by simpa [String.isEmpty_iff] using hp)
    · exact .inr (by simpa [endsWithSlash] using hp)
  · exact .inr (by simp)

/-- What is composed with a plain name ends in its last character, and that is no slash. -/
theorem endsWithSlash_join (p : Path) (h : isPlainName name = true) :
    (p.join name).endsWithSlash = false := by
  obtain ⟨before, htext, -⟩ := exists_join_eq p h
  have hne : name.toList.getLast? ≠ some '/' := fun e =>
    not_mem_of_isPlainName h (List.mem_of_getLast? e)
  cases hlast : name.toList.getLast? with
  | none => exact absurd (List.getLast?_eq_none_iff.1 hlast) (toList_ne_nil_of_isPlainName h)
  | some c =>
      rw [hlast] at hne
      simpa [endsWithSlash, htext, List.getLast?_append, hlast] using hne

/-- What is composed with a plain name is not empty. -/
theorem text_join_ne (p : Path) (h : isPlainName name = true) : (p.join name).text ≠ "" := by
  obtain ⟨before, htext, -⟩ := exists_join_eq p h
  intro e
  rw [e] at htext
  have hnil : before ++ name.toList = [] := htext.symm
  exact toList_ne_nil_of_isPlainName h (List.append_eq_nil_iff.1 hnil).2

/-- Composing uses up the room for a slash and the name. -/
theorem hasRoom_join_iff {n : Nat} (hp : p.text ≠ "") (hslash : p.endsWithSlash = false)
    (h : isPlainName name = true) :
    (p.join name).HasRoom n ↔
      p.HasRoom (1 + name.utf8ByteSize + n) ∧ Char.ofNat 0 ∉ name.toList := by
  have htext : (p.join name).text = p.text ++ "/" ++ name := by
    have hempty : p.text.isEmpty = false := by
      simpa [String.isEmpty_iff] using hp
    rw [join, not_isAbsolute_of_isPlainName h]
    simp [hempty, hslash]
  have hsize : (p.join name).text.utf8ByteSize = p.text.utf8ByteSize + 1 + name.utf8ByteSize := by
    rw [htext, String.utf8ByteSize_append, String.utf8ByteSize_append]
    rfl
  have hnul : Char.ofNat 0 ∉ (p.join name).text.toList ↔
      Char.ofNat 0 ∉ p.text.toList ∧ Char.ofNat 0 ∉ name.toList := by
    have hone : "/".toList = ['/'] := rfl
    have hne : ¬Char.ofNat 0 = '/' := by decide
    rw [htext, String.toList_append, String.toList_append, hone]
    simp [hne]
  constructor
  · intro hroom
    have := hroom.short
    rw [hsize] at this
    obtain ⟨h₁, h₂⟩ := hnul.1 hroom.noNul
    exact ⟨⟨h₁, hp, hslash, by omega⟩, h₂⟩
  · rintro ⟨hroom, hname⟩
    have := hroom.short
    refine ⟨hnul.2 ⟨hroom.noNul, hname⟩, ?_, endsWithSlash_join p h, by rw [hsize]; omega⟩
    rw [htext]
    intro e
    have := congrArg String.utf8ByteSize e
    simp only [String.utf8ByteSize_append] at this
    have hone : "/".utf8ByteSize = 1 := rfl
    have hzero : "".utf8ByteSize = 0 := rfl
    omega

/-- What is too long, or has U+0000 in it, is so too with a name behind it. -/
theorem checkText_of_join (h : isPlainName name = true) (hp : p.text ≠ "")
    (hjoin : FileTree.checkText (p.join name) = .ok ()) : FileTree.checkText p = .ok () := by
  have hroom := hasRoom_of_checkText hjoin (endsWithSlash_join p h)
  obtain ⟨back, htext⟩ : ∃ back, (p.join name).text = p.text ++ back := by
    rw [join, not_isAbsolute_of_isPlainName h, if_neg Bool.false_ne_true]
    split
    · exact ⟨name, rfl⟩
    · exact ⟨"/" ++ name, String.append_assoc ..⟩
  have hnul : Char.ofNat 0 ∉ p.text.toList := by
    intro hmem
    refine hroom.noNul ?_
    rw [htext, String.toList_append]
    exact List.mem_append_left _ hmem
  have hshort : p.text.utf8ByteSize ≤ maxBytes := by
    have := hroom.short
    rw [htext, String.utf8ByteSize_append] at this
    omega
  exact checkText_eq_ok_iff.2 ⟨hnul, hp, hshort⟩

/-- Nothing is dropped from a text whose last name is neither empty nor a point. -/
theorem dropTail_append {front back : List Char} (hne : front ≠ []) (hslash : '/' ∉ front)
    (hdot : front ≠ ['.']) : dropTail (front ++ back) = front ++ back := by
  obtain ⟨c, rest, rfl⟩ := List.exists_cons_of_ne_nil hne
  unfold dropTail
  split
  · rename_i e
    exact absurd ((List.cons.inj e).1 ▸ List.mem_cons_self ..) hslash
  · rename_i e
    -- A dot before a slash would be all of the name.
    obtain ⟨rfl, htail⟩ := List.cons.inj e
    cases rest with
    | nil => exact absurd rfl hdot
    | cons d rest =>
        obtain ⟨rfl, -⟩ := List.cons.inj htail
        exact absurd (by simp) hslash
  · rfl

/-- A plain name at the end of a path is its file name, and nothing follows it. -/
theorem fileName?_join (p : Path) (h : isPlainName name = true) :
    ∃ before, (p.join name).fileName? = some (before, name.toList, []) ∧
      ∀ other, isPlainName other = true →
        (p.join other).text.toList = before ++ other.toList := by
  obtain ⟨before, htext, hbefore, hother⟩ := exists_join_eq p h
  have hslash := not_mem_of_isPlainName h
  have hpiece := ofPiece?_of_isPlainName h
  have hnil : name.toList ≠ [] := fun e => by simp [e, Step.ofPiece?] at hpiece
  have hdot : name.toList ≠ ['.'] := fun e => by simp [e, Step.ofPiece?] at hpiece
  have hdots : name.toList ≠ ['.', '.'] := fun e => by simp [e, Step.ofPiece?] at hpiece
  -- Read from behind, the text is the name up to the first slash, if there is one.
  have hbody : dropTail (p.join name).text.toList.reverse =
      name.toList.reverse ++ before.reverse := by
    rw [htext, List.reverse_append]
    refine dropTail_append (by simpa using hnil) (by simpa using hslash) fun e => hdot ?_
    rw [← List.reverse_reverse name.toList, e]
    rfl
  have hkeep : ∀ c ∈ name.toList.reverse, (c != '/') = true := by
    intro c hc
    have : c ≠ '/' := fun e => hslash (e ▸ List.mem_reverse.1 hc)
    simpa using this
  have hstop : before.reverse.takeWhile (· != '/') = [] ∧
      before.reverse.dropWhile (· != '/') = before.reverse := by
    rcases hbefore with rfl | hlast
    · exact ⟨rfl, rfl⟩
    · obtain ⟨front, rfl⟩ := List.getLast?_eq_some_iff.1 hlast
      simp
  refine ⟨before, ?_, hother⟩
  rw [fileName?]
  simp only [hbody]
  rw [List.takeWhile_append_of_pos hkeep, List.dropWhile_append_of_pos hkeep, hstop.1, hstop.2,
    List.append_nil, List.reverse_reverse, List.reverse_reverse,
    if_neg (by simp [hnil, hdot, hdots]), htext]
  simp

/-- Exchanging the extension of a plain name below a path gives another name below it. -/
theorem withExtension_join (p : Path) {extension new : String} (h : isPlainName name = true)
    (hnew : new.toList = stem name.toList ++ '.' :: extension.toList)
    (hstem : stem name.toList ≠ ['.']) (hplain : isPlainName new = true) :
    (p.join name).withExtension extension = p.join new := by
  obtain ⟨before, hfile, hother⟩ := fileName?_join p h
  rw [withExtension, hfile]
  simp only [hstem, false_and, if_false]
  have htext : String.ofList (p.join new).text.toList = (p.join new).text :=
    String.ofList_toList ..
  rw [List.append_assoc, ← hnew, ← hother new hplain, htext]

/-! ### Paths of any length -/

/-- A path of dots, which is as long as need be and leads nowhere else. -/
def dots : Nat → Path
  | 0 => ⟨"."⟩
  | n + 1 => ⟨(dots n).text ++ "/."⟩

/-- A point and a slash are two bytes, and the last point has no slash behind it. -/
theorem size_dots (n : Nat) : (dots n).text.utf8ByteSize = 2 * n + 1 := by
  induction n with
  | zero => rfl
  | succ n ih =>
      have htwo : "/.".utf8ByteSize = 2 := rfl
      rw [dots, String.utf8ByteSize_append, ih, htwo]
      omega

/-- So the room that such a path has is a matter of how many points there are. -/
theorem hasRoom_dots_iff {n m : Nat} :
    (dots n).HasRoom m ↔ 2 * n + 1 + m ≤ maxBytes := by
  refine ⟨fun h => size_dots n ▸ h.short, ?_⟩
  intro h
  -- Dots and slashes alone, so no NUL among them.
  have hchars : ∀ ch ∈ (dots n).text.toList, ch = '.' ∨ ch = '/' := by
    clear h
    induction n with
    | zero =>
        have hdot : (dots 0).text.toList = ['.'] := rfl
        rw [hdot]
        simp
    | succ n ih =>
        intro ch hch
        rw [dots, String.toList_append] at hch
        rcases List.mem_append.1 hch with hch | hch
        · exact ih ch hch
        · have hlast : "/.".toList = ['/', '.'] := rfl
          rw [hlast] at hch
          simpa [or_comm] using hch
  have hsize := size_dots n
  refine ⟨?_, ?_, ?_, by omega⟩
  · intro hnul
    rcases hchars _ hnul with e | e
    · exact absurd e (by decide)
    · exact absurd e (by decide)
  · intro hempty
    rw [hempty] at hsize
    exact absurd hsize (by simp)
  · cases n with
    | zero => decide
    | succ n =>
        have hlast : "/.".toList = ['/', '.'] := rfl
        simp [endsWithSlash, dots, String.toList_append, hlast]

end Path

end PartitionStore
