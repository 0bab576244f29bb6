/-!
# `PartitionStore.Text.Pieces`: cutting text at a separator

Two cuts serve the whole library: `pieces` cuts at every separator, which is
how a path falls into names and a record into lines, and `splitFirst?` cuts
at the first one, which is how a line falls into key and value.

* `pieces_append_separator`: the pieces of a text joined with a separator
  are the pieces of its two sides.
* `splitFirst?_eq_some_iff`: the first cut is the only one whose left side
  is free of the separator.
-/

set_option autoImplicit false

namespace PartitionStore.Text

/-- The stretches between separators, empty ones included; never the empty list. -/
def pieces (separator : Char) : List Char → List (List Char)
  | [] => [[]]
  | c :: rest =>
    if c = separator then [] :: pieces separator rest
    else (pieces separator rest).modifyHead (c :: ·)

/-- Both sides of the first separator, or `none` if there is none. -/
def splitFirst? (separator : Char) : List Char → Option (List Char × List Char)
  | [] => none
  | c :: rest =>
    if c = separator then some ([], rest)
    else (splitFirst? separator rest).map fun (left, right) => (c :: left, right)

theorem pieces_ne_nil (separator : Char) (cs : List Char) : pieces separator cs ≠ [] := by
  induction cs with
  | nil => simp [pieces]
  | cons c rest ih =>
    simp only [pieces]
    split
    · simp
    · cases h : pieces separator rest with
      | nil => exact absurd h ih
      | cons p ps => simp

/-- A text without the separator is its own only piece. -/
theorem pieces_of_not_mem {separator : Char} {cs : List Char} (h : separator ∉ cs) :
    pieces separator cs = [cs] := by
  induction cs with
  | nil => rfl
  | cons c rest ih =>
    obtain ⟨hc, hrest⟩ := not_or.1 (mt List.mem_cons.2 h)
    simp [pieces, Ne.symm hc, ih hrest]

/-- Cutting a text joined with a separator cuts its two sides. -/
theorem pieces_append_separator (separator : Char) (left right : List Char) :
    pieces separator (left ++ separator :: right) =
      pieces separator left ++ pieces separator right := by
  induction left with
  | nil => simp [pieces]
  | cons c rest ih =>
    simp only [List.cons_append, pieces]
    split
    · simp [ih]
    · rw [ih]
      cases h : pieces separator rest with
      | nil => exact absurd h (pieces_ne_nil separator rest)
      | cons p ps => simp

/-- No piece contains the separator. -/
theorem not_mem_of_mem_pieces {separator : Char} {cs piece : List Char}
    (h : piece ∈ pieces separator cs) : separator ∉ piece := by
  induction cs generalizing piece with
  | nil => simp_all [pieces]
  | cons c rest ih =>
    simp only [pieces] at h
    split at h
    · rcases List.mem_cons.1 h with rfl | h
      · simp
      · exact ih h
    · rename_i hc
      cases hp : pieces separator rest with
      | nil => exact absurd hp (pieces_ne_nil separator rest)
      | cons p ps =>
        rw [hp] at ih h
        rcases List.mem_cons.1 h with rfl | h
        · simpa [Ne.symm hc] using ih (List.mem_cons_self ..)
        · exact ih (List.mem_cons_of_mem _ h)

/-- A piece has no characters but those of the text. -/
theorem mem_of_mem_pieces {separator : Char} {cs piece : List Char}
    (h : piece ∈ pieces separator cs) {c : Char} (hc : c ∈ piece) : c ∈ cs := by
  induction cs generalizing piece with
  | nil => simp_all [pieces]
  | cons first rest ih =>
    simp only [pieces] at h
    split at h
    · rcases List.mem_cons.1 h with rfl | h
      · cases hc
      · exact List.mem_cons_of_mem _ (ih h hc)
    · cases hp : pieces separator rest with
      | nil => exact absurd hp (pieces_ne_nil separator rest)
      | cons p ps =>
        rw [hp] at ih h
        rcases List.mem_cons.1 h with rfl | h
        · rcases List.mem_cons.1 hc with rfl | hc
          · exact List.mem_cons_self ..
          · exact List.mem_cons_of_mem _ (ih (List.mem_cons_self ..) hc)
        · exact List.mem_cons_of_mem _ (ih (List.mem_cons_of_mem _ h) hc)

/-- The first cut is the only one whose left side is free of the separator. -/
theorem splitFirst?_eq_some_iff {separator : Char} {cs left right : List Char} :
    splitFirst? separator cs = some (left, right) ↔
      cs = left ++ separator :: right ∧ separator ∉ left := by
  induction cs generalizing left with
  | nil => simp [splitFirst?]
  | cons c rest ih =>
    simp only [splitFirst?]
    split
    · rename_i hc
      subst hc
      cases left with
      | nil => simp [eq_comm]
      | cons d ds => simp; grind
    · rename_i hc
      cases left with
      | nil => simp; grind
      | cons d ds => simp [ih]; grind

/-- There is no cut exactly when the separator does not occur. -/
theorem splitFirst?_eq_none_iff {separator : Char} {cs : List Char} :
    splitFirst? separator cs = none ↔ separator ∉ cs := by
  induction cs with
  | nil => simp [splitFirst?]
  | cons c rest ih =>
    simp only [splitFirst?]
    split
    · simp_all
    · rename_i hc
      simp [ih, Ne.symm hc]

end PartitionStore.Text
