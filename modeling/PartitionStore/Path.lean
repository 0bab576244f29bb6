import PartitionStore.Text.Pieces

/-!
# `PartitionStore.Path`: path texts and the steps they stand for

A path is a text and stays that text: nothing is normalised, so a path is
shown as it was composed. What a path means is its list of steps, which
`FileTree` walks from the top of the tree: stay, go up, go down to a name.

* `join` composes a path with a name below it; `steps_join` says that
  joining a plain name adds exactly the step down to it.
* `withExtension` exchanges the last part of a file name, which names the
  temporary file that stands beside a file while it is being written.
-/

set_option autoImplicit false

namespace PartitionStore

/-- A path text. -/
structure Path where
  /-- The text, exactly as it was composed. -/
  text : String
  deriving DecidableEq, Repr, Inhabited

/-- One step of a walk through a file tree. -/
inductive Step where
  /-- `.`: stay in this directory. -/
  | here
  /-- `..`: go to the directory above. -/
  | up
  /-- Go to the entry with this name. -/
  | down (name : String)
  deriving DecidableEq, Repr, Inhabited

/-- The step that one stretch between slashes stands for; an empty stretch is no step. -/
def Step.ofPiece? : List Char → Option Step
  | [] => none
  | ['.'] => some .here
  | ['.', '.'] => some .up
  | cs => some (.down (String.ofList cs))

namespace Path

/-! ### Steps -/

/-- The steps that a path stands for. -/
def steps (p : Path) : List Step :=
  (Text.pieces '/' p.text.toList).filterMap Step.ofPiece?

/-- Whether the path starts at the top of the tree wherever it is used. -/
def isAbsolute (p : Path) : Bool := p.text.toList.head? == some '/'

/-- Whether the path ends with a slash, and so asks for a directory. -/
def endsWithSlash (p : Path) : Bool := p.text.toList.getLast? == some '/'

/-- The steps with the demand of a closing slash made explicit: staying in the
last entry succeeds only in a directory. -/
def demandingSteps (p : Path) : List Step :=
  if p.endsWithSlash then p.steps ++ [.here] else p.steps

/-- The steps to the directory in which the last entry is looked up, with the
demand that it is a directory. -/
def enclosingSteps (p : Path) : List Step := p.steps.dropLast ++ [.here]

/-- Whether the last step goes down to a name. -/
def endsInName (p : Path) : Bool :=
  match p.steps.getLast? with
  | some (.down _) => true
  | _ => false

/-- The steps that name directories, without those that stay. -/
def properSteps (p : Path) : List Step := p.steps.filter (· != .here)

/-- A name that is one step down: not empty, not `.` or `..`, and without a slash. -/
def isPlainName (name : String) : Bool :=
  name != "" && name != "." && name != ".." && !name.toList.contains '/'

/-- The bytes that a path may take to lead anywhere. -/
def maxBytes : Nat := 4095

/-- The bytes that names below `p` may add to it, a slash before each included. -/
def room (p : Path) : Nat :=
  maxBytes + (if p.endsWithSlash then 1 else 0) - p.text.utf8ByteSize

/-! ### Composition -/

/-- The path of `name` below `p`: a slash comes between them unless `p` is
empty or ends with one, and an absolute `name` stands for itself. -/
def join (p : Path) (name : String) : Path :=
  if (Path.mk name).isAbsolute then ⟨name⟩
  else if p.text.isEmpty || p.endsWithSlash then ⟨p.text ++ name⟩
  else ⟨p.text ++ "/" ++ name⟩

/-- Drops closing slashes and closing `.` names from a text given last character first. -/
def dropTail : List Char → List Char
  | '/' :: rest => dropTail rest
  | '.' :: '/' :: rest => dropTail rest
  | cs => cs

/-- The path before the last entry of `p`; empty where nothing is before it. -/
def parent (p : Path) : Path :=
  let above := (dropTail p.text.toList.reverse).dropWhile (· != '/')
  match dropTail above with
  | [] => if p.isAbsolute then ⟨"/"⟩ else ⟨""⟩
  | kept => ⟨String.ofList kept.reverse⟩

/-- The text before the file name, the file name, and what follows it (slashes
and `.` names); `none` if the path does not end in a name. -/
def fileName? (p : Path) : Option (List Char × List Char × List Char) :=
  let backwards := p.text.toList.reverse
  let body := dropTail backwards
  let name := (body.takeWhile (· != '/')).reverse
  if name = [] ∨ name = ['.'] ∨ name = ['.', '.'] then none
  else some ((body.dropWhile (· != '/')).reverse, name,
    (backwards.take (backwards.length - body.length)).reverse)

/-- The part of a file name before its last dot; the whole name if there is no
dot or nothing before it. -/
def stem (name : List Char) : List Char :=
  match Text.splitFirst? '.' name.reverse with
  | some (_, before) => if before = [] then name else before.reverse
  | none => name

/-- The path with `extension` for what followed the last dot of its file name,
or after the file name if there was nothing. Whatever followed the file name
is dropped, and a path that does not end in a name stays as it is. A name made
of two dots and more, such as `..x`, is cut to the two dots, which are no name
any longer and stay. -/
def withExtension (p : Path) (extension : String) : Path :=
  match p.fileName? with
  | none => p
  | some (before, name, after) =>
    if stem name = ['.'] ∧ after = [] then ⟨String.ofList (before ++ ['.', '.'])⟩
    else ⟨String.ofList (before ++ stem name ++ '.' :: extension.toList)⟩

/-! ### Laws -/

/-- A plain name is a step down to it. -/
theorem ofPiece?_of_isPlainName {name : String} (h : isPlainName name = true) :
    Step.ofPiece? name.toList = some (.down name) := by
  simp only [isPlainName, Bool.and_eq_true, bne_iff_ne, ne_eq] at h
  obtain ⟨⟨⟨h₀, h₁⟩, h₂⟩, -⟩ := h
  unfold Step.ofPiece?
  split
  · rename_i e; exact absurd (String.toList_inj.1 (e.trans (by rfl : [] = "".toList))) h₀
  · rename_i e; exact absurd (String.toList_inj.1 (e.trans (by rfl : _ = ".".toList))) h₁
  · rename_i e; exact absurd (String.toList_inj.1 (e.trans (by rfl : _ = "..".toList))) h₂
  · simp

/-- A plain name has no slash to begin with. -/
theorem not_isAbsolute_of_isPlainName {name : String} (h : isPlainName name = true) :
    (Path.mk name).isAbsolute = false := by
  simp only [isPlainName, Bool.and_eq_true, Bool.not_eq_true'] at h
  have hs := h.2
  simp only [isAbsolute]
  cases hn : name.toList with
  | nil => rfl
  | cons c rest =>
    rw [hn] at hs
    simp only [List.contains_cons, Bool.or_eq_false_iff] at hs
    have hne : ¬ ('/' = c) := by simpa using hs.1
    simpa using fun e : c = '/' => hne e.symm

/-- Joining a plain name adds the step down to it and demands nothing else. -/
theorem steps_join {p : Path} {name : String} (h : isPlainName name = true) :
    (p.join name).steps = p.steps ++ [.down name] := by
  have hslash : '/' ∉ name.toList := by
    simp only [isPlainName, Bool.and_eq_true, Bool.not_eq_true'] at h
    simpa using h.2
  have alone : (Text.pieces '/' name.toList).filterMap Step.ofPiece? = [.down name] := by
    rw [Text.pieces_of_not_mem hslash]
    simp [ofPiece?_of_isPlainName h]
  simp only [join, not_isAbsolute_of_isPlainName h, Bool.false_eq_true, if_false]
  split
  · rename_i hp
    rcases Bool.or_eq_true_iff.1 hp with hp | hp
    · have : p.text = "" := by simpa [String.isEmpty_iff] using hp
      simp [steps, this, alone, Text.pieces, Step.ofPiece?]
    · simp only [endsWithSlash, beq_iff_eq, List.getLast?_eq_some_iff] at hp
      obtain ⟨front, hfront⟩ := hp
      simp only [steps, String.toList_append, hfront, List.append_assoc, List.singleton_append,
        Text.pieces_append_separator, List.filterMap_append, alone]
      simp [Text.pieces, Step.ofPiece?]
  · have : "/".toList = ['/'] := rfl
    simp only [steps, String.toList_append, this, List.append_assoc, List.singleton_append,
      Text.pieces_append_separator, List.filterMap_append, alone]

end Path

end PartitionStore
