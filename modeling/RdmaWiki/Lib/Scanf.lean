import RdmaWiki.Lib.CText

/-!
`sscanf`.

A format is a list of directives. `sscanf` gives what it assigns, in order: it stops at the
first directive that the text does not match, and the destinations of the others keep what
they hold. It does not know how large the arrays are that it writes to; `inBounds` says
whether what it assigns fits them.
-/

namespace Scanf

open CText

inductive Directive
  /-- `%w[...]` -/
  | set (width : ℕ) (accepts : UInt8 → Bool)
  /-- `%s` -/
  | word
  /-- `%d` -/
  | int
  | lit (c : UInt8)

/-- What is assigned: the characters of a string, which a NUL follows, or a number. -/
inductive Field
  | text (s : Bytes)
  | int (n : Int)
deriving DecidableEq

def sscanf : List Directive → Bytes → List Field
  | [], _ => []
  | .set width accepts :: rest, s =>
    match (s.take width).takeWhile accepts with
    | [] => []
    | first :: more => .text (first :: more) :: sscanf rest (s.drop (more.length + 1))
  | .word :: rest, s =>
    match (s.dropWhile isSpace).takeWhile fun c => !isSpace c with
    | [] => []
    | first :: more =>
      .text (first :: more) :: sscanf rest ((s.dropWhile isSpace).drop (more.length + 1))
  | .int :: rest, s =>
    match scanInt s with
    | none => []
    | some (n, s) => .int (longToInt n) :: sscanf rest s
  | .lit c :: rest, s =>
    match s with
    | [] => []
    | x :: s => if x = c then sscanf rest s else []

/-- The string of a field and its NUL fit an array of `size` bytes. -/
def Field.fits (size : ℕ) : Field → Bool
  | .text s => s.length + 1 ≤ size
  | .int _ => true

/-- Every field fits its destination. -/
def inBounds (sizes : List ℕ) (fields : List Field) : Bool :=
  (fields.zip sizes).all fun (field, size) => field.fits size

/-- The string that was assigned to the `i`-th destination. -/
def string (fields : List Field) (i : ℕ) : Option Bytes :=
  match fields[i]? with
  | some (.text s) => some s
  | _ => none

/-- The number that was assigned to the `i`-th destination. -/
def number (fields : List Field) (i : ℕ) : Option Int :=
  match fields[i]? with
  | some (.int n) => some n
  | _ => none

section Directives

variable {width : ℕ} {accepts : UInt8 → Bool} {rest : List Directive} {word s : Bytes}

/-- A scanset takes a word up to its width, or up to a character that it does not accept. -/
theorem sscanf_set (nonempty : word ≠ []) (fits : word.length ≤ width)
    (accepted : ∀ c ∈ word, accepts c = true)
    (ends : word.length = width ∨ ∀ c, s.head? = some c → accepts c = false) :
    sscanf (.set width accepts :: rest) (word ++ s) = .text word :: sscanf rest s := by
  have taken : ((word ++ s).take width).takeWhile accepts = word := by
    rw [List.take_append, List.take_of_length_le fits, List.takeWhile_append_of_pos accepted]
    rcases ends with full | stops
    · rw [full, Nat.sub_self, List.take_zero, List.takeWhile_nil, List.append_nil]
    · cases s with
      | nil => rw [List.take_nil, List.takeWhile_nil, List.append_nil]
      | cons c more =>
          cases left : width - word.length with
          | zero => rw [List.take_zero, List.takeWhile_nil, List.append_nil]
          | succ n =>
              rw [List.take_succ_cons, List.takeWhile_cons_of_neg (by simp [stops c rfl]),
                List.append_nil]
  obtain ⟨first, more, rfl⟩ := List.exists_cons_of_ne_nil nonempty
  have left : ((first :: more) ++ s).drop (more.length + 1) = s :=
    List.drop_left' List.length_cons
  simp only [sscanf, taken, left]

theorem sscanf_lit {c : UInt8} : sscanf (.lit c :: rest) (c :: s) = sscanf rest s := if_pos rfl

/-- `%s` takes at least the word that the text starts with. -/
theorem sscanf_word (nonempty : word ≠ []) (solid : ∀ c ∈ word, isSpace c = false) :
    ∃ more fields, sscanf (.word :: rest) (word ++ s) = .text (word ++ more) :: fields := by
  obtain ⟨first, others, rfl⟩ := List.exists_cons_of_ne_nil nonempty
  have start : ((first :: others) ++ s).dropWhile isSpace = (first :: others) ++ s := by
    rw [List.cons_append, List.dropWhile_cons_of_neg (by simp [solid first List.mem_cons_self])]
  have taken : (((first :: others) ++ s).takeWhile fun c => !isSpace c) =
      first :: (others ++ s.takeWhile fun c => !isSpace c) := by
    rw [List.takeWhile_append_of_pos fun c member => by simp [solid c member], List.cons_append]
  simp only [sscanf, start, taken]
  exact ⟨_, _, rfl⟩

end Directives

end Scanf
