import Mathlib

/-!
C text on byte lists: NUL-terminated strings, `strtok`, decimal output and the
decimal input conversions of `atoi` and `sscanf`.

The main facts are that `strtok` cuts out exactly the words that are non-empty
and free of the delimiter (`strtok_word`, `strtok_token`), and that a
printed number is read back by every input conversion
(`scanNat_decimal`, `scanInt_decimal`).
-/

namespace CText

abbrev Bytes := List UInt8

/-- The ASCII codes of a character list. -/
def ascii (cs : List Char) : Bytes := cs.map Char.toUInt8

/-- The C string at the start of a buffer: its bytes before the first NUL. -/
def text (buf : Bytes) : Bytes := buf.takeWhile (· ≠ 0)

/-- The value of a `const char *`: bytes without a NUL. -/
structure CString where
  bytes : Bytes
  noNul : (0 : UInt8) ∉ bytes
deriving DecidableEq

theorem CString.eq_of_bytes {s s' : CString} (same : s.bytes = s'.bytes) : s = s' := by
  cases s
  cases s'
  cases same
  rfl

/-- A terminated string is read back whatever follows its NUL. -/
theorem text_append_nul {s rest : Bytes} (noNul : (0 : UInt8) ∉ s) :
    text (s ++ 0 :: rest) = s := by
  have all : ∀ y ∈ s, decide (y ≠ 0) = true := by
    intro y member
    simpa using ne_of_mem_of_not_mem member noNul
  rw [text, List.takeWhile_append_of_pos all]
  simp

theorem text_noNul (buf : Bytes) : (0 : UInt8) ∉ text buf := fun member => by
  simpa using List.mem_takeWhile_imp member

/-- The text in a buffer is shorter than the buffer, by its NUL. -/
theorem length_text_lt {buf : Bytes} (terminated : (0 : UInt8) ∈ buf) :
    (text buf).length < buf.length := by
  apply lt_of_le_of_ne (List.takeWhile_sublist _).length_le
  intro same
  have whole : text buf = buf := (List.takeWhile_sublist _).eq_of_length same
  rw [← whole] at terminated
  exact text_noNul buf terminated

/-! ## `strtok` -/

/-- `strtok` with one delimiter, on the text its saved pointer is at: skip
leading delimiters, return the next token and the text after the delimiter
that ends it, or NULL when only delimiters are left. -/
def strtok (delim : UInt8) (s : Bytes) : Option (Bytes × Bytes) :=
  match s.dropWhile (· = delim) with
  | [] => none
  | rest@(_ :: _) =>
    some (rest.takeWhile (· ≠ delim), (rest.dropWhile (· ≠ delim)).tail)

variable {delim : UInt8} {s word rest : Bytes}

/-- A word has no delimiter to skip, and is taken whole. -/
theorem strtok_scans (nonempty : word ≠ []) (clean : delim ∉ word) (more : Bytes) :
    strtok delim (word ++ more) = some (word ++ more.takeWhile (· ≠ delim),
      (more.dropWhile (· ≠ delim)).tail) := by
  cases word with
  | nil => exact absurd rfl nonempty
  | cons x xs =>
      have first : x ≠ delim := fun eq => clean (by simp [eq])
      have others : ∀ y ∈ x :: xs, decide (y ≠ delim) = true := by
        intro y member
        simpa using ne_of_mem_of_not_mem member clean
      have kept : (x :: xs ++ more).dropWhile (fun y => decide (y = delim)) = x :: xs ++ more := by
        simp [first]
      have taken : (x :: xs ++ more).takeWhile (fun y => decide (y ≠ delim)) =
          x :: xs ++ more.takeWhile (fun y => decide (y ≠ delim)) :=
        List.takeWhile_append_of_pos others
      have dropped : (x :: xs ++ more).dropWhile (fun y => decide (y ≠ delim)) =
          more.dropWhile (fun y => decide (y ≠ delim)) :=
        List.dropWhile_append_of_pos others
      simp only [strtok]
      rw [kept]
      simp only [List.cons_append] at taken dropped ⊢
      rw [taken, dropped]

/-- A word ended by the delimiter is cut out, and the scan resumes after it. -/
theorem strtok_word (nonempty : word ≠ []) (clean : delim ∉ word) :
    strtok delim (word ++ delim :: rest) = some (word, rest) := by
  rw [strtok_scans nonempty clean]
  simp

/-- A word that ends the text is cut out. -/
theorem strtok_last (nonempty : word ≠ []) (clean : delim ∉ word) :
    strtok delim word = some (word, []) := by
  have scan := strtok_scans nonempty clean []
  simpa using scan

/-- Every token is non-empty and free of the delimiter. -/
theorem strtok_token (found : strtok delim s = some (word, rest)) :
    word ≠ [] ∧ delim ∉ word := by
  unfold strtok at found
  split at found
  next => cases found
  next x xs left =>
    simp only [Option.some.injEq, Prod.mk.injEq] at found
    obtain ⟨rfl, -⟩ := found
    have first : x ≠ delim := by
      have head := List.head?_dropWhile_not (fun y => decide (y = delim)) s
      rw [left] at head
      simpa using head
    refine ⟨by simp [first], fun member => ?_⟩
    simpa using List.mem_takeWhile_imp member

/-- A token is a part of its text. -/
theorem strtok_subset (found : strtok delim s = some (word, rest)) {x : UInt8}
    (member : x ∈ word) : x ∈ s := by
  unfold strtok at found
  split at found
  next => cases found
  next y ys left =>
    simp only [Option.some.injEq, Prod.mk.injEq] at found
    obtain ⟨rfl, -⟩ := found
    have kept := (List.takeWhile_sublist _).subset member
    rw [← left] at kept
    exact (List.dropWhile_sublist _).subset kept

/-- So is what is left. -/
theorem strtok_rest_subset (found : strtok delim s = some (word, rest)) {x : UInt8}
    (member : x ∈ rest) : x ∈ s := by
  unfold strtok at found
  split at found
  next => cases found
  next y ys left =>
    simp only [Option.some.injEq, Prod.mk.injEq] at found
    obtain ⟨-, rfl⟩ := found
    have kept := (List.dropWhile_sublist _).subset ((List.tail_sublist _).subset member)
    rw [← left] at kept
    exact (List.dropWhile_sublist _).subset kept

/-- `strtok` returns NULL exactly on texts of delimiters only. -/
theorem strtok_eq_none_iff : strtok delim s = none ↔ ∀ x ∈ s, x = delim := by
  unfold strtok
  split
  next left => simpa using List.dropWhile_eq_nil_iff.mp left
  next x xs left =>
    simp only [reduceCtorEq, false_iff]
    intro all
    have gone : s.dropWhile (fun y => decide (y = delim)) = [] :=
      List.dropWhile_eq_nil_iff.mpr (by simpa using all)
    rw [gone] at left
    cases left

/-- The first token of a text does not change when a delimiter and more text
follow, and the scan resumes no later than at that text. -/
theorem strtok_append_delim (more : Bytes) (found : strtok delim s = some (word, rest)) :
    ∃ skipped, strtok delim (s ++ delim :: more) = some (word, skipped ++ more) := by
  unfold strtok at found ⊢
  have skip : (s ++ delim :: more).dropWhile (fun y => decide (y = delim)) =
      s.dropWhile (fun y => decide (y = delim)) ++ delim :: more := by
    rw [List.dropWhile_append]
    split
    next left =>
      simp only [List.isEmpty_iff] at left
      simp [left] at found
    next => rfl
  split at found
  next => cases found
  next x xs left =>
    simp only [Option.some.injEq, Prod.mk.injEq] at found
    obtain ⟨taken, -⟩ := found
    rw [skip, left]
    simp only [List.cons_append]
    rw [← List.cons_append, List.takeWhile_append, List.dropWhile_append, taken]
    by_cases whole : (x :: xs).dropWhile (fun y => decide (y ≠ delim)) = []
    · have all : (x :: xs).takeWhile (fun y => decide (y ≠ delim)) = x :: xs :=
        List.takeWhile_eq_self_iff.mpr (List.dropWhile_eq_nil_iff.mp whole)
      refine ⟨[], ?_⟩
      rw [← taken, all, whole]
      simp
    · obtain ⟨y, ys, ended⟩ := List.exists_cons_of_ne_nil whole
      have shorter : word.length ≠ (x :: xs).length := by
        have split := congrArg List.length
          (List.takeWhile_append_dropWhile (p := fun y => decide (y ≠ delim)) (l := x :: xs))
        rw [taken, ended, List.length_append, List.length_cons (a := y)] at split
        omega
      refine ⟨ys ++ [delim], ?_⟩
      rw [ended, if_neg shorter]
      simp

/-- A token and what is left are no longer than the text. -/
theorem strtok_length (found : strtok delim s = some (word, rest)) :
    word.length + rest.length ≤ s.length := by
  unfold strtok at found
  split at found
  next => cases found
  next y ys left =>
    simp only [Option.some.injEq, Prod.mk.injEq] at found
    obtain ⟨rfl, rfl⟩ := found
    have whole := congrArg List.length
      (List.takeWhile_append_dropWhile (p := fun y => decide (y ≠ delim)) (l := y :: ys))
    have skipped := (List.dropWhile_sublist (l := s) fun y => decide (y = delim)).length_le
    rw [left] at skipped
    rw [List.length_append] at whole
    rw [List.length_tail]
    omega

/-! ### Words -/

/-- The non-empty parts of a text between its delimiters. -/
def words (delim : UInt8) (s : Bytes) : List Bytes := (s.splitOn delim).filter (· ≠ [])

theorem words_delim (s : Bytes) : words delim (delim :: s) = words delim s := by
  simp [words, List.splitOn, List.splitOnP_cons_eq_if_modifyHead]

theorem words_word (nonempty : word ≠ []) (clean : delim ∉ word) (rest : Bytes) :
    words delim (word ++ delim :: rest) = word :: words delim rest := by
  have none : ∀ x ∈ word, (x == delim) = false := by
    intro x member
    simpa using ne_of_mem_of_not_mem member clean
  rw [words, List.splitOn, List.splitOnP_append_cons_of_forall_mem none delim (beq_self_eq_true _),
    List.filter_cons_of_pos (by simpa using nonempty)]
  rfl

theorem words_last (nonempty : word ≠ []) (clean : delim ∉ word) : words delim word = [word] := by
  have none : ∀ x ∈ word, (x == delim) = false := by
    intro x member
    simpa using ne_of_mem_of_not_mem member clean
  rw [words, List.splitOn, List.splitOnP_eq_singleton none]
  simp [nonempty]

/-- Successive calls of `strtok` go through the words of a text. -/
theorem words_eq_strtok (delim : UInt8) (s : Bytes) :
    words delim s =
      match strtok delim s with
      | none => []
      | some (word, rest) => word :: words delim rest := by
  induction s with
  | nil => rfl
  | cons x xs ih =>
      by_cases same : x = delim
      · subst same
        have skip : strtok x (x :: xs) = strtok x xs := by simp [strtok]
        rw [words_delim, skip, ih]
      · have whole := List.takeWhile_append_dropWhile (p := fun y => decide (y ≠ delim))
          (l := x :: xs)
        have nonempty : (x :: xs).takeWhile (fun y => decide (y ≠ delim)) ≠ [] := by simp [same]
        have clean : delim ∉ (x :: xs).takeWhile (fun y => decide (y ≠ delim)) := fun member => by
          simpa using List.mem_takeWhile_imp member
        cases left : (x :: xs).dropWhile (fun y => decide (y ≠ delim)) with
        | nil =>
            rw [left, List.append_nil] at whole
            rw [whole] at nonempty clean
            rw [words_last nonempty clean, strtok_last nonempty clean]
            rfl
        | cons y ys =>
            have ends : y = delim := by
              have head := List.head?_dropWhile_not (fun y => decide (y ≠ delim)) (x :: xs)
              rw [left] at head
              simpa using head
            rw [left, ends] at whole
            rw [← whole, words_word nonempty clean, strtok_word nonempty clean]
/-! ## Decimal text -/

/-- What `%d`, `%u` and `%lu` print for a non-negative number. -/
def decimal (n : ℕ) : Bytes := ascii (Nat.toDigits 10 n)

/-- What `%d` prints. -/
def decimalInt (z : Int) : Bytes :=
  if z < 0 then 45 :: decimal z.natAbs else decimal z.toNat

/-- `isdigit`: the codes of '0' to '9'. -/
def isDigit (b : UInt8) : Bool := 48 ≤ b && b ≤ 57

/-- `isspace` in the C locale. -/
def isSpace (b : UInt8) : Bool := b == 32 || (9 ≤ b && b ≤ 13)

def digitsValue (s : Bytes) : ℕ := s.foldl (fun sofar b => 10 * sofar + (b.toNat - 48)) 0

/-- The longest digit prefix, as a number; no conversion without a digit. -/
def scanNat (s : Bytes) : Option (ℕ × Bytes) :=
  match s.takeWhile isDigit with
  | [] => none
  | digits@(_ :: _) => some (digitsValue digits, s.dropWhile isDigit)

/-- The common prefix of `strtol` and `strtoul`: white space, a sign, digits. -/
def scanInt (s : Bytes) : Option (Int × Bytes) :=
  match s.dropWhile isSpace with
  | [] => none
  | c :: rest =>
    -- 45 and 43 are the codes of '-' and '+'
    if c = 45 then (scanNat rest).map fun found => (-(found.1 : Int), found.2)
    else if c = 43 then (scanNat rest).map fun found => ((found.1 : Int), found.2)
    else (scanNat (c :: rest)).map fun found => ((found.1 : Int), found.2)

/-- `strtol` stops at the bounds of `long`; storing the result in an `int`
keeps its low 32 bits. -/
def longToInt (z : Int) : Int := Int.bmod (max (-2 ^ 63) (min z (2 ^ 63 - 1))) (2 ^ 32)

/-- `atoi`, 0 where there is no number. -/
def atoi (s : Bytes) : Int :=
  match scanInt s with
  | none => 0
  | some (z, _) => longToInt z

/-- `strtoul` negates modulo the word and stops at the largest `unsigned long`. -/
def scanUlong (s : Bytes) : Option (UInt64 × Bytes) :=
  (scanInt s).map fun found =>
    (if 2 ^ 64 ≤ found.1.natAbs then UInt64.ofNat (2 ^ 64 - 1) else UInt64.ofInt found.1, found.2)

theorem isDigit_toUInt8 {c : Char} (digit : c.isDigit = true) :
    isDigit c.toUInt8 = true ∧ c.toUInt8.toNat = c.toNat := by
  have bounds : 48 ≤ c.val.toNat ∧ c.val.toNat ≤ 57 := by
    simpa [Char.isDigit, UInt32.le_iff_toNat_le] using digit
  have value : c.toUInt8.toNat = c.val.toNat := by
    simp only [Char.toUInt8, UInt32.toNat_toUInt8]
    omega
  refine ⟨?_, value⟩
  simp only [isDigit, Bool.and_eq_true, decide_eq_true_eq, UInt8.le_iff_toNat_le, value]
  exact bounds

theorem isDigit_of_mem_decimal {n : ℕ} {b : UInt8} (member : b ∈ decimal n) :
    isDigit b = true := by
  obtain ⟨c, digit, rfl⟩ := List.mem_map.mp member
  exact (isDigit_toUInt8
    (Nat.isDigit_of_mem_toDigits (by decide) (by decide) digit)).1

theorem not_mem_decimal {n : ℕ} {b : UInt8} (other : isDigit b = false) :
    b ∉ decimal n := fun member => by
  simp [isDigit_of_mem_decimal member] at other

theorem decimal_ne_nil (n : ℕ) : decimal n ≠ [] := by
  simp [decimal, ascii]

theorem length_decimal_le_iff {n k : ℕ} (positive : 0 < k) :
    (decimal n).length ≤ k ↔ n < 10 ^ k := by
  simpa [decimal, ascii] using Nat.length_toDigits_le_iff (by decide) positive

theorem digitsValue_decimal (n : ℕ) : digitsValue (decimal n) = n := by
  have shared : ∀ (cs : List Char) (start : ℕ), (∀ c ∈ cs, c.isDigit = true) →
      (ascii cs).foldl (fun sofar b => 10 * sofar + (b.toNat - 48)) start =
        Nat.ofDigitChars 10 cs start := by
    intro cs
    induction cs with
    | nil => intro start _; rfl
    | cons c cs ih =>
        intro start digits
        have head := (isDigit_toUInt8 (digits c (by simp))).2
        have tail := ih (10 * start + (c.toNat - 48))
          fun c member => digits c (List.mem_cons_of_mem _ member)
        simpa [ascii, Nat.ofDigitChars_cons, head] using tail
  have digits : ∀ c ∈ Nat.toDigits 10 n, c.isDigit = true := fun c member =>
    Nat.isDigit_of_mem_toDigits (by decide) (by decide) member
  rw [digitsValue, decimal, shared _ _ digits, Nat.ofDigitChars_ten_toDigits]

/-- A printed number is read back up to the first byte that is no digit. -/
theorem scanNat_decimal {n : ℕ} {rest : Bytes}
    (stop : ∀ c ∈ rest.head?, isDigit c = false) :
    scanNat (decimal n ++ rest) = some (n, rest) := by
  have digits : ∀ b ∈ decimal n, isDigit b = true := fun _ => isDigit_of_mem_decimal
  have ended : rest.takeWhile isDigit = [] ∧ rest.dropWhile isDigit = rest := by
    cases rest with
    | nil => exact ⟨rfl, rfl⟩
    | cons c rest => simp [stop c (by simp)]
  have taken : (decimal n ++ rest).takeWhile isDigit = decimal n := by
    rw [List.takeWhile_append_of_pos digits, ended.1, List.append_nil]
  have dropped : (decimal n ++ rest).dropWhile isDigit = rest := by
    rw [List.dropWhile_append_of_pos digits, ended.2]
  unfold scanNat
  split
  next none => exact absurd (taken.symm.trans none) (decimal_ne_nil n)
  next b bs some =>
    rw [← some, taken, dropped, digitsValue_decimal]

theorem scanInt_decimal {n : ℕ} {rest : Bytes}
    (stop : ∀ c ∈ rest.head?, isDigit c = false) :
    scanInt (decimal n ++ rest) = some ((n : Int), rest) := by
  have read := scanNat_decimal stop (n := n)
  cases shape : decimal n with
  | nil => exact absurd shape (decimal_ne_nil n)
  | cons b bs =>
      have digit : isDigit b = true := isDigit_of_mem_decimal (n := n) (by simp [shape])
      have bounds : 48 ≤ b.toNat ∧ b.toNat ≤ 57 := by
        simpa [isDigit, UInt8.le_iff_toNat_le] using digit
      have noSpace : isSpace b = false := by
        simp only [isSpace, Bool.or_eq_false_iff, beq_eq_false_iff_ne, ne_eq,
          Bool.and_eq_false_iff, decide_eq_false_iff_not, UInt8.not_le, UInt8.lt_iff_toNat_lt]
        refine ⟨fun eq => ?_, Or.inr ?_⟩
        · subst eq
          simp at bounds
        · have thirteen : (13 : UInt8).toNat = 13 := rfl
          omega
      have noMinus : b ≠ 45 := by
        intro same
        subst same
        simp at bounds
      have noPlus : b ≠ 43 := by
        intro same
        subst same
        simp at bounds
      rw [shape, List.cons_append] at read
      simp [scanInt, noSpace, noMinus, noPlus, read]

theorem longToInt_of_lt {n : ℕ} (fits : n < 2 ^ 31) : longToInt n = n := by
  have inLong : max (-2 ^ 63) (min (n : Int) (2 ^ 63 - 1)) = n := by omega
  rw [longToInt, inLong, Int.bmod_eq_of_le] <;> omega

/-- `atoi` inverts `%lu` below the bounds of `int`. -/
theorem atoi_decimal {n : ℕ} (fits : n < 2 ^ 31) : atoi (decimal n) = n := by
  have read : scanInt (decimal n ++ []) = some ((n : Int), []) := scanInt_decimal (by simp)
  rw [List.append_nil] at read
  simp only [atoi, read, longToInt_of_lt fits]

/-- `%lu` inverts `%lu`. -/
theorem scanUlong_decimal {n : UInt64} {rest : Bytes}
    (stop : ∀ c ∈ rest.head?, isDigit c = false) :
    scanUlong (decimal n.toNat ++ rest) = some (n, rest) := by
  have bound := n.toNat_lt
  have small : ¬ 2 ^ 64 ≤ ((n.toNat : ℕ) : Int).natAbs := by simp; omega
  have reduced : (((n.toNat : ℕ) : Int) % 2 ^ 64).toNat = n.toNat := by omega
  simp only [scanUlong, scanInt_decimal stop, Option.map_some, small, if_false,
    UInt64.ofInt, reduced, UInt64.ofNat_toNat]

end CText
