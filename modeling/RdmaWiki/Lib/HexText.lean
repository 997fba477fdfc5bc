import RdmaWiki.Lib.CText

/-!
Hexadecimal text, and words in the byte order of a host.

`padded w n` is what `%0wx` prints, and `scanHex` is what `%x` reads: white space, a sign, an
optional `0x` and digits, stored as an `unsigned int`. A printed number of 32 bits is read back
up to the first byte that could go on (`scanHex_padded`).

A host keeps a word in its own byte order. `htonl` and `ntohl` are described by that: the value
whose bytes in memory are those of the other value in network order.
-/

namespace HexText

open CText

/-! ## Printing -/

/-- `%x` -/
def hexadecimal (n : ℕ) : Bytes := ascii (Nat.toDigits 16 n)

/-- `%0wx` -/
def padded (w n : ℕ) : Bytes := (hexadecimal n).leftpad w 48

/-- The value of a hexadecimal digit. -/
def hexDigit (b : UInt8) : Option ℕ :=
  if 48 ≤ b ∧ b ≤ 57 then some (b.toNat - 48)
  else if 97 ≤ b ∧ b ≤ 102 then some (b.toNat - 87)
  else if 65 ≤ b ∧ b ≤ 70 then some (b.toNat - 55)
  else none

def isHexDigit (b : UInt8) : Bool := (hexDigit b).isSome

def hexValue (s : Bytes) : ℕ := s.foldl (fun sofar b => 16 * sofar + (hexDigit b).getD 0) 0

theorem hexDigit_digitChar {d : ℕ} (small : d < 16) :
    hexDigit d.digitChar.toUInt8 = some d := by
  have all : ∀ d : Fin 16, hexDigit d.val.digitChar.toUInt8 = some d.val := by decide
  exact all ⟨d, small⟩

theorem isHexDigit_hexadecimal {n : ℕ} {b : UInt8} (member : b ∈ hexadecimal n) :
    isHexDigit b = true := by
  induction n using Nat.strongRecOn with
  | _ n ih =>
      rcases Nat.lt_or_ge n 16 with small | large
      · rw [hexadecimal, Nat.toDigits_of_lt_base small] at member
        rw [List.mem_singleton.mp member, isHexDigit, hexDigit_digitChar small]
        rfl
      · rw [hexadecimal, Nat.toDigits_of_base_le (by decide) large, ascii, List.map_append] at member
        rcases List.mem_append.mp member with earlier | last
        · exact ih (n / 16) (by omega) earlier
        · rw [List.mem_singleton.mp last, isHexDigit, hexDigit_digitChar (Nat.mod_lt n (by decide))]
          rfl

theorem isHexDigit_padded {w n : ℕ} {b : UInt8} (member : b ∈ padded w n) :
    isHexDigit b = true := by
  rcases List.mem_append.mp member with zero | digit
  · rw [List.eq_of_mem_replicate zero]
    decide
  · exact isHexDigit_hexadecimal digit

theorem hexValue_append_digit (s : Bytes) {d : ℕ} (small : d < 16) :
    hexValue (s ++ [d.digitChar.toUInt8]) = 16 * hexValue s + d := by
  simp [hexValue, hexDigit_digitChar small]

theorem hexValue_hexadecimal (n : ℕ) : hexValue (hexadecimal n) = n := by
  induction n using Nat.strongRecOn with
  | _ n ih =>
      rcases Nat.lt_or_ge n 16 with small | large
      · have one := hexValue_append_digit [] small
        rw [List.nil_append] at one
        rw [hexadecimal, Nat.toDigits_of_lt_base small]
        exact one.trans (by simp [hexValue])
      · have before := ih (n / 16) (by omega)
        rw [hexadecimal, Nat.toDigits_of_base_le (by decide) large, ascii, List.map_append]
        change hexValue (hexadecimal (n / 16) ++ [(n % 16).digitChar.toUInt8]) = n
        rw [hexValue_append_digit _ (Nat.mod_lt n (by decide)), before]
        omega

/-- Leading zeros do not count. -/
theorem hexValue_padded (w n : ℕ) : hexValue (padded w n) = n := by
  have zeros : ∀ k : ℕ, hexValue (List.replicate k 48 ++ hexadecimal n) = n := by
    intro k
    induction k with
    | zero => exact hexValue_hexadecimal n
    | succ k ih => exact ih
  exact zeros _

theorem padded_ne_nil (w n : ℕ) : padded w n ≠ [] := by
  simp [padded, List.leftpad, hexadecimal, ascii]

theorem length_padded (w n : ℕ) : (padded w n).length = max w (hexadecimal n).length :=
  List.length_leftpad

/-- The width is a least width. -/
theorem length_padded_le_iff {w n : ℕ} (positive : 0 < w) :
    (padded w n).length ≤ w ↔ n < 16 ^ w := by
  rw [length_padded, max_le_iff]
  simpa [hexadecimal, ascii] using Nat.length_toDigits_le_iff (by decide) positive

theorem length_padded_eq {w n : ℕ} (positive : 0 < w) (small : n < 16 ^ w) :
    (padded w n).length = w :=
  le_antisymm ((length_padded_le_iff positive).mpr small)
    ((length_padded w n).symm ▸ le_max_left _ _)

/-! ## Scanning -/

/-- The longest prefix of hexadecimal digits, as a number. -/
def scanHexNat (s : Bytes) : Option (ℕ × Bytes) :=
  match s.takeWhile isHexDigit with
  | [] => none
  | digits@(_ :: _) => some (hexValue digits, s.dropWhile isHexDigit)

/-- The prefix that base 16 allows. -/
def skipPrefix : Bytes → Bytes
  | 48 :: 120 :: rest => rest
  | 48 :: 88 :: rest => rest
  | s => s

/-- `strtoul` stops at the largest `unsigned long`; an `unsigned int` keeps the low 32 bits. -/
def toUnsigned (negative : Bool) (n : ℕ) : UInt32 :=
  if 2 ^ 64 ≤ n then UInt32.ofNat (2 ^ 64 - 1)
  else if negative then -UInt32.ofNat n
  else UInt32.ofNat n

/-- `%x` -/
def scanHex (s : Bytes) : Option (UInt32 × Bytes) :=
  match s.dropWhile isSpace with
  | [] => none
  | c :: rest =>
    if c = 45 then (scanHexNat (skipPrefix rest)).map fun (n, s) => (toUnsigned true n, s)
    else if c = 43 then (scanHexNat (skipPrefix rest)).map fun (n, s) => (toUnsigned false n, s)
    else (scanHexNat (skipPrefix (c :: rest))).map fun (n, s) => (toUnsigned false n, s)

/-- The byte cannot go on a hexadecimal number. -/
def endsHex (b : UInt8) : Prop := isHexDigit b = false ∧ b ≠ 120 ∧ b ≠ 88

variable {w n : ℕ} {rest : Bytes}

theorem scanHexNat_padded (stop : ∀ c ∈ rest.head?, endsHex c) :
    scanHexNat (padded w n ++ rest) = some (n, rest) := by
  have digits : ∀ b ∈ padded w n, isHexDigit b = true := fun _ => isHexDigit_padded
  have ended : rest.takeWhile isHexDigit = [] ∧ rest.dropWhile isHexDigit = rest := by
    cases rest with
    | nil => exact ⟨rfl, rfl⟩
    | cons c rest => simp [(stop c (by simp)).1]
  have taken : (padded w n ++ rest).takeWhile isHexDigit = padded w n := by
    rw [List.takeWhile_append_of_pos digits, ended.1, List.append_nil]
  have dropped : (padded w n ++ rest).dropWhile isHexDigit = rest := by
    rw [List.dropWhile_append_of_pos digits, ended.2]
  unfold scanHexNat
  split
  next none => exact absurd (taken.symm.trans none) (padded_ne_nil w n)
  next b bs some => rw [← some, taken, dropped, hexValue_padded]

/-- A digit is no white space. -/
theorem isSpace_of_isHexDigit {b : UInt8} (digit : isHexDigit b = true) : isSpace b = false := by
  by_contra space
  simp only [isSpace, Bool.not_eq_false, Bool.or_eq_true, beq_iff_eq, Bool.and_eq_true,
    decide_eq_true_eq] at space
  rcases space with rfl | ⟨-, low⟩
  · revert digit
    decide
  · have bound : b.toNat ≤ 13 := low
    have none : hexDigit b = none := by
      simp only [hexDigit, UInt8.le_iff_toNat_le]
      have h48 : (48 : UInt8).toNat = 48 := rfl
      have h97 : (97 : UInt8).toNat = 97 := rfl
      have h65 : (65 : UInt8).toNat = 65 := rfl
      rw [if_neg (by omega), if_neg (by omega), if_neg (by omega)]
    rw [isHexDigit, none] at digit
    cases digit

/-- A printed number does not look like a prefix. -/
theorem skipPrefix_padded (stop : ∀ c ∈ rest.head?, endsHex c) :
    skipPrefix (padded w n ++ rest) = padded w n ++ rest := by
  have second : ∀ a b more, padded w n ++ rest = a :: b :: more → b ≠ 120 ∧ b ≠ 88 := by
    intro a b more shape
    cases text : padded w n with
    | nil => exact absurd text (padded_ne_nil w n)
    | cons x xs =>
        rw [text, List.cons_append, List.cons.injEq] at shape
        cases xs with
        | nil =>
            have head : rest.head? = some b := by rw [← List.nil_append rest, shape.2]; rfl
            exact (stop b head).2
        | cons y ys =>
            have digit : isHexDigit y = true := isHexDigit_padded (w := w) (n := n) (by simp [text])
            rw [List.cons_append, List.cons.injEq] at shape
            rw [← shape.2.1]
            constructor <;>
            · rintro rfl
              revert digit
              decide
  generalize padded w n ++ rest = s at second
  unfold skipPrefix
  split
  next more => exact absurd rfl (second 48 120 more rfl).1
  next more => exact absurd rfl (second 48 88 more rfl).2
  next => rfl

/-- A printed number of 32 bits is read back. -/
theorem scanHex_padded (small : n < 2 ^ 32) (stop : ∀ c ∈ rest.head?, endsHex c) :
    scanHex (padded w n ++ rest) = some (UInt32.ofNat n, rest) := by
  have read := scanHexNat_padded (w := w) (n := n) stop
  have plain := skipPrefix_padded (w := w) (n := n) stop
  have value : toUnsigned false n = UInt32.ofNat n := by
    have below : ¬ 2 ^ 64 ≤ n := by omega
    rw [toUnsigned, if_neg below]
    rfl
  cases text : padded w n with
  | nil => exact absurd text (padded_ne_nil w n)
  | cons b bs =>
      have digit : isHexDigit b = true := isHexDigit_padded (w := w) (n := n) (by simp [text])
      have noSpace := isSpace_of_isHexDigit digit
      have noMinus : b ≠ 45 := by
        rintro rfl
        revert digit
        decide
      have noPlus : b ≠ 43 := by
        rintro rfl
        revert digit
        decide
      rw [text, List.cons_append] at read plain
      rw [List.cons_append]
      simp [scanHex, noSpace, noMinus, noPlus, plain, read, value]

/-! ## Byte order -/

/-- The value of bytes, the most significant first. -/
def bigEndian (bs : Bytes) : ℕ := bs.foldl (fun n b => 256 * n + b.toNat) 0

/-- The `k` low bytes of a value, the most significant first. -/
def bytesOf : ℕ → ℕ → Bytes
  | 0, _ => []
  | k + 1, n => bytesOf k (n / 256) ++ [UInt8.ofNat n]

theorem length_bytesOf (k n : ℕ) : (bytesOf k n).length = k := by
  induction k generalizing n with
  | zero => rfl
  | succ k ih => rw [bytesOf, List.length_append, ih, List.length_singleton]

theorem bigEndian_append (bs : Bytes) (b : UInt8) :
    bigEndian (bs ++ [b]) = 256 * bigEndian bs + b.toNat := by
  simp [bigEndian]

theorem bytesOf_bigEndian (bs : Bytes) : bytesOf bs.length (bigEndian bs) = bs := by
  induction bs using List.reverseRecOn with
  | nil => rfl
  | append_singleton bs b ih =>
      have bound := b.toNat_lt
      have quotient : (256 * bigEndian bs + b.toNat) / 256 = bigEndian bs := by omega
      have last : UInt8.ofNat (256 * bigEndian bs + b.toNat) = b := by
        apply UInt8.toNat_inj.mp
        rw [UInt8.toNat_ofNat']
        omega
      rw [List.length_append, List.length_singleton, bigEndian_append, bytesOf, quotient, ih, last]

theorem bigEndian_lt (bs : Bytes) : bigEndian bs < 256 ^ bs.length := by
  induction bs using List.reverseRecOn with
  | nil => decide
  | append_singleton bs b ih =>
      have bound := b.toNat_lt
      rw [List.length_append, List.length_singleton, bigEndian_append, pow_succ]
      omega

inductive ByteOrder
  | little
  | big
deriving DecidableEq

/-- Between the order in memory and the most significant byte first. -/
def ByteOrder.arrange : ByteOrder → Bytes → Bytes
  | .little, bs => bs.reverse
  | .big, bs => bs

/-- The `uint32_t` that is in memory. -/
def loadWord (order : ByteOrder) (bs : Bytes) : UInt32 := UInt32.ofNat (bigEndian (order.arrange bs))

/-- The memory that a `uint32_t` takes. -/
def storeWord (order : ByteOrder) (v : UInt32) : Bytes := order.arrange (bytesOf 4 v.toNat)

def htonl (order : ByteOrder) (v : UInt32) : UInt32 := loadWord order (storeWord .big v)

def ntohl (order : ByteOrder) (v : UInt32) : UInt32 := loadWord .big (storeWord order v)

variable {order : ByteOrder} {bs : Bytes}

@[simp] theorem length_arrange : (order.arrange bs).length = bs.length := by
  cases order with
  | little => exact List.length_reverse
  | big => rfl

@[simp] theorem arrange_arrange : order.arrange (order.arrange bs) = bs := by
  cases order with
  | little => exact List.reverse_reverse bs
  | big => rfl

theorem length_storeWord (v : UInt32) : (storeWord order v).length = 4 := by
  rw [storeWord, length_arrange, length_bytesOf]

theorem storeWord_loadWord (four : bs.length = 4) : storeWord order (loadWord order bs) = bs := by
  have bound := bigEndian_lt (order.arrange bs)
  rw [length_arrange, four] at bound
  have kept : (UInt32.ofNat (bigEndian (order.arrange bs))).toNat = bigEndian (order.arrange bs) := by
    exact UInt32.toNat_ofNat_of_lt' bound
  have back := bytesOf_bigEndian (order.arrange bs)
  rw [length_arrange, four] at back
  rw [storeWord, loadWord, kept, back, arrange_arrange]

/-- A word in memory, in network order, is its bytes as they stand. -/
theorem htonl_loadWord (four : bs.length = 4) :
    htonl order (loadWord order bs) = loadWord .big bs := by
  cases order with
  | big => rw [htonl, storeWord_loadWord four]
  | little =>
      have turned : storeWord .big (loadWord .little bs) = bs.reverse :=
        @storeWord_loadWord .big bs.reverse (by simpa using four)
      rw [htonl, turned]
      exact congrArg (fun bytes => UInt32.ofNat (bigEndian bytes)) (List.reverse_reverse bs)

/-- A word from the network is stored as its bytes as they stand. -/
theorem storeWord_ntohl (v : UInt32) : storeWord order (ntohl order v) = storeWord .big v := by
  cases order with
  | big => rw [ntohl, storeWord_loadWord (length_storeWord v)]
  | little =>
      have stored := @storeWord_loadWord .big (storeWord .little v) (length_storeWord v)
      calc storeWord .little (ntohl .little v)
          = (storeWord .big (ntohl .little v)).reverse := rfl
        _ = (storeWord .little v).reverse := by rw [ntohl, stored]
        _ = storeWord .big v := List.reverse_reverse _

/-! ## Parts of equal length -/

/-- The parts of a text of parts are found at their offsets. -/
theorem part_flatMap_range {f : ℕ → Bytes} {m k i : ℕ} (length : ∀ i, (f i).length = m)
    (below : i < k) : (((List.range k).flatMap f).drop (m * i)).take m = f i := by
  have total : ∀ k, ((List.range k).flatMap f).length = m * k := by
    intro k
    induction k with
    | zero => simp
    | succ k ih =>
        rw [List.range_succ, List.flatMap_append, List.length_append, ih]
        simp [length, Nat.mul_succ]
  induction k with
  | zero => cases below
  | succ k ih =>
      rw [List.range_succ, List.flatMap_append, List.flatMap_singleton]
      rcases Nat.lt_or_ge i k with earlier | last
      · have room : m * i + m ≤ m * k := by
          rw [← Nat.mul_succ]
          exact Nat.mul_le_mul_left m earlier
        rw [List.drop_append_of_le_length (by rw [total]; omega),
          List.take_append_of_le_length (by rw [List.length_drop, total]; omega)]
        exact ih earlier
      · obtain rfl : i = k := by omega
        rw [← total i, List.drop_left, ← length i, List.take_length]

/-- A text is put together from its parts. -/
theorem flatMap_range_part (s : Bytes) (m k : ℕ) :
    ((List.range k).flatMap fun i => (s.drop (m * i)).take m) = s.take (m * k) := by
  induction k with
  | zero => simp
  | succ k ih =>
      rw [List.range_succ, List.flatMap_append, List.flatMap_singleton, ih, Nat.mul_succ,
        List.take_add]

end HexText
