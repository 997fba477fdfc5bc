import RdmaWiki.Lib.HexText
import RdmaWiki.Lib.Scanf
import RdmaWiki.Messages

/-!
What two ends tell each other when they connect.

A `struct pingpong_dest` is sent as text, in a buffer of 52 bytes that it has to fill exactly.
The text does not depend on the byte order of the host that prints it, and every host reads the
same destination from it (`dest_round_trips`).
-/

namespace RdmaWiki

open CText HexText Scanf

/-- `union ibv_gid` -/
structure Gid where
  raw : Bytes
  length : raw.length = 16
deriving DecidableEq

/-- `memset(&gid, 0, sizeof gid)` -/
def Gid.zero : Gid := ⟨List.replicate 16 0, rfl⟩

/-- `gid.global.interface_id`, which only matters for being zero -/
def Gid.hasInterface (gid : Gid) : Bool := (gid.raw.drop 8).any (· ≠ 0)

/-- `struct pingpong_dest`. Its `int`s are the 32 bits that they are printed and scanned as. -/
structure Dest where
  lid : UInt32
  qpn : UInt32
  psn : UInt32
  gid : Gid
deriving DecidableEq

/-- The `i`-th word of a gid in memory. -/
def Gid.word (gid : Gid) (i : ℕ) : Bytes := (gid.raw.drop (4 * i)).take 4

/-- What `gid_to_wire_gid` prints, the NUL of its last `sprintf` left out. -/
def gidToWireGid (order : ByteOrder) (gid : Gid) : Bytes :=
  (List.range 4).flatMap fun i => padded 8 (htonl order (loadWord order (gid.word i))).toNat

/-- The loop of `wire_gid_to_gid`, with what `v32` holds. -/
def wireWords (order : ByteOrder) (wgid : Bytes) : List ℕ → Option UInt32 → Option Bytes
  | [], _ => some []
  | i :: rest, v32 =>
    match ((scanHex (text ((wgid.drop (8 * i)).take 8 ++ [0]))).map Prod.fst).or v32 with
    | none => none
    | some v32 =>
      (wireWords order wgid rest (some v32)).map (storeWord order (ntohl order v32) ++ ·)

/-- `wire_gid_to_gid` on the array `wgid`; nothing where `v32` is used before it is set. -/
def wireGidToGid (order : ByteOrder) (wgid : Bytes) : Option Gid :=
  (wireWords order wgid (List.range 4) none).bind fun raw =>
    if sixteen : raw.length = 16 then some ⟨raw, sixteen⟩ else none

/-- `sizeof "0000:000000:000000:00000000000000000000000000000000"` -/
def msgSize : ℕ := 4 + 1 + 6 + 1 + 6 + 1 + 32 + 1

/-- `char gid[33]` -/
def gidSize : ℕ := 33

/-- `sprintf(msg, "%04x:%06x:%06x:%s", lid, qpn, psn, gid)`, its terminator included. -/
def Dest.message (order : ByteOrder) (dest : Dest) : Bytes :=
  padded 4 dest.lid.toNat ++ colon :: (padded 6 dest.qpn.toNat ++ colon ::
    (padded 6 dest.psn.toNat ++ colon :: (gidToWireGid order dest.gid ++ [0])))

/-- `sscanf` with `k` times `"%x:"` and a last `"%s"`: what is assigned. -/
def scanDest : ℕ → Bytes → List UInt32 × Option Bytes
  | 0, s => ([], string (sscanf [.word] s) 0)
  | k + 1, s =>
    match scanHex s with
    | none => ([], none)
    | some (n, []) => ([n], none)
    | some (n, c :: s) =>
      if c = colon then (n :: (scanDest k s).1, (scanDest k s).2) else ([n], none)

/-- `gid` after a string was assigned to it, the rest being what it was. -/
def assignGid (gid : Bytes) : Option Bytes → Bytes
  | none => gid
  | some s => s ++ 0 :: gid.drop (s.length + 1)

/-- `sscanf(msg, "%x:%x:%x:%s", &lid, &qpn, &psn, gid)` and `wire_gid_to_gid(gid, ..)`, with the
bytes of `gid` that are known before. There is no result where a field is not assigned, or
where `msg` has no end or `gid` is left. -/
def readDest (order : ByteOrder) (gid : Bytes) (msg : Bytes) : Option Dest :=
  if 0 ∈ msg then
    match scanDest 3 (text msg) with
    | ([lid, qpn, psn], s) =>
      if (assignGid gid s).length = gidSize then
        (wireGidToGid order (assignGid gid s)).map fun gid => ⟨lid, qpn, psn, gid⟩
      else none
    | _ => none
  else none

/-! ## The gid -/

section Gid

variable {order order' : ByteOrder} {gid : Gid}

theorem Gid.length_word {i : ℕ} (below : i < 4) : (gid.word i).length = 4 := by
  rw [word, List.length_take, List.length_drop, gid.length]
  omega

/-- The text is that of the bytes of the gid as they stand, on every host. -/
theorem gidToWireGid_eq :
    gidToWireGid order gid =
      (List.range 4).flatMap fun i => padded 8 (loadWord .big (gid.word i)).toNat := by
  apply List.flatMap_congr
  intro i member
  rw [htonl_loadWord (Gid.length_word (List.mem_range.mp member))]

theorem length_padded_word (v : UInt32) : (padded 8 v.toNat).length = 8 :=
  length_padded_eq (by decide) v.toNat_lt

theorem length_gidToWireGid : (gidToWireGid order gid).length = 32 := by
  rw [gidToWireGid_eq]
  simp [List.range_succ, length_padded_word]

theorem isHexDigit_gidToWireGid {b : UInt8} (member : b ∈ gidToWireGid order gid) :
    isHexDigit b = true := by
  obtain ⟨i, -, digit⟩ := List.mem_flatMap.mp member
  exact isHexDigit_padded digit

theorem ne_zero_of_isHexDigit {b : UInt8} (digit : isHexDigit b = true) : b ≠ 0 := by
  rintro rfl
  revert digit
  decide

/-- The words that are read are those that were printed. -/
theorem wireWords_gidToWireGid {more : Bytes} (indices : List ℕ) (below : ∀ i ∈ indices, i < 4)
    (v32 : Option UInt32) :
    wireWords order' (gidToWireGid order gid ++ more) indices v32 =
      some (indices.flatMap gid.word) := by
  induction indices generalizing v32 with
  | nil => rfl
  | cons i rest ih =>
      have inside : i < 4 := below i List.mem_cons_self
      have part : ((gidToWireGid order gid ++ more).drop (8 * i)).take 8 =
          padded 8 (loadWord .big (gid.word i)).toNat := by
        rw [List.drop_append_of_le_length (by rw [length_gidToWireGid]; omega),
          List.take_append_of_le_length (by rw [List.length_drop, length_gidToWireGid]; omega),
          gidToWireGid_eq]
        exact part_flatMap_range (fun _ => length_padded_word _) inside
      have printed : text (padded 8 (loadWord .big (gid.word i)).toNat ++ [0]) =
          padded 8 (loadWord .big (gid.word i)).toNat ++ [] := by
        rw [List.append_nil]
        exact text_append_nul fun zero => ne_zero_of_isHexDigit (isHexDigit_padded zero) rfl
      have scanned := @scanHex_padded 8 _ [] (loadWord .big (gid.word i)).toNat_lt (by simp)
      simp only [wireWords, part, printed, scanned, Option.map_some, Option.some_or,
        UInt32.ofNat_toNat]
      rw [ih (fun i member => below i (List.mem_cons_of_mem _ member)), storeWord_ntohl,
        storeWord_loadWord (Gid.length_word inside), List.flatMap_cons]
      rfl

/-- A gid is read on one host as it was printed on another. -/
theorem wireGidToGid_gidToWireGid (more : Bytes) :
    wireGidToGid order' (gidToWireGid order gid ++ more) = some gid := by
  have whole : (List.range 4).flatMap gid.word = gid.raw := by
    have parts := flatMap_range_part gid.raw 4 4
    rw [List.take_of_length_le (by rw [gid.length])] at parts
    exact parts
  rw [wireGidToGid, wireWords_gidToWireGid _ fun i member => List.mem_range.mp member, whole]
  exact dif_pos gid.length

end Gid

/-! ## The message -/

/-- The numbers fit their columns: a LID of 16 bits and two numbers of 24 bits. -/
structure Dest.Fits (dest : Dest) : Prop where
  lid : dest.lid.toNat < 2 ^ 16
  qpn : dest.qpn.toNat < 2 ^ 24
  psn : dest.psn.toNat < 2 ^ 24

section Message

variable {order order' : ByteOrder} {dest : Dest}

theorem length_message : (dest.message order).length =
    (padded 4 dest.lid.toNat).length + (padded 6 dest.qpn.toNat).length +
      (padded 6 dest.psn.toNat).length + 36 := by
  simp only [Dest.message, List.length_append, List.length_cons, length_gidToWireGid,
    List.length_nil]
  omega

/-- The buffer is filled or left. -/
theorem msgSize_le_length_message : msgSize ≤ (dest.message order).length := by
  rw [length_message, length_padded, length_padded, length_padded, msgSize]
  omega

theorem length_message_le_iff : (dest.message order).length ≤ msgSize ↔ dest.Fits := by
  have lid := length_padded_le_iff (w := 4) (n := dest.lid.toNat) (by decide)
  have qpn := length_padded_le_iff (w := 6) (n := dest.qpn.toNat) (by decide)
  have psn := length_padded_le_iff (w := 6) (n := dest.psn.toNat) (by decide)
  rw [length_padded] at lid qpn psn
  rw [length_message, length_padded, length_padded, length_padded, msgSize]
  constructor
  · intro short
    exact ⟨lid.mp (by omega), qpn.mp (by omega), psn.mp (by omega)⟩
  · intro fits
    have := lid.mpr fits.lid
    have := qpn.mpr fits.qpn
    have := psn.mpr fits.psn
    omega

theorem endsHex_colon : endsHex colon := by unfold endsHex; decide

/-- A number and its colon are scanned. -/
theorem scanDest_padded (k w : ℕ) (v : UInt32) (rest : Bytes) :
    scanDest (k + 1) (padded w v.toNat ++ colon :: rest) =
      (v :: (scanDest k rest).1, (scanDest k rest).2) := by
  have read := @scanHex_padded w v.toNat (colon :: rest) v.toNat_lt
    fun c head => by
      obtain rfl : colon = c := by simpa using head
      exact endsHex_colon
  simp only [scanDest, read, UInt32.ofNat_toNat, if_pos]

theorem scanDest_word {s : Bytes} (nonempty : s ≠ []) (solid : ∀ c ∈ s, isSpace c = false) :
    scanDest 0 s = ([], some s) := by
  have whole : s.takeWhile (fun c => !isSpace c) = s :=
    List.takeWhile_eq_self_iff.mpr fun c member => by simp [solid c member]
  have start : s.dropWhile isSpace = s := by
    cases s with
    | nil => rfl
    | cons c rest => rw [List.dropWhile_cons_of_neg (by simp [solid c List.mem_cons_self])]
  obtain ⟨c, rest, rfl⟩ := List.exists_cons_of_ne_nil nonempty
  simp [scanDest, sscanf, start, whole, string]

/-- The string in the buffer ends where the gid ends. -/
theorem text_message : text (dest.message order) =
    padded 4 dest.lid.toNat ++ colon :: (padded 6 dest.qpn.toNat ++ colon ::
      (padded 6 dest.psn.toNat ++ colon :: gidToWireGid order dest.gid)) := by
  have shape : dest.message order = (padded 4 dest.lid.toNat ++ colon ::
      (padded 6 dest.qpn.toNat ++ colon :: (padded 6 dest.psn.toNat ++ colon ::
        gidToWireGid order dest.gid))) ++ 0 :: [] := by
    simp [Dest.message, List.append_assoc]
  have digit : ∀ w n, (0 : UInt8) ∉ padded w n := fun w n zero =>
    ne_zero_of_isHexDigit (isHexDigit_padded zero) rfl
  have gid : (0 : UInt8) ∉ gidToWireGid order dest.gid := fun zero =>
    ne_zero_of_isHexDigit (isHexDigit_gidToWireGid zero) rfl
  rw [shape]
  apply text_append_nul
  simp [digit, gid, colon]

/-- A destination is read as it was printed, whatever the array of the gid holds before. -/
theorem readDest_message {gid : Bytes} (known : gid.length ≤ gidSize) :
    readDest order' gid (dest.message order) = some dest := by
  have wire : (gidToWireGid order dest.gid).length = 32 := length_gidToWireGid
  have ends : 0 ∈ dest.message order := by simp [Dest.message]
  have word : scanDest 0 (gidToWireGid order dest.gid) =
      ([], some (gidToWireGid order dest.gid)) := by
    apply scanDest_word
    · exact List.ne_nil_of_length_pos (by rw [wire]; decide)
    · exact fun c member => isSpace_of_isHexDigit (isHexDigit_gidToWireGid member)
  have array : assignGid gid (some (gidToWireGid order dest.gid)) =
      gidToWireGid order dest.gid ++ [0] := by
    rw [assignGid, List.drop_eq_nil_of_le (by rw [wire]; exact known)]
  have room : (gidToWireGid order dest.gid ++ [0]).length = gidSize := by
    rw [List.length_append, wire]
    rfl
  simp only [readDest, if_pos ends, text_message, scanDest_padded, word, array, if_pos room,
    wireGidToGid_gidToWireGid, Option.map_some]

/-- What is printed fits the buffer exactly when the numbers fit their columns. It then fills it,
and any other host reads the destination that was printed. -/
theorem dest_round_trips (order order' : ByteOrder) (dest : Dest) :
    ((dest.message order).length ≤ msgSize ↔ dest.Fits) ∧
      (dest.Fits → (dest.message order).length = msgSize ∧
        ∀ gid : Bytes, gid.length ≤ gidSize →
          readDest order' gid (dest.message order) = some dest) :=
  ⟨length_message_le_iff, fun fits =>
    ⟨le_antisymm (length_message_le_iff.mpr fits) msgSize_le_length_message,
      fun _ => readDest_message⟩⟩

/-- A link-local gid, whose words the two hosts keep in different orders. -/
theorem dest_round_trips_local :
    let gid : Gid := ⟨[0xfe, 0x80, 0, 0, 0, 0, 0, 0, 2, 0xc9, 3, 0xff, 0xfe, 0x12, 0x34, 0x56], rfl⟩
    readDest .big [] (Dest.message .little ⟨3, 0x1f4, 0xabcdef, gid⟩) =
      some ⟨3, 0x1f4, 0xabcdef, gid⟩ :=
  ((dest_round_trips .little .big ⟨3, 0x1f4, 0xabcdef, _⟩).2
    ⟨by decide, by decide, by decide⟩).2 [] (by decide)

end Message

end RdmaWiki
