import RdmaWiki.Lib.Scanf
import RdmaWiki.TextBounds

/-!
Query files.

`parse_input` hands every line of a file to `execute_query`, which cuts it apart with `sscanf`
and calls `kv_set` or `kv_get`. They are written here as programs over these calls, with an
undefined outcome where an array is left or a variable is read that was never assigned. A line
for a small set or a get is executed as it is written, and a line for a large set never is,
because the `%s` of its second scan takes the whole line into the three bytes of `flag`
(`query_executed_iff`). So a file of lines of the first two kinds is executed line by line,
unless `kv_open` has failed before there was a context: nobody looks at what it returns, and the
first query then goes through a handle that points nowhere (`file_executed`).
-/

namespace RdmaWiki

open CText LibraryCalls Scanf

/-! ## The calls -/

inductive ClientCall
  | kvOpen
  | kvClose
  | query (call : Call)
  /-- `value_sr` -/
  | malloc (n : ℕ)
deriving DecidableEq

/-- What `kv_open` leaves in `kv_handle`. -/
inductive HandleState
  | connected
  /-- it failed later than `pp_init_ctx`, and the handle points to a context -/
  | halfOpen
  /-- it failed before, and the handle was not assigned or is NULL -/
  | unset
deriving DecidableEq

abbrev ClientCall.Answer : ClientCall → Type
  | .kvOpen => HandleState
  | .kvClose | .query _ => Ret
  | .malloc _ => Bool

/-- The calls that read the context that the handle points to. -/
def ClientCall.usesHandle : ClientCall → Bool
  | .kvClose | .query _ => true
  | .kvOpen | .malloc _ => false

abbrev QueryProgram := Program ClientCall ClientCall.Answer Stop

abbrev QueryEvent := Answered ClientCall ClientCall.Answer

/-- `'\\n'` -/
def newline : UInt8 := 10

/-- The string in an array. -/
def cstring (buf : Bytes) : CString := ⟨text buf, text_noNul buf⟩

/-- An assignment to an element of an array. -/
def put (buf : Bytes) (i : ℕ) (b : UInt8) : Option Bytes :=
  if i < buf.length then some (buf.set i b) else none

namespace QueryProgram

def lib (call : ClientCall) : QueryProgram call.Answer := .invoke call

/-- `"%2[^:]:%255[^:]:%255[^\\n]"` -/
def lineFormat : List Directive :=
  [.set 2 (· ≠ colon), .lit colon, .set 255 (· ≠ colon), .lit colon, .set 255 (· ≠ newline)]

/-- `"%s:%s:%d"` -/
def sizeFormat : List Directive := [.word, .lit colon, .word, .lit colon, .int]

/-- `sscanf` of the string in `line` into arrays of the given sizes. -/
def scanInto (format : List Directive) (sizes : List ℕ) (line : Bytes) :
    QueryProgram (List Field) :=
  if inBounds sizes (sscanf format (text line)) then return sscanf format (text line)
  else .stop .undefined

/-- A string variable that is read. -/
def load (assigned : Option Bytes) : QueryProgram CString :=
  match assigned with
  | none => .stop .undefined
  | some s => return cstring (s ++ [0])

/-- The `sr` branch of `execute_query`. -/
def executeSr (line : Bytes) (key : Option Bytes) : QueryProgram Ret := do
  let fields ← scanInto sizeFormat [3, 256] line
  match number fields 2 with
  | none => .stop .undefined
  | some valueSize =>
    let valueSr ← lib (.malloc (valueSize % 2 ^ 64).toNat)
    if valueSr = false ∨ valueSize < 0 then .stop .undefined
    else
      -- the NUL is written behind the `value_size` bytes
      match put (List.replicate valueSize.toNat 'a'.toUInt8) valueSize.toNat 0 with
      | none => .stop .undefined
      | some buf =>
        let key ← load ((string fields 1).or key)
        lib (.query (.kvSet key (cstring buf)))

def executeQuery (line : Bytes) : QueryProgram Ret := do
  let fields ← scanInto lineFormat [3, 256, 256] line
  let flag ← load (string fields 0)
  if flag.bytes.take 2 = ascii ['s', 'e'] then
    let key ← load (string fields 1)
    let value ← load (string fields 2)
    lib (.query (.kvSet key value))
  else if flag.bytes.take 2 = ascii ['s', 'r'] then executeSr line (string fields 1)
  else if flag.bytes.take 2 = ascii ['g', 'e'] then
    let key ← load (string fields 1)
    lib (.query (.kvGet key))
  else return .exitFailure

/-- The loop of `parse_input` over the lines. -/
def executeLines : List Bytes → QueryProgram Unit
  | [] => do
    let _ ← lib .kvClose
    return ()
  | line :: rest => do
    let ret ← executeQuery line
    if ret = .exitFailure then return ()
    else executeLines rest

/-- The lines that `getline` returns, with their line ends. -/
def getlines : Bytes → List Bytes
  | [] => []
  | c :: rest =>
    if c = newline then [c] :: getlines rest
    else
      match getlines rest with
      | [] => [[c]]
      | line :: lines => (c :: line) :: lines

/-- The calls on `kv_handle`: there must be a context that it points to. -/
def onHandle {α : Type} (opened : HandleState) : QueryProgram α → QueryProgram α
  | .done a => .done a
  | .stop reason => .stop reason
  | .call c next =>
    if c.usesHandle = true ∧ opened = .unset then .stop .undefined
    else .call c fun r => onHandle opened (next r)

/-- `parse_input`, on the contents of the file where it can be opened. It goes on whatever
`kv_open` returns. -/
def parseInput : Option Bytes → QueryProgram Unit
  | none => return ()
  | some contents => do
    let opened ← lib .kvOpen
    onHandle opened (executeLines (getlines contents))

end QueryProgram

/-! ## The documented lines -/

/-- A line of a query file. -/
inductive QueryLine
  /-- `se:key:value` -/
  | se (key value : CString)
  /-- `sr:key:valueSize` -/
  | sr (key size : CString)
  /-- `ge:key:x` -/
  | ge (key x : CString)
deriving DecidableEq

namespace QueryLine

def flag : QueryLine → Bytes
  | .se _ _ => ascii ['s', 'e']
  | .sr _ _ => ascii ['s', 'r']
  | .ge _ _ => ascii ['g', 'e']

def key : QueryLine → CString
  | .se key _ | .sr key _ | .ge key _ => key

/-- The third field. -/
def third : QueryLine → CString
  | .se _ x | .sr _ x | .ge _ x => x

def bytes (l : QueryLine) : Bytes := l.flag ++ colon :: (l.key.bytes ++ colon :: l.third.bytes)

/-- The query that the line encodes. -/
def call : QueryLine → Call
  | .se key value => .kvSet key value
  | .sr key size => .kvSet key (letters (digitsValue size.bytes))
  | .ge key _ => .kvGet key

/-- The line asks for a set of so many letters. -/
def isSr : QueryLine → Bool
  | .sr _ _ => true
  | .se _ _ | .ge _ _ => false

/-- Key and third field have 1 to 255 characters, none of them a line end, the key no `':'`,
and a size is a decimal number. -/
structure Documented (l : QueryLine) : Prop where
  key : l.key.bytes ≠ [] ∧ l.key.bytes.length ≤ 255 ∧ newline ∉ l.key.bytes
  word : colon ∉ l.key.bytes
  third : l.third.bytes ≠ [] ∧ l.third.bytes.length ≤ 255 ∧ newline ∉ l.third.bytes
  size : l.isSr = true → ∀ c ∈ l.third.bytes, isDigit c = true

theorem flag_clean (l : QueryLine) : l.flag.length = 2 ∧ l.flag ≠ [] ∧ colon ∉ l.flag := by
  cases l with
  | se key value => exact ⟨rfl, List.cons_ne_nil _ _, by simp only [flag]; decide⟩
  | sr key size => exact ⟨rfl, List.cons_ne_nil _ _, by simp only [flag]; decide⟩
  | ge key x => exact ⟨rfl, List.cons_ne_nil _ _, by simp only [flag]; decide⟩

end QueryLine

section Execute

variable {l : QueryLine} {ending : Bytes}

/-- A line is a string. -/
theorem text_line (ends : ending = [] ∨ ending = [newline]) :
    text (l.bytes ++ ending) = l.bytes ++ ending := by
  have separates : (0 : UInt8) ≠ colon := by decide
  have ended : (0 : UInt8) ∉ ending := by
    rcases ends with rfl | rfl <;> decide
  have flagged : (0 : UInt8) ∉ l.flag := by
    cases l with
    | se key value => simp only [QueryLine.flag]; decide
    | sr key size => simp only [QueryLine.flag]; decide
    | ge key x => simp only [QueryLine.flag]; decide
  have keyed := l.key.noNul
  have filled := l.third.noNul
  have noNul : (0 : UInt8) ∉ l.bytes ++ ending := by
    simp only [QueryLine.bytes, List.mem_append, List.mem_cons]
    tauto
  refine List.takeWhile_eq_self_iff.mpr fun c member => ?_
  exact decide_eq_true (ne_of_mem_of_not_mem member noNul)

/-- The first scan cuts a line into its three fields. -/
theorem sscanf_line (documented : l.Documented) (ends : ending = [] ∨ ending = [newline]) :
    sscanf QueryProgram.lineFormat (l.bytes ++ ending) =
      [.text l.flag, .text l.key.bytes, .text l.third.bytes] := by
  obtain ⟨two, some, clean⟩ := l.flag_clean
  obtain ⟨keyed, keyShort, -⟩ := documented.key
  obtain ⟨filled, short, within⟩ := documented.third
  have shape : l.bytes ++ ending =
      l.flag ++ colon :: (l.key.bytes ++ colon :: (l.third.bytes ++ ending)) := by
    simp [QueryLine.bytes]
  have accepted {s : Bytes} {c : UInt8} (other : c ∉ s) : ∀ x ∈ s, decide (x ≠ c) = true := by
    intro x member
    exact decide_eq_true (ne_of_mem_of_not_mem member other)
  have stops : ∀ c, (colon :: (l.third.bytes ++ ending)).head? = .some c →
      decide (c ≠ colon) = false := by
    intro c first
    cases first
    rfl
  have last : ∀ c, ending.head? = .some c → decide (c ≠ newline) = false := by
    intro c first
    rcases ends with rfl | rfl
    · cases first
    · cases first
      rfl
  rw [shape, QueryProgram.lineFormat, sscanf_set some two.le (accepted clean) (.inl two),
    sscanf_lit, sscanf_set keyed keyShort (accepted documented.word) (.inr stops), sscanf_lit,
    sscanf_set filled short (accepted within) (.inr last)]
  rfl

/-- The string in an array that a string was written to. -/
theorem cstring_nul (s : CString) : cstring (s.bytes ++ [0]) = s :=
  CString.eq_of_bytes (text_append_nul s.noNul)

/-- The arrays have room for the three fields. -/
theorem inBounds_line (documented : l.Documented) :
    inBounds [3, 256, 256] [.text l.flag, .text l.key.bytes, .text l.third.bytes] = true := by
  have two := l.flag_clean.1
  have keyShort := documented.key.2.1
  have short := documented.third.2.1
  have fits {s : Bytes} {size : ℕ} (room : s.length < size) : (Field.text s).fits size = true :=
    decide_eq_true room
  simp only [inBounds, List.zip_cons_cons, List.zip_nil_right, List.all_cons, List.all_nil,
    Bool.and_true, Bool.and_eq_true]
  exact ⟨fits (by omega), fits (by omega), fits (by omega)⟩

/-- What `execute_query` does with a documented line, whose fields all fit. -/
theorem executeQuery_line (documented : l.Documented) (ends : ending = [] ∨ ending = [newline]) :
    QueryProgram.executeQuery (l.bytes ++ ending) =
      if l.flag = ascii ['s', 'e'] then QueryProgram.lib (.query (.kvSet l.key l.third))
      else if l.flag = ascii ['s', 'r'] then
        QueryProgram.executeSr (l.bytes ++ ending) (some l.key.bytes)
      else if l.flag = ascii ['g', 'e'] then QueryProgram.lib (.query (.kvGet l.key))
      else return .exitFailure := by
  have flagged : (cstring (l.flag ++ [0])).bytes.take 2 = l.flag := by cases l <;> rfl
  have keyed := cstring_nul l.key
  have filled := cstring_nul l.third
  unfold QueryProgram.executeQuery QueryProgram.scanInto
  rw [text_line ends, sscanf_line documented ends, if_pos (inBounds_line documented)]
  generalize l.bytes ++ ending = line
  generalize l.flag = flag at flagged
  change (if (cstring (flag ++ [0])).bytes.take 2 = ascii ['s', 'e'] then
      QueryProgram.lib (.query (.kvSet (cstring (l.key.bytes ++ [0]))
        (cstring (l.third.bytes ++ [0]))))
    else if (cstring (flag ++ [0])).bytes.take 2 = ascii ['s', 'r'] then
      QueryProgram.executeSr line (some l.key.bytes)
    else if (cstring (flag ++ [0])).bytes.take 2 = ascii ['g', 'e'] then
      QueryProgram.lib (.query (.kvGet (cstring (l.key.bytes ++ [0]))))
    else return .exitFailure) = _
  rw [flagged, keyed, filled]

/-- A line for a small set or a get is executed as it is written. -/
theorem executeQuery_eq (documented : l.Documented) (ends : ending = [] ∨ ending = [newline])
    (other : l.isSr = false) :
    QueryProgram.executeQuery (l.bytes ++ ending) = QueryProgram.lib (.query l.call) := by
  rw [executeQuery_line documented ends]
  cases l with
  | sr key size => cases other
  | se key value => exact if_pos rfl
  | ge key x =>
      rw [if_neg (by simp only [QueryLine.flag]; decide),
        if_neg (by simp only [QueryLine.flag]; decide)]
      exact if_pos rfl

/-- The second scan takes the first two fields together for the flag. -/
theorem executeSr_leaves {word s : Bytes} {key : Option Bytes} (long : 3 ≤ word.length)
    (solid : ∀ c ∈ word, isSpace c = false) (whole : text (word ++ s) = word ++ s) :
    QueryProgram.executeSr (word ++ s) key = .stop .undefined := by
  have nonempty : word ≠ [] := by
    rintro rfl
    exact absurd long (by decide)
  obtain ⟨more, fields, scanned⟩ : ∃ more fields,
      sscanf QueryProgram.sizeFormat (word ++ s) = .text (word ++ more) :: fields :=
    sscanf_word nonempty solid
  have leaves : inBounds [3, 256] (.text (word ++ more) :: fields) = false := by
    have beyond : (Field.text (word ++ more)).fits 3 = false := by
      apply decide_eq_false
      rw [List.length_append]
      omega
    simp only [inBounds, List.zip_cons_cons, List.all_cons, beyond, Bool.false_and]
  unfold QueryProgram.executeSr QueryProgram.scanInto
  rw [whole, scanned, leaves]
  rfl

/-- The line for a large set leaves the array of the flag. -/
theorem executeQuery_sr (documented : l.Documented) (ends : ending = [] ∨ ending = [newline])
    (large : l.isSr = true) :
    QueryProgram.executeQuery (l.bytes ++ ending) = .stop .undefined := by
  rw [executeQuery_line documented ends]
  cases l with
  | se key value => cases large
  | ge key x => cases large
  | sr key size =>
      have starts : (QueryLine.sr key size).bytes ++ ending = (ascii ['s', 'r'] ++ [colon]) ++
          (key.bytes ++ colon :: size.bytes ++ ending) := by
        simp [QueryLine.bytes, QueryLine.flag, QueryLine.key, QueryLine.third]
      have whole := text_line (l := .sr key size) ends
      rw [starts] at whole
      rw [if_neg (by simp only [QueryLine.flag]; decide), if_pos (by rfl), starts]
      refine executeSr_leaves (by decide) ?_ whole
      intro c member
      rcases List.mem_cons.mp member with rfl | member
      · rfl
      · rcases List.mem_cons.mp member with rfl | member
        · rfl
        · rw [List.mem_singleton.mp member]
          rfl

/-- A documented line is executed as it is written, by one call with the key and the value that
it encodes and no undefined behaviour, exactly if it is not one for a large set. -/
theorem query_executed_iff (documented : l.Documented)
    (ends : ending = [] ∨ ending = [newline]) :
    (∀ log out, (QueryProgram.executeQuery (l.bytes ++ ending)).Path log out →
      ∃ ret, log = [⟨.query l.call, ret⟩] ∧ out = .ok ret) ↔ l.isSr = false := by
  constructor
  · intro executed
    by_contra large
    have large : l.isSr = true := by simpa using large
    have path := Program.Path.stop (C := ClientCall) (R := ClientCall.Answer) (α := Ret)
      Stop.undefined
    rw [← executeQuery_sr documented ends large] at path
    obtain ⟨ret, same, -⟩ := executed _ _ path
    cases same
  · intro other log out path
    rw [executeQuery_eq documented ends other] at path
    cases path with
    | call ret rest =>
        cases rest
        exact ⟨ret, rfl, rfl⟩

/-- A line for a small set, with its line end. -/
theorem query_executed_se : (QueryLine.se keyK (letters 3)).Documented ∧
    ∀ log out, (QueryProgram.executeQuery
        ((QueryLine.se keyK (letters 3)).bytes ++ [newline])).Path log out →
      ∃ ret, log = [⟨.query (.kvSet keyK (letters 3)), ret⟩] ∧ out = .ok ret := by
  have documented : (QueryLine.se keyK (letters 3)).Documented := by
    constructor <;> decide
  exact ⟨documented, (query_executed_iff documented (.inr rfl)).mpr rfl⟩

/-- The line that asks for five letters is not executed as it is written. -/
theorem five_letters_not_set : ∃ l : QueryLine, l.bytes = ascii ['s', 'r', ':', 'k', ':', '5'] ∧
    l.Documented ∧ l.call = .kvSet keyK (letters 5) ∧
    ¬ ∀ log out, (QueryProgram.executeQuery (l.bytes ++ [newline])).Path log out →
      ∃ ret, log = [⟨.query l.call, ret⟩] ∧ out = .ok ret := by
  have documented : (QueryLine.sr keyK ⟨ascii ['5'], by decide⟩).Documented := by
    refine ⟨by decide, by decide, by decide, ?_⟩
    intro _ c member
    rw [List.mem_singleton.mp member]
    rfl
  refine ⟨_, ?_, documented, ?_, ?_⟩
  · rfl
  · rfl
  rw [query_executed_iff documented (.inr rfl)]
  decide

end Execute

/-! ## Files -/

/-- A file of these lines. After the last one there is a line end or not. -/
def QueryLine.file (ended : Bool) : List QueryLine → Bytes
  | [] => []
  | [l] => l.bytes ++ if ended then [newline] else []
  | l :: lines => l.bytes ++ newline :: file ended lines

/-- `Issued lines log`: the queries of the lines, up to the first that fails, and the close of
the connection where none does. -/
inductive Issued : List QueryLine → List QueryEvent → Prop
  | closed (ret : Ret) : Issued [] [⟨.kvClose, ret⟩]
  | failed (l : QueryLine) (lines : List QueryLine) :
    Issued (l :: lines) [⟨.query l.call, .exitFailure⟩]
  | next {l : QueryLine} {lines : List QueryLine} {log : List QueryEvent} {ret : Ret}
    (fine : ret ≠ .exitFailure) : Issued lines log →
    Issued (l :: lines) (⟨.query l.call, ret⟩ :: log)

/-- What `getline` returns for a line. -/
def QueryLine.ReadAs (raw : Bytes) (l : QueryLine) : Prop :=
  ∃ ending, (ending = [] ∨ ending = [newline]) ∧ raw = l.bytes ++ ending

section Files

variable {l : QueryLine} {lines : List QueryLine}

/-- `getline` takes a line with its end. -/
theorem getlines_line {s : Bytes} (rest : Bytes) (within : newline ∉ s) :
    QueryProgram.getlines (s ++ newline :: rest) =
      (s ++ [newline]) :: QueryProgram.getlines rest := by
  induction s with
  | nil => exact if_pos rfl
  | cons c s ih =>
      have other : c ≠ newline := by
        rintro rfl
        exact within List.mem_cons_self
      rw [List.cons_append, QueryProgram.getlines, if_neg other,
        ih fun member => within (List.mem_cons_of_mem _ member)]
      rfl

/-- The last line may have none. -/
theorem getlines_last {s : Bytes} (filled : s ≠ []) (within : newline ∉ s) :
    QueryProgram.getlines s = [s] := by
  induction s with
  | nil => exact absurd rfl filled
  | cons c s ih =>
      have other : c ≠ newline := by
        rintro rfl
        exact within List.mem_cons_self
      rw [QueryProgram.getlines, if_neg other]
      cases s with
      | nil => rfl
      | cons d s =>
          rw [ih (List.cons_ne_nil d s) fun member => within (List.mem_cons_of_mem _ member)]

/-- No line end in a documented line. -/
theorem QueryLine.Documented.newline_notMem (documented : l.Documented) : newline ∉ l.bytes := by
  have flagged : newline ∉ l.flag := by
    cases l with
    | se key value => simp only [QueryLine.flag]; decide
    | sr key size => simp only [QueryLine.flag]; decide
    | ge key x => simp only [QueryLine.flag]; decide
  have separates : newline ≠ colon := by decide
  have keyed := documented.key.2.2
  have filled := documented.third.2.2
  simp only [QueryLine.bytes, List.mem_append, List.mem_cons]
  tauto

/-- The lines of a file are read as they stand in it. -/
theorem getlines_file (ended : Bool) (documented : ∀ l ∈ lines, l.Documented) :
    List.Forall₂ QueryLine.ReadAs (QueryProgram.getlines (QueryLine.file ended lines)) lines := by
  induction lines with
  | nil => exact .nil
  | cons l lines ih =>
      obtain ⟨first, others⟩ := List.forall_mem_cons.mp documented
      have within := first.newline_notMem
      have line : QueryLine.ReadAs (l.bytes ++ [newline]) l := ⟨[newline], .inr rfl, rfl⟩
      cases lines with
      | cons next lines =>
          rw [QueryLine.file, getlines_line _ within]
          · exact .cons line (ih others)
          · exact List.cons_ne_nil next lines
      | nil =>
          cases ended with
          | true =>
              have split : QueryLine.file true [l] = l.bytes ++ newline :: [] := rfl
              rw [split, getlines_line [] within]
              exact .cons line .nil
          | false =>
              have filled : l.bytes ≠ [] := by simp [QueryLine.bytes]
              have split : QueryLine.file false [l] = l.bytes := List.append_nil _
              rw [split, getlines_last filled within]
              exact .cons ⟨[], .inl rfl, (List.append_nil _).symm⟩ .nil

/-- With a context behind the handle the calls are as they stand. -/
theorem onHandle_eq {α : Type} {opened : HandleState} (set : opened ≠ .unset)
    (p : QueryProgram α) : QueryProgram.onHandle opened p = p := by
  induction p with
  | done a => rfl
  | stop reason => rfl
  | call c next ih =>
      rw [QueryProgram.onHandle, if_neg fun both => set both.2]
      exact congrArg (Program.call c) (funext ih)

/-- Without one the first query or the close is undefined. -/
theorem lines_unset {raws : List Bytes} (read : List.Forall₂ QueryLine.ReadAs raws lines)
    (documented : ∀ l ∈ lines, l.Documented) (others : ∀ l ∈ lines, l.isSr = false) :
    QueryProgram.onHandle .unset (QueryProgram.executeLines raws) = .stop .undefined := by
  cases read with
  | nil => exact if_pos ⟨rfl, rfl⟩
  | cons line _ =>
      obtain ⟨ending, ends, rfl⟩ := line
      rw [QueryProgram.executeLines, executeQuery_eq (documented _ List.mem_cons_self) ends
        (others _ List.mem_cons_self)]
      exact if_pos ⟨rfl, rfl⟩

/-- The loop over lines without large sets issues their queries. -/
theorem lines_executed {raws : List Bytes} {log : List QueryEvent} {out : Except Stop Unit}
    (read : List.Forall₂ QueryLine.ReadAs raws lines)
    (documented : ∀ l ∈ lines, l.Documented) (others : ∀ l ∈ lines, l.isSr = false)
    (path : (QueryProgram.executeLines raws).Path log out) :
    out = .ok () ∧ Issued lines log := by
  induction read generalizing log with
  | nil =>
      cases path with
      | call ret rest =>
          cases rest
          exact ⟨rfl, .closed ret⟩
  | @cons raw l raws lines line _ ih =>
      obtain ⟨first, documented⟩ := List.forall_mem_cons.mp documented
      obtain ⟨small, others⟩ := List.forall_mem_cons.mp others
      obtain ⟨ending, ends, rfl⟩ := line
      rw [QueryProgram.executeLines, executeQuery_eq first ends small] at path
      cases path with
      | @call _ _ log _ ret rest =>
          replace rest : (if ret = .exitFailure then (return () : QueryProgram Unit)
            else .executeLines raws).Path log out := rest
          by_cases failed : ret = .exitFailure
          · rw [if_pos failed] at rest
            cases rest
            rw [failed]
            exact ⟨rfl, .failed l lines⟩
          · rw [if_neg failed] at rest
            obtain ⟨done, issued⟩ := ih documented others rest
            exact ⟨done, .next failed issued⟩

/-- A file of documented lines without large sets, the last one with a line end or without, is
executed as it is written: whatever the calls return, the queries are issued in their order up to
the first that fails, and the connection is closed where none does. Only where `kv_open` has failed
before there was a context, the first of these calls is undefined. -/
theorem file_executed {ended : Bool} {log : List QueryEvent} {out : Except Stop Unit}
    (documented : ∀ l ∈ lines, l.Documented) (others : ∀ l ∈ lines, l.isSr = false)
    (path : (QueryProgram.parseInput (some (QueryLine.file ended lines))).Path log out) :
    ∃ opened queries, log = ⟨.kvOpen, opened⟩ :: queries ∧
      (opened ≠ .unset ∧ out = .ok () ∧ Issued lines queries ∨
        opened = .unset ∧ out = .error .undefined ∧ queries = []) := by
  have read := getlines_file ended documented
  cases path with
  | @call _ _ queries _ opened rest =>
      refine ⟨opened, queries, rfl, ?_⟩
      replace rest : (QueryProgram.onHandle opened (QueryProgram.executeLines
        (QueryProgram.getlines (QueryLine.file ended lines)))).Path queries out := rest
      by_cases set : opened = .unset
      · rw [set, lines_unset read documented others] at rest
        cases rest
        exact .inr ⟨set, rfl, rfl⟩
      · rw [onHandle_eq set] at rest
        obtain ⟨done, issued⟩ := lines_executed read documented others rest
        exact .inl ⟨set, done, issued⟩

/-- A set and a get of its key without a line end, after which the connection is closed. -/
theorem file_executed_two : ∃ log : List QueryEvent, log.length = 4 ∧
    Issued [.se keyK (letters 3), .ge keyK (letters 1)] log.tail := by
  have path : (QueryProgram.parseInput (some (QueryLine.file false
      [.se keyK (letters 3), .ge keyK (letters 1)]))).Path
      [⟨.kvOpen, HandleState.connected⟩, ⟨.query (.kvSet keyK (letters 3)), .exitSuccess⟩,
        ⟨.query (.kvGet keyK), .exitSuccess⟩, ⟨.kvClose, .exitSuccess⟩] (.ok ()) :=
    Program.path_of_replay (by decide +kernel)
  have documented : ∀ l ∈ [QueryLine.se keyK (letters 3), .ge keyK (letters 1)],
      l.Documented := by
    intro l member
    rcases List.mem_pair.mp member with rfl | rfl
    · constructor <;> decide
    · constructor <;> decide
  obtain ⟨opened, queries, same, ⟨-, -, issued⟩ | ⟨unset, -⟩⟩ :=
    file_executed documented (by decide) path
  · cases same
    exact ⟨⟨.kvOpen, HandleState.connected⟩ :: _, rfl, issued⟩
  · cases same
    cases unset

end Files

end RdmaWiki
