import RdmaWiki.Lib.CText
import Mathlib.Tactic.Common

/-!
The request texts of the key-value protocol.

A client formats every request as `flag:key:x` into its 4 KB buffer and sends
the text with its NUL; the server cuts it apart with `strtok` on `':'`. This
module holds the formats, the parsing half of `parse_data`, and what parsing
makes of each format for an arbitrary key. `parseRequest_flagKey_iff` and its two
siblings say for which strings the parse gives back what was formatted, and
`parseRequest_crash_iff` for which texts it crashes.
-/

namespace RdmaWiki

open CText

def KB : ℕ := 1024

/-- `':'` -/
def colon : UInt8 := 58

/-- The seven request flags. -/
inductive Flag
  | as | se | sr | fs | ag | g0 | fg
deriving DecidableEq

def Flag.text : Flag → Bytes
  | .as => ascii ['a', 's']
  | .se => ascii ['s', 'e']
  | .sr => ascii ['s', 'r']
  | .fs => ascii ['f', 's']
  | .ag => ascii ['a', 'g']
  | .g0 => ascii ['g', '0']
  | .fg => ascii ['f', 'g']

/-- The chain of `strcmp` calls on the flag. -/
def Flag.ofText (s : Bytes) : Option Flag :=
  [Flag.se, .sr, .g0, .fg, .fs, .ag, .as].find? fun flag => flag.text = s

@[simp] theorem Flag.ofText_text (flag : Flag) : Flag.ofText flag.text = some flag := by
  cases flag <;> decide

/-- `sprintf(buf, "%s:%s:%c", flag, key, '\0')`, its terminator included. -/
def flagKey (flag : Flag) (key : Bytes) : Bytes :=
  flag.text ++ colon :: key ++ [colon, 0, 0]

/-- `sprintf(buf, "%s:%s:%s%c", flag, key, x, '\0')`, its terminator included. -/
def flagKeyText (flag : Flag) (key x : Bytes) : Bytes :=
  flag.text ++ colon :: key ++ colon :: x ++ [0, 0]

/-- The length text of a rendezvous set, `sprintf(msg_size, "%lu", strlen(value))`. -/
def sizeText (value : Bytes) : Bytes := decimal value.length

/-- What `send_data_str` puts on the wire: the text of the buffer and its NUL. -/
def onWire (buf : Bytes) : Bytes := text buf ++ [0]

theorem onWire_noNul {message : Bytes} (noNul : (0 : UInt8) ∉ message) :
    onWire message = message ++ [0] := by
  have whole : text message = message := by
    apply List.takeWhile_eq_self_iff.mpr
    intro x member
    simpa using ne_of_mem_of_not_mem member noNul
  rw [onWire, whole]

/-! ## Parsing -/

/-- What a request asks the server for. -/
inductive Request
  | setAsk (key : Bytes)
  | setEager (key value : Bytes)
  | setRendezvous (key : Bytes) (size : Int)
  | setFin (key : Bytes)
  | getAsk (key : Bytes)
  | get (key : Bytes)
  | getFin (key : Bytes)
deriving DecidableEq

/-- The outcome of the parsing half of `parse_data`: a NULL token is passed to
a string function or the key array overflows (`crash`), `EXIT_FAILURE` on a
wrong flag (`reject`), or a request. -/
inductive Parsed
  | crash
  | reject
  | request (r : Request)
deriving DecidableEq

/-- The part of `parse_data` after the key is copied: `se` and `sr` take a
third token. -/
def parseRest (flag : Flag) (key rest : Bytes) : Parsed :=
  match flag with
  | .as => .request (.setAsk key)
  | .se =>
    match strtok colon rest with
    | none => .crash
    | some (value, _) => .request (.setEager key value)
  | .sr =>
    match strtok colon rest with
    | none => .crash
    | some (size, _) => .request (.setRendezvous key (atoi size))
  | .fs => .request (.setFin key)
  | .ag => .request (.getAsk key)
  | .g0 => .request (.get key)
  | .fg => .request (.getFin key)

/-- The parsing half of `parse_data`. Every `strtok` call comes before the
first effect, so parsing and handling are separated here. -/
def parseRequest (buf : Bytes) : Parsed :=
  match strtok colon (text buf) with
  | none => .crash
  | some (flagToken, rest) =>
    if flagToken.length ≠ 2 then .reject
    else
      match Flag.ofText flagToken with
      | none => .reject
      | some flag =>
        match strtok colon rest with
        | none => .crash
        | some (key, rest) =>
          -- `char key[4*KB]` receives the token and its NUL
          if 4 * KB ≤ key.length then .crash else parseRest flag key rest

/-- The key under which the server handles a client's key string: its first
token. -/
def serverKey (key : Bytes) : Option Bytes := (strtok colon key).map Prod.fst

section Formats

variable {flag : Flag} {key x token rest : Bytes}

theorem Flag.text_clean (flag : Flag) :
    flag.text.length = 2 ∧ flag.text ≠ [] ∧ colon ∉ flag.text ∧ (0 : UInt8) ∉ flag.text := by
  cases flag <;> decide

theorem length_flagKey (flag : Flag) (key : Bytes) :
    (flagKey flag key).length = key.length + 6 := by
  obtain ⟨two, -⟩ := flag.text_clean
  simp only [flagKey, List.length_append, List.length_cons, List.length_nil]
  omega

theorem length_flagKeyText (flag : Flag) (key x : Bytes) :
    (flagKeyText flag key x).length = key.length + x.length + 6 := by
  obtain ⟨two, -⟩ := flag.text_clean
  simp only [flagKeyText, List.length_append, List.length_cons, List.length_nil]
  omega

theorem text_flagKey (flag : Flag) (noNul : (0 : UInt8) ∉ key) :
    text (flagKey flag key) = flag.text ++ colon :: (key ++ [colon]) := by
  have clean : (0 : UInt8) ∉ flag.text ++ colon :: (key ++ [colon]) := by
    simp [flag.text_clean.2.2.2, noNul, colon]
  have shape : flagKey flag key = (flag.text ++ colon :: (key ++ [colon])) ++ 0 :: [0] := by
    simp [flagKey]
  rw [shape, text_append_nul clean]

theorem text_flagKeyText (flag : Flag) (noNul : (0 : UInt8) ∉ key) (noNul' : (0 : UInt8) ∉ x) :
    text (flagKeyText flag key x) = flag.text ++ colon :: (key ++ colon :: x) := by
  have clean : (0 : UInt8) ∉ flag.text ++ colon :: (key ++ colon :: x) := by
    simp [flag.text_clean.2.2.2, noNul, noNul', colon]
  have shape : flagKeyText flag key x =
      (flag.text ++ colon :: (key ++ colon :: x)) ++ 0 :: [0] := by
    simp [flagKeyText]
  rw [shape, text_append_nul clean]

/-- The parse looks at the text only, so the wire form parses like the buffer. -/
theorem parseRequest_onWire {buf : Bytes} : parseRequest (onWire buf) = parseRequest buf := by
  have same : text (onWire buf) = text buf := text_append_nul (text_noNul buf)
  rw [parseRequest, parseRequest, same]

/-- After the flag, parsing continues with the key token. -/
theorem parseRequest_flag {buf body : Bytes}
    (shape : text buf = flag.text ++ colon :: body) :
    parseRequest buf =
      match strtok colon body with
      | none => .crash
      | some (key, rest) =>
        if 4 * KB ≤ key.length then .crash else parseRest flag key rest := by
  obtain ⟨two, nonempty, clean, -⟩ := flag.text_clean
  rw [parseRequest, shape, strtok_word nonempty clean]
  simp only [two, ne_eq, not_true_eq_false, if_false, Flag.ofText_text]

/-- The five flags whose request ends with the key. -/
def Flag.shortRequest (key : Bytes) : Flag → Option Request
  | .as => some (.setAsk key)
  | .se => none
  | .sr => none
  | .fs => some (.setFin key)
  | .ag => some (.getAsk key)
  | .g0 => some (.get key)
  | .fg => some (.getFin key)

theorem parseRest_short {request : Request} (short : flag.shortRequest key = some request) :
    parseRest flag key rest = .request request := by
  cases flag <;> cases short <;> rfl

theorem strtok_key_none (empty : strtok colon key = none) :
    strtok colon (key ++ [colon]) = none := by
  rw [strtok_eq_none_iff] at empty ⊢
  intro c member
  simp only [List.mem_append, List.mem_singleton] at member
  rcases member with inKey | rfl
  · exact empty c inKey
  · rfl

/-- A key without a token makes the first request about it crash the parse. -/
theorem parseRequest_flagKey_crash (noNul : (0 : UInt8) ∉ key)
    (empty : strtok colon key = none) : parseRequest (flagKey flag key) = .crash := by
  rw [parseRequest_flag (text_flagKey _ noNul), strtok_key_none empty]

/-- A request that ends with the key names the key's first token. -/
theorem parseRequest_flagKey {request : Request} (noNul : (0 : UInt8) ∉ key)
    (found : strtok colon key = some (token, rest)) (fits : token.length < 4 * KB)
    (short : flag.shortRequest token = some request) :
    parseRequest (flagKey flag key) = .request request := by
  obtain ⟨skipped, scan⟩ := strtok_append_delim [] found
  have inBounds : ¬ 4 * KB ≤ token.length := by omega
  rw [parseRequest_flag (text_flagKey _ noNul), scan]
  simp only [inBounds, if_false, parseRest_short short]

/-! ### Which strings survive the parse -/

/-- A string that `strtok` gives back whole. -/
def IsWord (s : Bytes) : Prop := s ≠ [] ∧ colon ∉ s

instance (s : Bytes) : Decidable (IsWord s) := inferInstanceAs (Decidable (_ ∧ _))

theorem strtok_isWord (is_word : IsWord key) : strtok colon key = some (key, []) :=
  strtok_last is_word.1 is_word.2

/-- The server finds a word as the key that it is. -/
theorem serverKey_isWord (is_word : IsWord key) : serverKey key = some key := by
  rw [serverKey, strtok_isWord is_word, Option.map_some]

theorem strtok_field (is_word : IsWord key) {more : Bytes} :
    strtok colon (key ++ colon :: more) = some (key, more) :=
  strtok_word is_word.1 is_word.2

theorem sizeText_noNul (value : Bytes) : (0 : UInt8) ∉ sizeText value :=
  not_mem_decimal (by decide)

theorem sizeText_isWord (value : Bytes) : IsWord (sizeText value) :=
  ⟨decimal_ne_nil _, not_mem_decimal (by decide)⟩

/-- With a word as key, the parse goes on to the third field exactly where it
starts. -/
theorem parseRequest_word (noNul : (0 : UInt8) ∉ key) (noNul' : (0 : UInt8) ∉ x)
    (is_word : IsWord key) (fits : key.length < 4 * KB) :
    parseRequest (flagKeyText flag key x) = parseRest flag key x := by
  have inBounds : ¬ 4 * KB ≤ key.length := by omega
  rw [parseRequest_flag (text_flagKeyText flag noNul noNul'), strtok_field is_word]
  simp only [inBounds, if_false]

/-- The parse of any request starts by cutting out one word as its key. -/
theorem parseRequest_key {buf body : Bytes} {request : Request}
    (shape : text buf = flag.text ++ colon :: body)
    (parsed : parseRequest buf = .request request) :
    ∃ token rest, strtok colon body = some (token, rest) ∧ token.length < 4 * KB ∧
      parseRest flag token rest = .request request := by
  rw [parseRequest_flag shape] at parsed
  split at parsed
  next => cases parsed
  next token rest scan =>
    split at parsed
    next => cases parsed
    next inBounds => exact ⟨token, rest, scan, by omega, parsed⟩

/-- A request that ends with the key survives exactly when the key is a word
that fits the key array. -/
theorem parseRequest_flagKey_iff {request : Bytes → Request}
    (noNul : (0 : UInt8) ∉ key) (short : ∀ k, flag.shortRequest k = some (request k))
    (injective : ∀ k k', request k = request k' → k = k') :
    parseRequest (flagKey flag key) = .request (request key) ↔
      IsWord key ∧ key.length < 4 * KB := by
  constructor
  · intro parsed
    obtain ⟨token, rest, scan, fits, asked⟩ := parseRequest_key (text_flagKey _ noNul) parsed
    rw [parseRest_short (short token)] at asked
    have same : token = key := injective _ _ (Parsed.request.inj asked)
    subst same
    exact ⟨strtok_token scan, fits⟩
  · intro ⟨is_word, fits⟩
    exact parseRequest_flagKey noNul (strtok_isWord is_word) fits (short key)

/-- An eager set survives exactly when the key is a word that fits and the value
is a word. -/
theorem parseRequest_setEager_iff {value : Bytes}
    (noNul : (0 : UInt8) ∉ key) (noNul' : (0 : UInt8) ∉ value) :
    parseRequest (flagKeyText .se key value) = .request (.setEager key value) ↔
      (IsWord key ∧ key.length < 4 * KB) ∧ IsWord value := by
  have shape := text_flagKeyText .se noNul noNul'
  constructor
  · intro parsed
    obtain ⟨token, rest, scan, fits, asked⟩ := parseRequest_key shape parsed
    simp only [parseRest] at asked
    split at asked
    next => cases asked
    next value' rest' scan' =>
      simp only [Parsed.request.injEq, Request.setEager.injEq] at asked
      obtain ⟨rfl, rfl⟩ := asked
      exact ⟨⟨strtok_token scan, fits⟩, strtok_token scan'⟩
  · intro ⟨⟨is_word, fits⟩, is_word'⟩
    rw [parseRequest_word noNul noNul' is_word fits, parseRest, strtok_isWord is_word']

/-- A rendezvous set survives exactly when the key is a word that fits and
`atoi` reads the length back. -/
theorem parseRequest_setRendezvous_iff {value : Bytes} (noNul : (0 : UInt8) ∉ key) :
    parseRequest (flagKeyText .sr key (sizeText value)) =
        .request (.setRendezvous key value.length) ↔
      (IsWord key ∧ key.length < 4 * KB) ∧ atoi (sizeText value) = value.length := by
  have shape := text_flagKeyText .sr noNul (sizeText_noNul value)
  constructor
  · intro parsed
    obtain ⟨token, rest, scan, fits, asked⟩ := parseRequest_key shape parsed
    simp only [parseRest] at asked
    split at asked
    next => cases asked
    next size rest' scan' =>
      simp only [Parsed.request.injEq, Request.setRendezvous.injEq] at asked
      obtain ⟨rfl, sized⟩ := asked
      have is_word : IsWord token := strtok_token scan
      rw [strtok_field is_word] at scan
      simp only [Option.some.injEq, Prod.mk.injEq, true_and] at scan
      subst scan
      rw [strtok_isWord (sizeText_isWord value)] at scan'
      simp only [Option.some.injEq, Prod.mk.injEq] at scan'
      obtain ⟨rfl, -⟩ := scan'
      exact ⟨⟨is_word, fits⟩, sized⟩
  · intro ⟨⟨is_word, fits⟩, sized⟩
    rw [parseRequest_word noNul (sizeText_noNul value) is_word fits, parseRest,
      strtok_isWord (sizeText_isWord value)]
    simp only [sized]

end Formats

/-! ## Requests that run out of words -/

/-- How many words follow the flag of a request. -/
def Flag.fields : Flag → ℕ
  | .se => 2
  | .sr => 2
  | _ => 1

/-- No `strtok` call of `parse_data` runs out of words: there is one, and a flag is followed
by its fields. -/
def Complete (ws : List Bytes) : Prop :=
  ws ≠ [] ∧ ∀ flag : Flag, ws.head? = some flag.text → flag.fields < ws.length

theorem Flag.text_of_ofText {flag : Flag} {s : Bytes} (read : Flag.ofText s = some flag) :
    s = flag.text := by
  have found := List.find?_some read
  rw [decide_eq_true_iff] at found
  exact found.symm

theorem Flag.text_injective {flag flag' : Flag} (same : flag.text = flag'.text) :
    flag = flag' := by
  have read := Flag.ofText_text flag'
  rw [← same, Flag.ofText_text, Option.some.injEq] at read
  exact read

theorem parseRest_crash_iff (flag : Flag) (key rest : Bytes) :
    parseRest flag key rest = .crash ↔ (words colon rest).length + 1 < flag.fields := by
  have third : strtok colon rest = none ↔ (words colon rest).length + 1 < 2 := by
    rw [words_eq_strtok]
    cases strtok colon rest with
    | none => simp
    | some cut => simp
  cases flag with
  | se =>
      rw [Flag.fields, ← third, parseRest]
      cases strtok colon rest with
      | none => simp
      | some cut => simp
  | sr =>
      rw [Flag.fields, ← third, parseRest]
      cases strtok colon rest with
      | none => simp
      | some cut => simp
  | as | fs | ag | g0 | fg => simp [parseRest, Flag.fields]

/-- A text in a buffer crashes the parse exactly when a `strtok` call runs out of words. -/
theorem parseRequest_crash_iff {buf : Bytes} (short : buf.length ≤ 4 * KB) :
    parseRequest buf = .crash ↔ ¬ Complete (words colon (text buf)) := by
  have within : (text buf).length ≤ 4 * KB := le_trans (List.takeWhile_sublist _).length_le short
  unfold parseRequest
  rw [words_eq_strtok]
  cases scan : strtok colon (text buf) with
  | none => simp [Complete]
  | some cut =>
      obtain ⟨flagToken, rest⟩ := cut
      have room := strtok_length scan
      simp only [Complete, List.head?_cons, Option.some.injEq, List.length_cons, ne_eq,
        reduceCtorEq, not_false_eq_true, true_and]
      by_cases two : flagToken.length = 2
      · rw [if_neg (not_not.mpr two)]
        cases read : Flag.ofText flagToken with
        | none =>
            simp only [reduceCtorEq, false_iff, not_not]
            intro flag same
            rw [same, Flag.ofText_text] at read
            cases read
        | some flag =>
            cases Flag.text_of_ofText read
            have only (fields : ℕ) : (∀ f : Flag, flag.text = f.text → f.fields < fields) ↔
                flag.fields < fields := by
              constructor
              · intro all
                exact all flag rfl
              · intro own f same
                rw [← Flag.text_injective same]
                exact own
            rw [only, words_eq_strtok]
            cases keyScan : strtok colon rest with
            | none =>
                simp only [List.length_nil, true_iff]
                cases flag <;> decide
            | some cut =>
                obtain ⟨key, rest'⟩ := cut
                have keyRoom := strtok_length keyScan
                have inBounds : ¬ 4 * KB ≤ key.length := by omega
                simp only [inBounds, if_false, List.length_cons]
                rw [parseRest_crash_iff]
                omega
      · rw [if_pos two]
        simp only [reduceCtorEq, false_iff, not_not]
        intro flag same
        rw [same] at two
        exact absurd flag.text_clean.1 two

end RdmaWiki
