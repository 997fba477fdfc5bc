import RdmaWiki.Codec
import RdmaWiki.Store
import RdmaWiki.Truthful

/-!
The texts that a client formats, and the 4 KB they have.

`kv_set` chooses its mode by the length of the value alone, while the text of an eager set
holds the flag, the key, two separators and two NULs beside it. With keys of at most 255
characters every other text fits, and the eager one fits as long as key and value leave
six bytes (`texts_fit_iff`). Whatever the calls return, what is sent are these texts in
their order (`sends_of_path`).
-/

namespace RdmaWiki

open CText LibraryCalls

/-! ## What is sent -/

/-- The messages that were handed to `ibv_post_send`, oldest first. -/
def sends (log : List ApiEvent) : List Bytes :=
  log.filterMap fun
    | ⟨.post (.send message), _⟩ => some message
    | _ => none

@[simp] theorem sends_append (log log' : List ApiEvent) :
    sends (log ++ log') = sends log ++ sends log' := List.filterMap_append

namespace Api

variable {α β : Type} {p : Api α} {f : α → Api β} {T T' : List Bytes}

/-- The program hands over `T` on every path. -/
def Hands (T : List Bytes) (p : Api α) : Prop := ∀ log out, p.Path log out → sends log = T

/-- The program hands over `T` up to some point on every path. -/
def HandsUpTo (T : List Bytes) (p : Api α) : Prop := ∀ log out, p.Path log out → sends log <+: T

theorem Hands.quiet (first : Hands [] p) (second : ∀ a, Hands [] (f a)) :
    Hands [] (p.bind f) := by
  apply Program.log_bind first second (fun _ none => none)
  intro before after none none'
  rw [sends_append, none, none', List.append_nil]

theorem Hands.upTo (hands : Hands [] p) : HandsUpTo T p := by
  intro log out path
  rw [hands log out path]
  exact List.nil_prefix

theorem Hands.bind (first : Hands T p) (second : ∀ a, HandsUpTo T' (f a)) :
    HandsUpTo (T ++ T') (p.bind f) := by
  apply Program.log_bind (K := fun log => sends log <+: T ++ T') first second
  · intro log all
    rw [all]
    exact List.prefix_append T T'
  · intro before after all more
    rw [sends_append, all]
    exact (List.prefix_append_right_inj T).mpr more

theorem HandsUpTo.bind (first : HandsUpTo T p) (second : ∀ a, Hands [] (f a)) :
    HandsUpTo T (p.bind f) := by
  apply Program.log_bind first second (fun _ some => some)
  intro before after some none
  rw [sends_append, none, List.append_nil]
  exact some

/-- A program without sends. -/
theorem Hands.of_calls (calls : p.Calls fun call => ∀ message, call ≠ .post (.send message)) :
    Hands [] p := by
  intro log out path
  apply List.filterMap_eq_nil_iff.mpr
  rintro ⟨call, answer⟩ member
  have other := calls.of_path path _ member
  cases call with
  | post work =>
      cases work with
      | send message => exact absurd rfl (other message)
      | write data rkey addr => rfl
      | read length rkey addr => rfl
  | _ => rfl

theorem hands_done (a : α) : Hands [] (.done a : Api α) := .of_calls True.intro

theorem hands_stop (s : Stop) : Hands [] (.stop s : Api α) := .of_calls True.intro

/-- A text is formatted and the program goes on, or it does not fit. -/
theorem handsUpTo_sprintf {f : Bytes → Api β} (text : Bytes) (rest : HandsUpTo T (f text)) :
    HandsUpTo T ((sprintf text).bind f) := by
  unfold sprintf
  split
  · exact rest
  · exact (hands_stop _).upTo

theorem hands_lib {call : LibCall} (other : ∀ message, call ≠ .post (.send message)) :
    Hands [] (lib call) := .of_calls ⟨other, fun _ => True.intro⟩

/-- A wait polls and does nothing else. -/
theorem wait_calls (awaits : Awaits) (iters patience counted : ℕ) :
    (ppWaitCompletions awaits iters patience counted).Calls (· = .poll awaits) := by
  induction patience generalizing counted with
  | zero =>
      unfold ppWaitCompletions
      split
      · exact True.intro
      · exact True.intro
  | succ patience ih =>
      unfold ppWaitCompletions
      split
      · exact True.intro
      · refine ⟨rfl, fun polled => ?_⟩
        cases polled with
        | failed => exact True.intro
        | taken wcs =>
            simp only
            split
            · exact True.intro
            · exact ih _

theorem hands_wait (awaits : Awaits) (iters patience counted : ℕ) :
    Hands [] (ppWaitCompletions awaits iters patience counted) :=
  Hands.of_calls ((wait_calls awaits iters patience counted).mono (by rintro _ rfl; simp))

/-- `send_data_str` hands its text over once, whatever becomes of it. -/
theorem hands_sendDataStr (patience : ℕ) (buf : Bytes) :
    Hands [onWire buf] (sendDataStr patience buf) := by
  intro log out path
  cases path with
  | @call _ _ log _ errno rest =>
      have waits : Hands [] (if errno ≠ 0 then Program.done Ret.exitFailure
          else (ppWaitCompletions .send 1 patience 0).bind fun ret =>
            if ret = .exitFailure then Program.done Ret.exitFailure else .done .exitSuccess) := by
        split
        · exact hands_done _
        · refine (hands_wait _ _ _ _).quiet fun ret => ?_
          split
          · exact hands_done _
          · exact hands_done _
      have after := waits log out rest
      exact congrArg (onWire buf :: ·) after

/-- A text that is formatted and sent, with what comes after a success. -/
theorem handsUpTo_text {f : Ret → Api β} (patience : ℕ) (text : Bytes)
    (rest : ∀ ret, HandsUpTo T (f ret)) :
    HandsUpTo (onWire text :: T)
      ((sprintf text).bind fun buf => (sendDataStr patience buf).bind f) :=
  handsUpTo_sprintf text ((hands_sendDataStr patience text).bind rest)

/-- A test that may end the call. -/
theorem HandsUpTo.check {failed : Prop} [Decidable failed] {a : β} {q : Api β}
    (rest : HandsUpTo T q) : HandsUpTo T (if failed then .done a else q) := by
  split
  · exact (hands_done a).upTo
  · exact rest

/-- A reply that is waited for and looked at. -/
theorem handsUpTo_reply {f : Bytes → Api β} (awaits : Awaits) (iters patience counted : ℕ)
    (rest : ∀ contents, HandsUpTo T (f contents)) :
    HandsUpTo T ((ppWaitCompletions awaits iters patience counted).bind fun _ =>
      (lib .contents).bind f) :=
  (hands_wait _ _ _ _).bind fun _ => (hands_lib (by simp)).bind rest

theorem hands_clientSetEager (patience : ℕ) (key value : CString) :
    HandsUpTo [onWire (flagKeyText .se key.bytes value.bytes)]
      (clientSetEager patience key value) := by
  refine handsUpTo_text patience _ fun ret => ?_
  split
  · exact (hands_done _).upTo
  · exact (hands_done _).upTo

theorem hands_finishRendezvous (patience : ℕ) (fin : Bytes) :
    HandsUpTo [onWire fin] (finishRendezvous patience fin) := by
  refine handsUpTo_text patience fin fun ret => Hands.upTo ?_
  split
  · exact hands_done _
  · refine (hands_lib (by simp)).quiet fun errno => ?_
    split
    · exact hands_done _
    · exact hands_done _

theorem hands_clientSetRendezvous (patience : ℕ) (key value : CString) :
    HandsUpTo [onWire (flagKeyText .sr key.bytes (sizeText value.bytes)),
      onWire (flagKey .fs key.bytes)] (clientSetRendezvous patience key value) := by
  refine (hands_lib (by simp)).bind fun msgSize => ?_
  split
  · exact (hands_stop _).upTo
  · refine handsUpTo_text patience _ fun ret => HandsUpTo.check ?_
    refine (hands_lib (by simp)).bind fun mr => HandsUpTo.check ?_
    refine handsUpTo_reply _ _ _ _ fun contents => ?_
    split
    · refine (hands_lib (by simp)).bind fun errno => HandsUpTo.check ?_
      exact (hands_wait _ _ _ _).bind fun _ => hands_finishRendezvous patience _
    · exact (hands_stop _).upTo

theorem hands_clientGetRendezvous (patience : ℕ) (key : CString) (size : Int) :
    HandsUpTo [onWire (flagKey .fg key.bytes)] (clientGetRendezvous patience key size) := by
  unfold clientGetRendezvous
  split
  · exact (hands_stop _).upTo
  · refine (hands_lib (by simp)).bind fun valueBuf => HandsUpTo.check ?_
    split
    · exact (hands_stop _).upTo
    · refine (hands_lib (by simp)).bind fun mr => HandsUpTo.check ?_
      refine handsUpTo_reply _ _ _ _ fun contents => ?_
      split
      · refine (hands_lib (by simp)).bind fun errno => HandsUpTo.check ?_
        refine (hands_wait _ _ _ _).bind fun _ => ?_
        refine (hands_finishRendezvous patience _).bind fun ret => ?_
        split
        · exact hands_done _
        · exact (hands_lib (by simp)).quiet fun bytes => hands_done _
      · exact (hands_stop _).upTo

theorem hands_kvSet (patience : ℕ) (key value : CString) {T : List Bytes}
    (eager : isEager value.bytes = true →
      T = [onWire (flagKeyText .se key.bytes value.bytes)])
    (large : isEager value.bytes = false →
      T = [onWire (flagKeyText .sr key.bytes (sizeText value.bytes)),
        onWire (flagKey .fs key.bytes)]) :
    HandsUpTo (onWire (flagKey .as key.bytes) :: T) (kvSet patience key value) := by
  refine handsUpTo_text patience _ fun ret => HandsUpTo.check ?_
  refine handsUpTo_reply _ _ _ _ fun contents => HandsUpTo.check ?_
  refine HandsUpTo.bind ?_ fun ret => ?_
  · cases mode : isEager value.bytes with
    | true =>
        rw [eager mode]
        exact hands_clientSetEager patience key value
    | false =>
        rw [large mode]
        exact hands_clientSetRendezvous patience key value
  · split
    · exact hands_done _
    · exact (hands_wait _ _ _ _).quiet fun _ => hands_done _

theorem hands_kvGet (patience : ℕ) (key : CString) :
    HandsUpTo [onWire (flagKey .ag key.bytes), onWire (flagKey .g0 key.bytes),
      onWire (flagKey .fg key.bytes)] (kvGet patience key) := by
  refine handsUpTo_text patience _ fun ret => HandsUpTo.check ?_
  refine (hands_wait _ _ _ _).bind fun _ => ?_
  refine handsUpTo_text patience _ fun ret => HandsUpTo.check ?_
  refine handsUpTo_reply _ _ _ _ fun contents => ?_
  split
  · refine Hands.upTo ((hands_lib (by simp)).quiet fun copy => ?_)
    split
    · exact hands_stop _
    · exact (hands_wait _ _ _ _).quiet fun _ => hands_done _
  · split
    · refine (hands_clientGetRendezvous patience key _).bind fun result => ?_
      obtain ⟨ret, value⟩ := result
      simp only
      split
      · exact hands_done _
      · exact (hands_wait _ _ _ _).quiet fun _ => hands_done _
    · exact (hands_stop _).upTo

end Api

/-- What a call hands over are its messages, one after the other, up to some point. -/
theorem sends_of_path {call : Call} {patience : ℕ} {log : List ApiEvent}
    {out : Except Stop (Ret × Option Bytes)} (path : (call.api patience).Path log out) :
    sends log <+: call.messages.map fun message => onWire message.1 := by
  cases call with
  | kvSet key value =>
      refine Api.HandsUpTo.bind (Api.hands_kvSet patience key value ?_ ?_)
        (fun ret => Api.hands_done _) log out path
      · intro eager
        rw [eager]
        rfl
      · intro large
        rw [large]
        rfl
  | kvGet key => exact Api.hands_kvGet patience key log out path

/-! ## What fits -/

/-- The value takes the rendezvous path, or leaves room for its key and six bytes more. -/
def Call.Short : Call → Prop
  | .kvSet key value =>
    4 * KB - 3 ≤ value.bytes.length ∨ key.bytes.length + value.bytes.length + 6 ≤ 4 * KB
  | .kvGet _ => True

/-- With such a key the other texts fit. -/
theorem Call.messages_fit_iff {call : Call} (bounded : call.key.bytes.length ≤ 255)
    (strlen : ∀ key value, call = .kvSet key value → value.bytes.length < 2 ^ 64) :
    (∀ message ∈ call.messages, message.1.length ≤ bufSize) ↔ call.Short := by
  have room : bufSize = 4096 := rfl
  have page : 4 * KB = 4096 := rfl
  cases call with
  | kvSet key value =>
      change key.bytes.length ≤ 255 at bounded
      have small := strlen key value rfl
      simp only [Call.messages, Call.Short, List.forall_mem_cons, length_flagKey]
      cases mode : isEager value.bytes with
      | true =>
          have less : value.bytes.length < 4 * KB - 3 := of_decide_eq_true mode
          simp only [if_true, List.forall_mem_cons, length_flagKeyText, List.not_mem_nil,
            false_implies, implies_true, and_true]
          omega
      | false =>
          have more : ¬ value.bytes.length < 4 * KB - 3 := of_decide_eq_false mode
          have digits : (sizeText value.bytes).length ≤ 20 :=
            (length_decimal_le_iff (by decide)).mpr (by omega)
          simp only [Bool.false_eq_true, if_false, List.forall_mem_cons, length_flagKey,
            length_flagKeyText, List.not_mem_nil, false_implies, implies_true, and_true]
          omega
  | kvGet key =>
      change key.bytes.length ≤ 255 at bounded
      simp only [Call.messages, Call.Short, List.forall_mem_cons, length_flagKey, List.not_mem_nil,
        false_implies, implies_true, and_true, iff_true]
      omega

theorem zero_mem_flagKey (flag : Flag) (key : Bytes) : (0 : UInt8) ∈ flagKey flag key := by
  simp [flagKey]

theorem zero_mem_flagKeyText (flag : Flag) (key x : Bytes) :
    (0 : UInt8) ∈ flagKeyText flag key x := by
  simp [flagKeyText]

/-- Every message is formatted with its NUL. -/
theorem Call.messages_terminated (call : Call) :
    ∀ message ∈ call.messages, (0 : UInt8) ∈ message.1 := by
  cases call with
  | kvSet key value =>
      simp only [Call.messages]
      split <;>
      simp only [List.forall_mem_cons, zero_mem_flagKey, zero_mem_flagKeyText, List.not_mem_nil,
        false_implies, implies_true, and_self]
  | kvGet key =>
      simp only [Call.messages, List.forall_mem_cons, zero_mem_flagKey, List.not_mem_nil,
        false_implies, implies_true, and_self]

/-- Every text that a call formats stays inside the 4 KB of its buffer, and every message that
it sends inside the 4 KB that are posted for it, exactly if the call is short. -/
theorem texts_fit_iff {call : Call} (bounded : call.key.bytes.length ≤ 255)
    (strlen : ∀ key value, call = .kvSet key value → value.bytes.length < 2 ^ 64) :
    ((∀ message ∈ call.messages, message.1.length ≤ bufSize) ∧
      ∀ patience log out, (call.api patience).Path log out →
        ∀ message ∈ sends log, message.length ≤ bufSize) ↔ call.Short := by
  rw [Call.messages_fit_iff bounded strlen]
  refine and_iff_left_of_imp fun short patience log out path message sent => ?_
  have fits := (Call.messages_fit_iff bounded strlen).mpr short
  obtain ⟨formatted, member, rfl⟩ := List.mem_map.mp ((sends_of_path path).subset sent)
  -- what goes on the wire is no longer than what was formatted
  exact (inBuffer_onWire (call.messages_terminated formatted member) (fits formatted member)).2

/-- A string of `n` letters. -/
def letters (n : ℕ) : CString where
  bytes := List.replicate n 97
  noNul member := absurd (List.eq_of_mem_replicate member) (by decide)

theorem length_letters (n : ℕ) : (letters n).bytes.length = n := List.length_replicate

/-- A key of 255 characters leaves room for a value of 3835. -/
theorem texts_fit_longest_key :
    (∀ message ∈ (Call.kvSet (letters 255) (letters 3835)).messages,
      message.1.length ≤ bufSize) ∧
    ∀ patience log out, ((Call.kvSet (letters 255) (letters 3835)).api patience).Path log out →
      ∀ message ∈ sends log, message.length ≤ bufSize := by
  refine (texts_fit_iff ?_ ?_).mpr ?_
  · exact (length_letters 255).le
  · intro key value same
    cases same
    rw [length_letters]
    decide
  · refine .inr ?_
    rw [length_letters, length_letters]
    decide

/-- A value of 4092 characters is sent in a message and leaves no room for its key. -/
theorem eager_text_overflows : ¬ ∀ call : Call, call.key.bytes.length ≤ 255 →
    ∀ message ∈ call.messages, message.1.length ≤ bufSize := by
  intro fits
  have eager : isEager (letters 4092).bytes = true := by
    rw [isEager, length_letters]
    decide
  have message := fits (.kvSet (letters 1) (letters 4092)) (length_letters 1 ▸ by decide)
    (flagKeyText .se (letters 1).bytes (letters 4092).bytes, _)
    (by rw [Call.messages, if_pos eager]; exact List.mem_cons_of_mem _ List.mem_cons_self)
  rw [length_flagKeyText, length_letters, length_letters] at message
  exact absurd message (by decide)

end RdmaWiki
