import RdmaWiki.Api
import RdmaWiki.ReplyBytes

/-!
What `EXIT_SUCCESS` and `EXIT_FAILURE` of a call say.

`ApiEvent.failed` says which answers are failures, `ApiEvent.caught` which of them the source
looks at, in the way it looks at them. A call returns `EXIT_FAILURE` exactly if an answer on
its path was caught (`api_propagates`). A failure that is not caught is passed over: the call
goes on and returns `EXIT_SUCCESS`, or polls for ever, or is undefined. On a path without
failures the call has posted all its work requests and has waited once for each of them and
for each reply, and the result of a get is what the client read (`kvSet_ensures`,
`kvGet_does`).
-/

namespace RdmaWiki

open CText LibraryCalls

abbrev ApiEvent := Answered LibCall LibCall.Answer

/-- A poll that returns an error, or a completion with an error. -/
def Polled.isFailure : Polled → Bool
  | .failed => true
  | .taken wcs => .error ∈ wcs

/-- The call failed. -/
def ApiEvent.failed : ApiEvent → Bool
  | ⟨.malloc _ _, given⟩ => !given
  | ⟨.regMr, given⟩ => !given
  | ⟨.deregMr, errno⟩ => errno ≠ 0
  | ⟨.post _, errno⟩ => errno ≠ 0
  | ⟨.poll _, polled⟩ => polled.isFailure
  | ⟨.contents, _⟩ => false
  | ⟨.valueBuf _, _⟩ => false

/-- The call failed in a way that the client looks at. -/
def ApiEvent.caught : ApiEvent → Bool
  | ⟨.malloc chunk _, given⟩ => chunk = .value && !given
  | ⟨.regMr, given⟩ => !given
  | ⟨.deregMr, errno⟩ => errno ≠ 0
  | ⟨.post (.send _), errno⟩ => errno ≠ 0
  | ⟨.post (.write _ _ _), errno⟩ => errno = 1
  | ⟨.post (.read _ _ _), errno⟩ => errno = 1
  | ⟨.poll awaits, polled⟩ => awaits = .send && polled.isFailure
  | ⟨.contents, _⟩ => false
  | ⟨.valueBuf _, _⟩ => false

/-! ## Which failures are returned -/

namespace Api

/-- The program ends in `EXIT_FAILURE` exactly if an answer is caught. -/
abbrev Reports (p : Api Ret) : Prop :=
  p.Propagates (fun e => ApiEvent.caught e) (· = .exitFailure)

/-- Nothing is caught in the program. -/
abbrev Quiet {α : Type} (p : Api α) : Prop :=
  p.Propagates (fun e => ApiEvent.caught e) fun _ => False

theorem lib_tests (call : LibCall) {failed : call.Answer → Prop}
    (tests : ∀ r, ApiEvent.caught ⟨call, r⟩ ↔ failed r) :
    (lib call).Propagates (fun e => ApiEvent.caught e) failed :=
  Program.propagates_invoke tests

theorem lib_quiet {call : LibCall} (never : ∀ r, ApiEvent.caught ⟨call, r⟩ = false) :
    Quiet (lib call) :=
  lib_tests call fun r => by simp [never r]

theorem sprintf_quiet (text : Bytes) : Quiet (sprintf text) := by
  unfold sprintf
  split
  · exact Program.propagates_done not_false
  · exact Program.propagates_stop _

/-- One poll, and the rest of the wait. -/
theorem ppWaitCompletions_succ (awaits : Awaits) (iters patience counted : ℕ)
    (more : ¬ iters ≤ counted) :
    ppWaitCompletions awaits iters (patience + 1) counted =
      (lib (.poll awaits)).bind fun polled =>
        if polled.isFailure then .done .exitFailure
        else match polled with
          | .failed => .done .exitFailure
          | .taken wcs => ppWaitCompletions awaits iters patience (counted + wcs.length) := by
  rw [ppWaitCompletions, if_neg more]
  congr 1
  funext polled
  cases polled with
  | failed => rfl
  | taken wcs => simp [Polled.isFailure, Program.bind]

/-- The wait of `send_data_str`, whose result is looked at. -/
theorem wait_reports (iters patience counted : ℕ) :
    Reports (ppWaitCompletions .send iters patience counted) := by
  induction patience generalizing counted with
  | zero =>
      unfold ppWaitCompletions
      split
      · exact Program.propagates_done (by decide)
      · exact Program.propagates_stop _
  | succ patience ih =>
      by_cases enough : iters ≤ counted
      · rw [ppWaitCompletions, if_pos enough]
        exact Program.propagates_done (by decide)
      · rw [ppWaitCompletions_succ _ _ _ _ enough]
        apply Program.Propagates.bind
        · have tests (polled : Polled) :
              ApiEvent.caught ⟨.poll .send, polled⟩ ↔ polled.isFailure := by
            simp [ApiEvent.caught]
          exact lib_tests (.poll .send) tests
        · intro polled failed
          rw [if_pos failed]
          exact ⟨_, rfl, rfl⟩
        · intro polled fine
          rw [if_neg fine]
          cases polled with
          | failed => exact absurd rfl fine
          | taken wcs => exact ih _

/-- A wait whose result is not looked at. -/
theorem wait_quiet {awaits : Awaits} (unseen : awaits ≠ .send) (iters patience counted : ℕ) :
    Quiet (ppWaitCompletions awaits iters patience counted) := by
  induction patience generalizing counted with
  | zero =>
      unfold ppWaitCompletions
      split
      · exact Program.propagates_done not_false
      · exact Program.propagates_stop _
  | succ patience ih =>
      by_cases enough : iters ≤ counted
      · rw [ppWaitCompletions, if_pos enough]
        exact Program.propagates_done not_false
      · rw [ppWaitCompletions_succ _ _ _ _ enough]
        apply Program.Propagates.bind_quiet (lib_quiet fun polled => by simp [ApiEvent.caught, unseen])
        intro polled
        split
        · exact Program.propagates_done not_false
        · cases polled with
          | failed => exact Program.propagates_done not_false
          | taken wcs => exact ih _

theorem sendDataStr_reports (patience : ℕ) (buf : Bytes) : Reports (sendDataStr patience buf) := by
  have post : (flaggedPpPostSend buf).Propagates (fun e => ApiEvent.caught e) (· ≠ 0) :=
    lib_tests (.post (.send (onWire buf))) fun errno => by simp [ApiEvent.caught]
  refine post.check rfl fun errno _ => ?_
  refine (wait_reports 1 patience 0).check rfl fun ret _ => ?_
  exact Program.propagates_done (by decide)

theorem clientSetEager_reports (patience : ℕ) (key value : CString) :
    Reports (clientSetEager patience key value) := by
  refine (sprintf_quiet _).bind_quiet fun buf => ?_
  refine (sendDataStr_reports patience buf).check rfl fun ret _ => ?_
  exact Program.propagates_done (by decide)

theorem finishRendezvous_reports (patience : ℕ) (fin : Bytes) :
    Reports (finishRendezvous patience fin) := by
  have dereg : (lib .deregMr).Propagates (fun e => ApiEvent.caught e) (· ≠ 0) :=
    lib_tests .deregMr fun errno => by simp [ApiEvent.caught]
  refine (sprintf_quiet _).bind_quiet fun buf => ?_
  refine (sendDataStr_reports patience buf).check rfl fun ret _ => ?_
  refine dereg.check rfl fun errno _ => ?_
  exact Program.propagates_done (by decide)

theorem regMr_propagates :
    (lib .regMr).Propagates (fun e => ApiEvent.caught e) (· = false) :=
  lib_tests .regMr fun given => by simp [ApiEvent.caught]

theorem clientSetRendezvous_reports (patience : ℕ) (key value : CString) :
    Reports (clientSetRendezvous patience key value) := by
  have write (rAddr : UInt64) (rkey : UInt32) :
      (ppPostRdmaWrite value.bytes rAddr rkey).Propagates (fun e => ApiEvent.caught e) (· = 1) :=
    lib_tests (.post (.write value.bytes rkey rAddr)) fun errno => by simp [ApiEvent.caught]
  refine (lib_quiet fun given => by simp [ApiEvent.caught]).bind_quiet fun msgSize => ?_
  split
  · exact Program.propagates_stop _
  · refine (sprintf_quiet _).bind_quiet fun buf => ?_
    refine (sendDataStr_reports patience buf).check rfl fun ret _ => ?_
    refine regMr_propagates.check rfl fun mr _ => ?_
    refine (wait_quiet (by decide) 1 patience 0).bind_quiet fun _ => ?_
    refine (lib_quiet fun _ => rfl).bind_quiet fun contents => ?_
    split
    · refine (write _ _).check rfl fun errno _ => ?_
      refine (wait_quiet (by decide) 1 patience 0).bind_quiet fun _ => ?_
      exact finishRendezvous_reports patience _
    · exact Program.propagates_stop _

theorem kvSet_reports (patience : ℕ) (key value : CString) :
    Reports (kvSet patience key value) := by
  refine (sprintf_quiet _).bind_quiet fun buf => ?_
  refine (sendDataStr_reports patience buf).check rfl fun ret _ => ?_
  refine (wait_quiet (by decide) 1 patience 0).bind_quiet fun _ => ?_
  refine (lib_quiet fun _ => rfl).bind_quiet fun contents => ?_
  split
  · exact Program.propagates_done (by decide)
  · have stores : Reports (if isEager value.bytes then clientSetEager patience key value
        else clientSetRendezvous patience key value) := by
      split
      · exact clientSetEager_reports patience key value
      · exact clientSetRendezvous_reports patience key value
    refine stores.check rfl fun ret _ => ?_
    refine (wait_quiet (by decide) 1 patience 0).bind_quiet fun _ => ?_
    exact Program.propagates_done (by decide)

/-- A get ends in `EXIT_FAILURE` exactly if an answer is caught. -/
abbrev ReportsGet (p : Api (Ret × Option Bytes)) : Prop :=
  p.Propagates (fun e => ApiEvent.caught e) (·.1 = .exitFailure)

theorem clientGetRendezvous_reports (patience : ℕ) (key : CString) (size : Int) :
    ReportsGet (clientGetRendezvous patience key size) := by
  have valueBuf (n : ℕ) :
      (lib (.malloc .value n)).Propagates (fun e => ApiEvent.caught e) (· = false) :=
    lib_tests (.malloc .value n) fun given => by simp [ApiEvent.caught]
  have read (n : ℕ) (rAddr : UInt64) (rkey : UInt32) :
      (ppPostRdmaRead n rAddr rkey).Propagates (fun e => ApiEvent.caught e) (· = 1) :=
    lib_tests (.post (.read n rkey rAddr)) fun errno => by simp [ApiEvent.caught]
  unfold clientGetRendezvous
  split
  · exact Program.propagates_stop _
  · refine (valueBuf _).check rfl fun given _ => ?_
    split
    · exact Program.propagates_stop _
    · refine regMr_propagates.check rfl fun mr _ => ?_
      refine (wait_quiet (by decide) 1 patience 0).bind_quiet fun _ => ?_
      refine (lib_quiet fun _ => rfl).bind_quiet fun contents => ?_
      split
      · refine (read _ _ _).check rfl fun errno _ => ?_
        refine (wait_quiet (by decide) 1 patience 0).bind_quiet fun _ => ?_
        refine (finishRendezvous_reports patience _).check rfl fun ret _ => ?_
        refine (lib_quiet fun _ => rfl).bind_quiet fun bytes => ?_
        exact Program.propagates_done nofun
      · exact Program.propagates_stop _

theorem kvGet_reports (patience : ℕ) (key : CString) : ReportsGet (kvGet patience key) := by
  refine (sprintf_quiet _).bind_quiet fun buf => ?_
  refine (sendDataStr_reports patience buf).check rfl fun ret _ => ?_
  refine (wait_quiet (by decide) 1 patience 0).bind_quiet fun _ => ?_
  refine (sprintf_quiet _).bind_quiet fun buf => ?_
  refine (sendDataStr_reports patience buf).check rfl fun ret _ => ?_
  refine (wait_quiet (by decide) 1 patience 0).bind_quiet fun _ => ?_
  refine (lib_quiet fun _ => rfl).bind_quiet fun contents => ?_
  split
  · refine (lib_quiet fun given => by simp [ApiEvent.caught]).bind_quiet fun copy => ?_
    split
    · exact Program.propagates_stop _
    · refine (wait_quiet (by decide) 1 patience 0).bind_quiet fun _ => ?_
      exact Program.propagates_done nofun
  · split
    · refine (clientGetRendezvous_reports patience key _).check rfl fun result _ => ?_
      refine (wait_quiet (by decide) 1 patience 0).bind_quiet fun _ => ?_
      exact Program.propagates_done nofun
    · exact Program.propagates_stop _

end Api

/-- A call returns `EXIT_FAILURE` exactly if an answer on its path is caught. -/
theorem api_propagates (patience : ℕ) (call : Call) : Api.ReportsGet (call.api patience) := by
  cases call with
  | kvSet key value =>
      refine (Api.kvSet_reports patience key value).bind ?_ fun ret fine => ?_
      · intro ret failed
        exact ⟨_, rfl, failed⟩
      · exact Program.propagates_done fine
  | kvGet key => exact Api.kvGet_reports patience key

/-! ## What a path without failures has done -/

/-- The work requests that were posted, oldest first. -/
def posted (log : List ApiEvent) : List Work :=
  log.filterMap fun
    | ⟨.post work, errno⟩ => if errno = 0 then some work else none
    | _ => none

/-- What the client saw when it looked at `ctx->buf`, oldest first. -/
def seen (log : List ApiEvent) : List Bytes :=
  log.filterMap fun
    | ⟨.contents, bytes⟩ => some bytes
    | _ => none

/-- The completions of one kind that were taken. -/
def taken (wc : Wc) (log : List ApiEvent) : ℕ :=
  (log.map fun
    | ⟨.poll _, .taken wcs⟩ => wcs.count (.success wc)
    | _ => 0).sum

/-- The waits for replies that took a completion. -/
def answered (log : List ApiEvent) : ℕ :=
  log.countP fun
    | ⟨.poll .reply, .taken wcs⟩ => wcs ≠ []
    | _ => false

section Logs

variable (log log' : List ApiEvent)

@[simp] theorem posted_append : posted (log ++ log') = posted log ++ posted log' :=
  List.filterMap_append

@[simp] theorem seen_append : seen (log ++ log') = seen log ++ seen log' :=
  List.filterMap_append

@[simp] theorem taken_append (wc : Wc) : taken wc (log ++ log') = taken wc log + taken wc log' := by
  simp only [taken, List.map_append, List.sum_append]

@[simp] theorem answered_append : answered (log ++ log') = answered log + answered log' :=
  List.countP_append

end Logs

/-- The path has posted `works`, has looked at `bytes`, and has taken a completion for each of
the works and for each reply that it waited for. -/
structure Did (works : List Work) (bytes : List Bytes) (log : List ApiEvent) : Prop where
  posted : posted log = works
  seen : seen log = bytes
  waited : works.length + answered log ≤ taken .send log + taken .recv log

theorem Did.append {works works' : List Work} {bytes bytes' : List Bytes}
    {log log' : List ApiEvent} (did : Did works bytes log) (did' : Did works' bytes' log') :
    Did (works ++ works') (bytes ++ bytes') (log ++ log') := by
  obtain ⟨posts, sees, waits⟩ := did
  obtain ⟨posts', sees', waits'⟩ := did'
  refine ⟨?_, ?_, ?_⟩
  · rw [posted_append, posts, posts']
  · rw [seen_append, sees, sees']
  · rw [List.length_append, answered_append, taken_append, taken_append]
    omega

/-- The call did not fail. -/
abbrev Fine (e : ApiEvent) : Prop := ¬ ApiEvent.failed e

/-- A wait has taken a completion, or polls for ever. -/
structure Waited (awaits : Awaits) (log : List ApiEvent) (out : Except Stop Ret) : Prop where
  posted : posted log = []
  seen : seen log = []
  ends : out = .ok .exitSuccess ∧ 1 ≤ taken .send log + taken .recv log ∧
    answered log = (if awaits = .reply then 1 else 0) ∨ ∃ s, out = .error s

/-- A part of a call that posts `works` and gives `a`, or stops, without looking at
`ctx->buf`. -/
def Does {α : Type} (works : List Work) (a : α) (log : List ApiEvent) (out : Except Stop α) :
    Prop :=
  (out = .ok a ∧ Did works [] log) ∨ ((∃ s, out = .error s) ∧ seen log = [])

theorem count_completions {wcs : List Completion} (none : .error ∉ wcs) :
    wcs.count (.success .send) + wcs.count (.success .recv) = wcs.length := by
  induction wcs with
  | nil => rfl
  | cons first rest ih =>
      obtain ⟨head, tail⟩ := not_or.mp (mt List.mem_cons.mpr none)
      have others := ih tail
      rcases first with (_ | _) | _
      · simp
        omega
      · simp
        omega
      · exact absurd rfl head

namespace Api

theorem lib_ensures (call : LibCall) :
    (lib call).Ensures Fine fun log out =>
      ∃ r, log = [⟨call, r⟩] ∧ out = .ok r ∧ Fine ⟨call, r⟩ :=
  Program.ensures_invoke fun r fine => ⟨r, rfl, rfl, fine⟩

/-- A wait that has counted enough is over. -/
theorem ppWaitCompletions_enough (awaits : Awaits) (patience : ℕ) {counted : ℕ}
    (enough : 1 ≤ counted) : ppWaitCompletions awaits 1 patience counted = .done .exitSuccess := by
  cases patience <;> exact if_pos enough

theorem wait_ensures (awaits : Awaits) (patience : ℕ) :
    (ppWaitCompletions awaits 1 patience 0).Ensures Fine (Waited awaits) := by
  induction patience with
  | zero => exact Program.ensures_stop ⟨rfl, rfl, .inr ⟨_, rfl⟩⟩
  | succ patience ih =>
      rw [ppWaitCompletions_succ _ _ _ _ (by decide)]
      refine (lib_ensures (.poll awaits)).bind ?_ ?_
      · rintro log s ⟨r, -, same, -⟩
        cases same
      · rintro log polled ⟨r, rfl, same, fine⟩
        cases same
        have good : ¬ Polled.isFailure polled := fine
        rw [if_neg good]
        cases polled with
        | failed => exact absurd rfl fine
        | taken wcs =>
            rcases eq_or_ne wcs [] with rfl | nonempty
            · -- the queue was empty, and the wait polls again
              refine ih.mono fun log out waited => ?_
              obtain ⟨posts, sees, ends⟩ := waited
              refine ⟨?_, ?_, ?_⟩
              · rw [posted_append, posts]
                rfl
              · rw [seen_append, sees]
                rfl
              · rcases ends with ⟨ends, takes, answers⟩ | stops
                · refine .inl ⟨ends, ?_, ?_⟩
                  · rw [taken_append, taken_append]
                    omega
                  · rw [answered_append, answers]
                    cases awaits <;> rfl
                · exact .inr stops
            · have positive := List.length_pos_iff.mpr nonempty
              have clean : Completion.error ∉ wcs := fun error => fine (decide_eq_true error)
              have whole := count_completions clean
              simp only
              rw [ppWaitCompletions_enough _ _ (by omega)]
              apply Program.ensures_done
              refine ⟨rfl, rfl, .inl ⟨rfl, ?_, ?_⟩⟩
              · simp only [taken, List.append_nil, List.map_cons, List.map_nil, List.sum_cons,
                  List.sum_nil]
                omega
              · cases awaits <;> simp [answered, nonempty]

/-- `Q` holds of the whole path when `p` goes on after `before` without failures. -/
def After {α : Type} (before : List ApiEvent) (p : Api α)
    (Q : List ApiEvent → Except Stop α → Prop) : Prop :=
  p.Ensures Fine fun log out => Q (before ++ log) out

section After

variable {α β : Type} {works works' : List Work} {bytes : List Bytes} {before : List ApiEvent}
  {Q : List ApiEvent → Except Stop α → Prop}

theorem After.start {p : Api α} (after : After [] p Q) : p.Ensures Fine Q := after

theorem did_nil : Did [] [] [] := ⟨rfl, rfl, Nat.zero_le _⟩

theorem after_done {a : α} (holds : Q before (.ok a)) : After before (.done a) Q := by
  apply Program.ensures_done
  rw [List.append_nil]
  exact holds

theorem after_stop {s : Stop} (holds : Q before (.error s)) : After before (.stop s) Q := by
  apply Program.ensures_stop
  rw [List.append_nil]
  exact holds

/-- After a part of the path the rest of the program goes on. -/
theorem After.resume {p : Api α} {log : List ApiEvent} (after : After (before ++ log) p Q) :
    p.Ensures Fine fun log' out => Q (before ++ (log ++ log')) out := by
  refine after.mono fun log' out holds => ?_
  rw [← List.append_assoc]
  exact holds

/-- The rule for a sequence. -/
theorem after_ensures {p : Api β} {f : β → Api α} {P : List ApiEvent → Except Stop β → Prop}
    (first : p.Ensures Fine P)
    (ends : ∀ log s, P log (.error s) → Q (before ++ log) (.error s))
    (second : ∀ log b, P log (.ok b) → After (before ++ log) (f b) Q) :
    After before (p.bind f) Q :=
  first.bind ends fun log b holds => (second log b holds).resume

/-- A part that looks at nothing. -/
theorem after_bind {b : β} {p : Api β} {f : β → Api α} (did : Did works bytes before)
    (first : p.Ensures Fine (Does works' b))
    (ends : ∀ log s, seen log = bytes → Q log (.error s))
    (second : ∀ log, Did (works ++ works') bytes log → After log (f b) Q) :
    After before (p.bind f) Q := by
  refine after_ensures first ?_ ?_
  · rintro log s (⟨same, -⟩ | ⟨-, sees⟩)
    · cases same
    · apply ends
      rw [seen_append, sees, did.seen, List.append_nil]
  · rintro log b' (⟨same, did'⟩ | ⟨⟨s, same⟩, -⟩)
    · cases same
      have both := did.append did'
      rw [List.append_nil] at both
      exact second _ both
    · cases same

/-- The client looks at `ctx->buf`. -/
theorem after_look {f : Bytes → Api α} (did : Did works bytes before)
    (second : ∀ contents log, Did works (bytes ++ [contents]) log → After log (f contents) Q) :
    After before ((lib .contents).bind f) Q := by
  refine after_ensures (lib_ensures .contents) ?_ ?_
  · rintro log s ⟨r, -, same, -⟩
    cases same
  · rintro log contents ⟨r, rfl, same, -⟩
    cases same
    have looked : Did [] [contents] [⟨.contents, contents⟩] := ⟨rfl, rfl, Nat.zero_le _⟩
    have both := did.append looked
    rw [List.append_nil] at both
    exact second contents _ both

/-- A call that is neither of the network nor a look at `ctx->buf`. -/
theorem after_lib {call : LibCall} {f : call.Answer → Api α} (did : Did works bytes before)
    (other : ∀ r, Did [] [] [⟨call, r⟩])
    (second : ∀ r, Fine ⟨call, r⟩ → ⟨call, r⟩ ∈ before ++ [⟨call, r⟩] →
      Did works bytes (before ++ [⟨call, r⟩]) → After (before ++ [⟨call, r⟩]) (f r) Q) :
    After before ((lib call).bind f) Q := by
  refine after_ensures (lib_ensures call) ?_ ?_
  · rintro log s ⟨r, -, same, -⟩
    cases same
  · rintro log answer ⟨r, rfl, same, fine⟩
    cases same
    have both := did.append (other answer)
    rw [List.append_nil, List.append_nil] at both
    have last : (⟨call, answer⟩ : ApiEvent) ∈ before ++ [⟨call, answer⟩] :=
      List.mem_append_right _ (List.mem_singleton_self _)
    exact second answer fine last both

/-- A call that is neither of the network nor a look, and whose failure is tested for. -/
structure Checked (call : LibCall) (bad : call.Answer → Prop) : Prop where
  other : ∀ r, Did [] [] [⟨call, r⟩]
  fine : ∀ r, Fine ⟨call, r⟩ → ¬ bad r

theorem malloc_checked (chunk : Chunk) (n : ℕ) : Checked (.malloc chunk n) (· = false) := by
  refine ⟨fun _ => ⟨rfl, rfl, Nat.zero_le _⟩, ?_⟩
  rintro r fine rfl
  exact fine rfl

theorem regMr_checked : Checked .regMr (· = false) := by
  refine ⟨fun _ => ⟨rfl, rfl, Nat.zero_le _⟩, ?_⟩
  rintro r fine rfl
  exact fine rfl

/-- A call whose failure would end the program. -/
theorem after_check {call : LibCall} {bad : call.Answer → Prop} [DecidablePred bad]
    {p : Api α} {f : call.Answer → Api α} (did : Did works bytes before) (checked : Checked call bad)
    (second : ∀ r, Did works bytes (before ++ [⟨call, r⟩]) →
      After (before ++ [⟨call, r⟩]) (f r) Q) :
    After before ((lib call).bind fun r => if bad r then p else f r) Q := by
  refine after_lib did checked.other fun r good _ did => ?_
  rw [if_neg (checked.fine r good)]
  exact second r did

/-- A work request is posted and waited for, if the test of its result finds no failure in
0. -/
theorem after_post {work : Work} {bad : Int → Prop} [DecidablePred bad] {awaits : Awaits}
    {patience : ℕ} {a : α} {f : Ret → Api α} (did : Did works bytes before) (fine : ¬ bad 0)
    (own : awaits ≠ .reply) (ends : ∀ log s, seen log = bytes → Q log (.error s))
    (second : ∀ log, Did (works ++ [work]) bytes log → After log (f .exitSuccess) Q) :
    After before ((lib (.post work)).bind fun errno => if bad errno then .done a
      else (ppWaitCompletions awaits 1 patience 0).bind f) Q := by
  refine after_ensures (lib_ensures (.post work)) ?_ ?_
  · rintro log s ⟨r, -, same, -⟩
    cases same
  · rintro log errno ⟨r, rfl, same, none⟩
    cases same
    have zero : errno = 0 := by
      by_contra failed
      exact none (decide_eq_true failed)
    subst zero
    rw [if_neg fine]
    refine after_ensures (wait_ensures awaits patience) ?_ ?_
    · intro log s waited
      apply ends
      rw [seen_append, seen_append, waited.seen, did.seen]
      change bytes ++ [] ++ [] = bytes
      rw [List.append_nil, List.append_nil]
    · intro log ret waited
      obtain ⟨posts, sees, ⟨same, takes, answers⟩ | ⟨s, same⟩⟩ := waited
      · cases same
        have posting : Did [work] [] ([⟨.post work, (0 : Int)⟩] ++ log) := by
          refine ⟨?_, ?_, ?_⟩
          · rw [posted_append, posts]
            rfl
          · rw [seen_append, sees]
            rfl
          · rw [answered_append, answers, if_neg own, taken_append, taken_append,
              List.length_singleton]
            change 1 + (0 + 0) ≤ _
            omega
        have both := did.append posting
        rw [List.append_nil] at both
        rw [← List.append_assoc] at both
        exact second _ both
      · cases same

end After

theorem does_stopped {α : Type} {works : List Work} {a : α} (log : List ApiEvent) (s : Stop)
    (sees : seen log = []) : Does works a log (.error s) :=
  .inr ⟨⟨s, rfl⟩, sees⟩

theorem sprintf_does (text : Bytes) : (sprintf text).Ensures Fine (Does [] text) := by
  unfold sprintf
  split
  · exact Program.ensures_done (.inl ⟨rfl, did_nil⟩)
  · exact Program.ensures_stop (does_stopped [] _ rfl)

theorem reply_does (patience : ℕ) :
    (ppWaitCompletions .reply 1 patience 0).Ensures Fine (Does [] .exitSuccess) := by
  refine (wait_ensures .reply patience).mono fun log out waited => ?_
  obtain ⟨posts, sees, ⟨ends, takes, answers⟩ | stops⟩ := waited
  · refine .inl ⟨ends, posts, sees, ?_⟩
    rw [answers, if_pos rfl, List.length_nil]
    omega
  · exact .inr ⟨stops, sees⟩

theorem sendDataStr_does (patience : ℕ) (buf : Bytes) :
    (sendDataStr patience buf).Ensures Fine (Does [.send (onWire buf)] .exitSuccess) := by
  refine (after_post did_nil (by decide) (by decide) does_stopped fun log did => ?_).start
  exact after_done (.inl ⟨rfl, did⟩)

theorem clientSetEager_does (patience : ℕ) (key value : CString) :
    (clientSetEager patience key value).Ensures Fine
      (Does [.send (onWire (flagKeyText .se key.bytes value.bytes))] .exitSuccess) := by
  refine (after_bind did_nil (sprintf_does _) does_stopped fun log did => ?_).start
  refine after_bind did (sendDataStr_does _ _) does_stopped fun log did => ?_
  exact after_done (.inl ⟨rfl, did⟩)

theorem finishRendezvous_does (patience : ℕ) (fin : Bytes) :
    (finishRendezvous patience fin).Ensures Fine (Does [.send (onWire fin)] .exitSuccess) := by
  refine (after_bind did_nil (sprintf_does _) does_stopped fun log did => ?_).start
  refine after_bind did (sendDataStr_does _ _) does_stopped fun log did => ?_
  refine after_lib did (fun _ => ⟨rfl, rfl, Nat.zero_le _⟩) fun errno none _ did => ?_
  have zero : ¬ errno ≠ 0 := fun failed => none (decide_eq_true failed)
  rw [if_neg zero]
  exact after_done (.inl ⟨rfl, did⟩)

/-- A rendezvous set posts three requests and looks at the descriptor. -/
theorem clientSetRendezvous_does (patience : ℕ) (key value : CString) :
    (clientSetRendezvous patience key value).Ensures Fine fun log out =>
      ∀ ret, out = .ok ret → ret = .exitSuccess ∧ ∃ contents rkey addr,
        readRegion (text contents) = some (.region rkey addr) ∧ Did
        [.send (onWire (flagKeyText .sr key.bytes (sizeText value.bytes))),
          .write value.bytes rkey addr, .send (onWire (flagKey .fs key.bytes))]
        [contents] log := by
  refine (after_lib did_nil (fun _ => ⟨rfl, rfl, Nat.zero_le _⟩) fun msgSize _ _ did => ?_).start
  split
  · exact after_stop nofun
  · refine after_bind did (sprintf_does _) nofun fun log did => ?_
    refine after_bind did (sendDataStr_does _ _) nofun fun log did => ?_
    refine after_check did regMr_checked fun _ did => ?_
    refine after_bind did (reply_does _) nofun fun log did => ?_
    refine after_look did fun contents log did => ?_
    split
    next rkey rAddr described =>
      refine after_post did (by decide) (by decide) nofun fun log did => ?_
      refine (finishRendezvous_does patience _).mono ?_
      rintro log' out (⟨rfl, did'⟩ | ⟨⟨s, rfl⟩, -⟩) ret same
      · cases same
        exact ⟨rfl, contents, rkey, rAddr, described, did.append did'⟩
      · cases same
    next => exact after_stop nofun

/-- What the value's own part of a set has posted. -/
def StoresValue (key value : CString) (works : List Work) : Prop :=
  if isEager value.bytes then
    works = [.send (onWire (flagKeyText .se key.bytes value.bytes))]
  else ∃ rkey addr, works =
    [.send (onWire (flagKeyText .sr key.bytes (sizeText value.bytes))),
      .write value.bytes rkey addr, .send (onWire (flagKey .fs key.bytes))]

/-- A set that is not refused has posted its ask and the messages of its value. -/
theorem kvSet_ensures (patience : ℕ) (key value : CString) :
    (kvSet patience key value).Ensures Fine fun log out =>
      ((seen log).head?.any (·.head? = some 'F'.toUInt8) ∧ out = .ok .exitSuccess ∧
          posted log = [.send (onWire (flagKey .as key.bytes))]) ∨
      ((seen log).head?.any (·.head? = some 'F'.toUInt8) = false ∧
        ∀ ret, out = .ok ret → ∃ works bytes, StoresValue key value works ∧
          Did (.send (onWire (flagKey .as key.bytes)) :: works) bytes log) := by
  have unseen (log : List ApiEvent) (s : Stop) (sees : seen log = []) :
      (seen log).head?.any (·.head? = some 'F'.toUInt8) = false := by
    rw [sees]
    rfl
  refine (after_bind did_nil (sprintf_does _) (fun log s sees => .inr ⟨unseen log s sees, nofun⟩)
    fun log did => ?_).start
  refine after_bind did (sendDataStr_does _ _) (fun log s sees => .inr ⟨unseen log s sees, nofun⟩)
    fun log did => ?_
  refine after_bind did (reply_does _) (fun log s sees => .inr ⟨unseen log s sees, nofun⟩)
    fun log did => ?_
  refine after_look did fun contents log did => ?_
  split
  next refused =>
    refine after_done (.inl ⟨?_, rfl, did.posted⟩)
    rw [did.seen]
    exact decide_eq_true refused
  next granted =>
    have first {more : List Bytes} {log : List ApiEvent} (sees : seen log = contents :: more) :
        (seen log).head?.any (·.head? = some 'F'.toUInt8) = false := by
      rw [sees]
      exact decide_eq_false granted
    split
    next eager =>
      refine after_bind did (clientSetEager_does _ _ _)
        (fun log s sees => .inr ⟨first sees, nofun⟩) fun log did => ?_
      refine after_bind did (reply_does _) (fun log s sees => .inr ⟨first sees, nofun⟩)
        fun log did => ?_
      refine after_done (.inr ⟨first did.seen, fun ret _ => ⟨_, _, (if_pos eager).mpr rfl, did⟩⟩)
    next large =>
      refine after_ensures (clientSetRendezvous_does patience key value) ?_ ?_
      · intro log' s _
        have sees : seen (log ++ log') = contents :: seen log' := by
          rw [seen_append, did.seen]
          rfl
        exact .inr ⟨first sees, nofun⟩
      · intro log' ret does
        obtain ⟨rfl, contents', rkey, addr, -, did'⟩ := does ret rfl
        have both := did.append did'
        refine after_bind both (reply_does _) (fun log s sees => .inr ⟨first sees, nofun⟩)
          fun log did => ?_
        exact after_done (.inr ⟨first did.seen, fun ret _ =>
          ⟨_, _, (if_neg large).mpr ⟨rkey, addr, rfl⟩, did⟩⟩)

/-- What a get leaves in `*value`, from what the client saw of its reply and of `value_buf`. -/
def ReadsValue (log : List ApiEvent) (value : Option Bytes) : Prop :=
  ∃ contents, (seen log).head? = some contents ∧
    (contents.head? = some 'e'.toUInt8 ∧ value = some (text (contents.drop 2)) ∨
    contents.head? ≠ some 'e'.toUInt8 ∧ ∃ (size : Int) (bytes : Bytes),
      readSize (text contents) = some (.size size) ∧
      ⟨.valueBuf size.toNat, bytes⟩ ∈ log ∧ value = some (text (bytes ++ [0])))

/-- A rendezvous get looks at the descriptor and reads into a buffer of its own. -/
theorem clientGetRendezvous_does (patience : ℕ) (key : CString) (size : Int) :
    (clientGetRendezvous patience key size).Ensures Fine fun log out =>
      ∀ ret value, out = .ok (ret, value) → ret = .exitSuccess ∧ ∃ contents rkey addr bytes,
        readRegion (text contents) = some (.region rkey addr) ∧
        Did [.read size.toNat rkey addr, .send (onWire (flagKey .fg key.bytes))] [contents] log ∧
        ⟨.valueBuf size.toNat, bytes⟩ ∈ log ∧ value = some (text (bytes ++ [0])) := by
  unfold clientGetRendezvous
  split
  · exact Program.ensures_stop nofun
  · refine (after_check did_nil (malloc_checked _ _) fun _ did => ?_).start
    split
    · exact after_stop nofun
    · refine after_check did regMr_checked fun _ did => ?_
      refine after_bind did (reply_does _) nofun fun log did => ?_
      refine after_look did fun contents log did => ?_
      split
      next rkey rAddr described =>
        refine after_post did (by decide) (by decide) nofun fun log did => ?_
        refine after_bind did (finishRendezvous_does patience _) nofun fun log did => ?_
        refine after_lib did (fun _ => ⟨rfl, rfl, Nat.zero_le _⟩) fun bytes _ last did => ?_
        apply after_done
        intro ret value same
        cases same
        exact ⟨rfl, contents, rkey, rAddr, bytes, described, did, last, rfl⟩
      next => exact after_stop nofun

/-- The buffer of a rendezvous get has room for a NUL. -/
theorem clientGetRendezvous_buffer (patience : ℕ) (key : CString) (size : Int) :
    (clientGetRendezvous patience key size).Ensures Fine fun log out =>
      ∀ result, out = .ok result →
        ⟨.malloc .value ((size + 1) % 2 ^ 64).toNat, true⟩ ∈ log := by
  unfold clientGetRendezvous
  split
  · exact Program.ensures_stop nofun
  · refine Program.ensures_call fun given given' log out path _ result _ => ?_
    have found : given = true := by
      cases given with
      | true => rfl
      | false => exact absurd rfl given'
    subst found
    exact List.mem_cons_self

/-- What a get has seen and posted: an eager reply, or a size and a descriptor and the RDMA read
for them. -/
theorem kvGet_does (patience : ℕ) (key : CString) :
    (kvGet patience key).Ensures Fine fun log out => ∀ ret got, out = .ok (ret, got) →
      ret = .exitSuccess ∧
      ((∃ contents, seen log = [contents] ∧ contents.head? = some 'e'.toUInt8 ∧
          got = some (text (contents.drop 2))) ∨
        ∃ (sized described : Bytes) (size : Int) (rkey : UInt32) (addr : UInt64) (bytes : Bytes),
          seen log = [sized, described] ∧ sized.head? ≠ some 'e'.toUInt8 ∧
          readSize (text sized) = some (.size size) ∧
          readRegion (text described) = some (.region rkey addr) ∧
          posted log = [.send (onWire (flagKey .ag key.bytes)),
            .send (onWire (flagKey .g0 key.bytes)), .read size.toNat rkey addr,
            .send (onWire (flagKey .fg key.bytes))] ∧
          ⟨.malloc .value ((size + 1) % 2 ^ 64).toNat, true⟩ ∈ log ∧
          ⟨.valueBuf size.toNat, bytes⟩ ∈ log ∧ got = some (text (bytes ++ [0]))) := by
  apply After.start
  refine after_bind did_nil (sprintf_does _) nofun fun log did => ?_
  refine after_bind did (sendDataStr_does _ _) nofun fun log did => ?_
  refine after_bind did (reply_does _) nofun fun log did => ?_
  refine after_bind did (sprintf_does _) nofun fun log did => ?_
  refine after_bind did (sendDataStr_does _ _) nofun fun log did => ?_
  refine after_bind did (reply_does _) nofun fun log did => ?_
  refine after_look did fun contents log did => ?_
  split
  next eager =>
    refine after_check did (malloc_checked _ _) fun _ did => ?_
    refine after_bind did (reply_does _) nofun fun log did => ?_
    apply after_done
    intro ret got same
    cases same
    exact ⟨rfl, .inl ⟨contents, did.seen, eager, rfl⟩⟩
  next large =>
    split
    next size sized =>
      have both : (clientGetRendezvous patience key size).Ensures Fine fun log out => _ ∧ _ :=
        fun log out path clean => ⟨clientGetRendezvous_does patience key size log out path clean,
          clientGetRendezvous_buffer patience key size log out path clean⟩
      refine after_ensures both nofun ?_
      rintro log' ⟨ret, got⟩ ⟨does, buffers⟩
      obtain ⟨rfl, described, rkey, addr, bytes, region, did', last, rfl⟩ := does ret got rfl
      have buffer := buffers _ rfl
      have did'' := did.append did'
      refine after_ensures (reply_does patience) nofun fun log'' ret' ends => ?_
      obtain ⟨-, did₃⟩ : ret' = .exitSuccess ∧ Did [] [] log'' := by
        rcases ends with ⟨same, did₃⟩ | ⟨⟨s, same⟩, -⟩
        · cases same
          exact ⟨rfl, did₃⟩
        · cases same
      have all := did''.append did₃
      apply after_done
      intro ret got same
      cases same
      have within : ∀ e : ApiEvent, e ∈ log' → e ∈ log ++ log' ++ log'' := fun e member =>
        List.mem_append_left _ (List.mem_append_right _ member)
      exact ⟨rfl, .inr ⟨contents, described, size, rkey, addr, bytes, all.seen, large, sized,
        region, all.posted, within _ buffer, within _ last, rfl⟩⟩
    next => exact after_stop nofun

theorem kvGet_ensures (patience : ℕ) (key : CString) :
    (kvGet patience key).Ensures Fine fun log out =>
      ∀ ret value, out = .ok (ret, value) → ret = .exitSuccess ∧ ReadsValue log value := by
  refine (kvGet_does patience key).mono fun log out does ret value ends => ?_
  obtain ⟨success, ⟨contents, once, eager, got⟩ |
    ⟨sized, described, size, -, -, bytes, twice, large, read, -, -, -, last, got⟩⟩ :=
    does ret value ends
  · exact ⟨success, contents, by rw [once]; rfl, .inl ⟨eager, got⟩⟩
  · exact ⟨success, sized, by rw [twice]; rfl, .inr ⟨large, size, bytes, read, last, got⟩⟩

end Api

/-! ## Success and failure -/

/-- The replies to a get of `stored`: the value itself, or its size and then an RDMA read
that fetches it. -/
def Served (stored : CString) (log : List ApiEvent) : Prop :=
  (∀ contents, (seen log).head? = some contents →
    (Reply.eager stored.bytes).bytes <+: contents) ∨
  (stored.bytes.length < 2 ^ 31 ∧
    (∀ contents, (seen log).head? = some contents →
      (Reply.size stored.bytes.length).bytes <+: contents) ∧
    ∀ n bytes, ⟨.valueBuf n, bytes⟩ ∈ log → bytes = stored.bytes.take n)

/-- What the adapters and the server do on a path on which nothing fails. -/
structure Faithful (call : Call) (stored : CString) (log : List ApiEvent) : Prop where
  /-- one completion for each work request that was posted -/
  sends : taken .send log ≤ (posted log).length
  /-- no message but the replies that the call waits for -/
  recvs : taken .recv log ≤ answered log
  served : ∀ key, call = .kvGet key → Served stored log

/-- What `EXIT_SUCCESS` means. -/
def SuccessMeans (call : Call) (stored : CString) (log : List ApiEvent) (value : Option Bytes) :
    Prop :=
  match call with
  | .kvSet key set => ∃ works, Api.StoresValue key set works ∧
    posted log = .send (onWire (flagKey .as key.bytes)) :: works ∧
    taken .send log = (posted log).length
  | .kvGet _ => value = some stored.bytes

/-- A failure on the path of a call makes it return `EXIT_FAILURE`, and `EXIT_SUCCESS` means
what it says. -/
def Truthful (call : Call) (stored : CString) (log : List ApiEvent)
    (out : Except Stop (Ret × Option Bytes)) : Prop :=
  ((∃ e ∈ log, ApiEvent.failed e) → ∃ value, out = .ok (.exitFailure, value)) ∧
    ∀ value, out = .ok (.exitSuccess, value) → SuccessMeans call stored log value

/-- A set whose ask the server answers with `F`. -/
def Refused (call : Call) (log : List ApiEvent) : Prop :=
  match call with
  | .kvSet _ _ => (seen log).head?.any (·.head? = some 'F'.toUInt8)
  | .kvGet _ => False

theorem api_set_path {patience : ℕ} {key value : CString} {log : List ApiEvent}
    {out : Except Stop (Ret × Option Bytes)}
    (path : ((Call.kvSet key value).api patience).Path log out) :
    ∃ out', (Api.kvSet patience key value).Path log out' ∧
      out = out'.map fun ret => (ret, none) := by
  rcases Program.path_bind path with ⟨s, rfl, stops⟩ | ⟨ret, before, after, rfl, passes, rest⟩
  · exact ⟨_, stops, rfl⟩
  · cases rest
    rw [List.append_nil]
    exact ⟨_, passes, rfl⟩

/-- What the client makes of the replies that it is served. -/
theorem Served.value {stored : CString} {log : List ApiEvent} {value : Option Bytes}
    (served : Served stored log) (reads : Api.ReadsValue log value) :
    value = some stored.bytes := by
  obtain ⟨contents, first, read⟩ := reads
  rcases served with direct | ⟨small, sizes, fetched⟩
  · have found : Phase.reads (.get keyK) contents = some (.eager stored.bytes) :=
      reads_of_answer (if_neg stored.noNul) (direct contents first)
    rcases read with ⟨eager, rfl⟩ | ⟨large, size, bytes, sized, -, -⟩
    · rw [Phase.reads, if_pos eager] at found
      injection found with inner
      injection inner with same
      rw [same]
    · rw [Phase.reads, if_neg large, sized] at found
      cases found
  · have bounds : 0 ≤ (stored.bytes.length : Int) ∧ (stored.bytes.length : Int) < 2 ^ 31 :=
      ⟨Int.natCast_nonneg _, by omega⟩
    have answers : answer (Phase.get keyK).wants (.size stored.bytes.length) = some [.region] := by
      simp only [Phase.wants, answer]
      exact if_pos bounds
    have found : Phase.reads (.get keyK) contents = some (.size stored.bytes.length) :=
      reads_of_answer answers (sizes contents first)
    rcases read with ⟨eager, rfl⟩ | ⟨large, size, bytes, sized, last, rfl⟩
    · rw [Phase.reads, if_pos eager] at found
      cases found
    · rw [Phase.reads, if_neg large, sized] at found
      cases found
      rw [fetched _ bytes last, Int.toNat_natCast, List.take_length, text_append_nul stored.noNul]

/-- Where nothing failed a call that returned success has done what this means, if it was
not refused. -/
theorem successMeans_iff {patience : ℕ} {call : Call} {stored : CString} {log : List ApiEvent}
    {value : Option Bytes} (path : (call.api patience).Path log (.ok (.exitSuccess, value)))
    (clean : ∀ e ∈ log, Fine e) (faithful : Faithful call stored log) :
    SuccessMeans call stored log value ↔ ¬ Refused call log := by
  cases call with
  | kvSet key set =>
      obtain ⟨out', path', same⟩ := api_set_path path
      rcases Api.kvSet_ensures patience key set log out' path' clean with
        ⟨refused, -, posts⟩ | ⟨granted, does⟩
      · apply iff_of_false
        · rintro ⟨works, stores, all, -⟩
          rw [posts] at all
          injections all none
          subst none
          unfold Api.StoresValue at stores
          split at stores
          · cases stores
          · obtain ⟨rkey, addr, stores⟩ := stores
            cases stores
        · exact not_not.mpr refused
      · cases out' with
        | error s => cases same
        | ok ret =>
            obtain ⟨works, bytes, stores, posts, -, waited⟩ := does ret rfl
            have sends := faithful.sends
            have recvs := faithful.recvs
            apply iff_of_true
            · refine ⟨works, stores, posts, ?_⟩
              rw [posts] at sends ⊢
              omega
            · intro refused
              rw [Refused, granted] at refused
              cases refused
  | kvGet key =>
      have reads := (Api.kvGet_ensures patience key log _ path clean _ value rfl).2
      exact iff_of_true ((faithful.served key rfl).value reads) not_false

/-- A refused set returns success. -/
theorem success_of_refused {patience : ℕ} {call : Call} {log : List ApiEvent}
    {out : Except Stop (Ret × Option Bytes)} (path : (call.api patience).Path log out)
    (clean : ∀ e ∈ log, Fine e) (refused : Refused call log) :
    ∃ value, out = .ok (.exitSuccess, value) := by
  cases call with
  | kvGet key => cases refused
  | kvSet key set =>
      obtain ⟨out', path', rfl⟩ := api_set_path path
      rcases Api.kvSet_ensures patience key set log out' path' clean with
        ⟨-, rfl, -⟩ | ⟨granted, -⟩
      · exact ⟨none, rfl⟩
      · rw [Refused, granted] at refused
        cases refused

/-- A call tells the truth exactly if one of its failures is caught, or nothing fails and a
set is not refused. -/
theorem truthful_iff (patience : ℕ) (call : Call) (stored : CString) (log : List ApiEvent)
    (out : Except Stop (Ret × Option Bytes)) (path : (call.api patience).Path log out)
    (faithful : (∀ e ∈ log, Fine e) → (∃ result, out = .ok result) →
      Faithful call stored log) :
    Truthful call stored log out ↔
      (∃ e ∈ log, ApiEvent.caught e) ∨ (∀ e ∈ log, Fine e) ∧ ¬ Refused call log := by
  have reported := api_propagates patience call log out path
  constructor
  · rintro ⟨failures, success⟩
    by_cases failed : ∃ e ∈ log, ApiEvent.failed e
    · obtain ⟨value, rfl⟩ := failures failed
      exact .inl (reported.mpr ⟨_, rfl, rfl⟩)
    · have clean : ∀ e ∈ log, Fine e := fun e member bad => failed ⟨e, member, bad⟩
      refine .inr ⟨clean, fun refused => ?_⟩
      obtain ⟨value, rfl⟩ := success_of_refused path clean refused
      exact (successMeans_iff path clean (faithful clean ⟨_, rfl⟩)).mp (success value rfl) refused
  · rintro (caught | ⟨clean, granted⟩)
    · obtain ⟨⟨ret, value⟩, rfl, failure⟩ := reported.mp caught
      cases failure
      exact ⟨fun _ => ⟨value, rfl⟩, fun _ same => by cases same⟩
    · refine ⟨?_, ?_⟩
      · rintro ⟨e, member, failed⟩
        exact absurd failed (clean e member)
      · rintro value rfl
        exact (successMeans_iff path clean (faithful clean ⟨_, rfl⟩)).mpr granted

/-- What `ctx->buf` holds after an eager reply to a get of `valueV`. -/
def eagerBuf : Bytes := (Reply.eager valueV.bytes).bytes

/-- An eager get, each wait of which takes its own completion. -/
def quietGet : List ApiEvent :=
  [⟨.post (.send (onWire (flagKey .ag keyK.bytes))), (0 : Int)⟩,
    ⟨.poll .send, .taken [.success .send]⟩, ⟨.poll .reply, .taken [.success .recv]⟩,
    ⟨.post (.send (onWire (flagKey .g0 keyK.bytes))), (0 : Int)⟩,
    ⟨.poll .send, .taken [.success .send]⟩, ⟨.poll .reply, .taken [.success .recv]⟩,
    ⟨.contents, eagerBuf⟩, ⟨.malloc .copy 2, true⟩, ⟨.poll .reply, .taken [.success .recv]⟩]

/-- An eager set whose wait for the ACK fails. The client still finds its own request in
`ctx->buf`, and the ACK is taken for the completion of the next send. -/
def failedWait : List ApiEvent :=
  [⟨.post (.send (onWire (flagKey .as keyK.bytes))), (0 : Int)⟩,
    ⟨.poll .send, .taken [.success .send]⟩, ⟨.poll .reply, .failed⟩,
    ⟨.contents, onWire (flagKey .as keyK.bytes)⟩,
    ⟨.post (.send (onWire (flagKeyText .se keyK.bytes valueV.bytes))), (0 : Int)⟩,
    ⟨.poll .send, .taken [.success .recv]⟩, ⟨.poll .reply, .taken [.success .send]⟩]

theorem truthful_get : Truthful (.kvGet keyK) valueV quietGet
    (.ok (.exitSuccess, some valueV.bytes)) := by
  have path : ((Call.kvGet keyK).api 1).Path quietGet (.ok (.exitSuccess, some valueV.bytes)) :=
    Program.path_of_replay (by decide +kernel)
  have clean : ∀ e ∈ quietGet, Fine e := by decide +kernel
  have served : Served valueV quietGet := by
    refine .inl fun contents first => ?_
    cases first
    exact List.prefix_rfl
  refine (truthful_iff 1 _ _ _ _ path fun _ _ => ⟨?_, ?_, fun _ _ => served⟩).mpr
    (.inr ⟨clean, not_false⟩)
  · decide +kernel
  · decide +kernel

theorem failed_wait_hidden : ¬ ∀ patience call stored log out,
    (Call.api patience call).Path log out →
    ((∀ e ∈ log, Fine e) → (∃ result, out = .ok result) → Faithful call stored log) →
    Truthful call stored log out := by
  intro allTruthful
  have path : ((Call.kvSet keyK valueV).api 1).Path failedWait (.ok (.exitSuccess, none)) :=
    Program.path_of_replay (by decide +kernel)
  have failed : ∃ e ∈ failedWait, ApiEvent.failed e := by decide +kernel
  obtain ⟨e, member, bad⟩ := failed
  have truthful := allTruthful 1 _ valueV _ _ path fun clean => absurd bad (clean e member)
  obtain ⟨value, same⟩ := truthful.1 ⟨e, member, bad⟩
  cases same

end RdmaWiki
