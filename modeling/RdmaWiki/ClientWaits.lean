import RdmaWiki.ClientLoop

/-!
The balance of a client's waits against its completions.

Each wait of a call is meant for one completion, but takes the whole batch of the
poll that ends it. In every run the completions that are still to come and the ones
that waits took too many are together as many as the waits ahead need
(`available_add_surplus`). So the call is in balance exactly if every wait so far took
one completion, and only then can it return (`balanced_iff_of_run`).
-/

namespace RdmaWiki

open CText StepMachine

/-- The replies that answer what is owed. -/
def Owed.replies : Owed → ℕ
  | .answer => 1
  | .ack => 1
  | .region => 1
  | .value => 2

def repliesTo (owed : List Owed) : ℕ := (owed.map Owed.replies).sum

/-- The completions that the waits ahead take, up to the next send. -/
def Phase.due (phase : Phase) : ClientStage → ℕ
  | .rest => 0
  | .post _ => 0
  | .rdma => 0
  | .posted => repliesTo phase.wants + 1
  | .awaiting => repliesTo phase.wants
  | .reading => repliesTo phase.wants - 1
  | .lost => repliesTo phase.wants - 1

/-- The completions on the queue and to come for what the client has sent. -/
def ClientState.available (s : ClientState) : ℕ :=
  s.conn.sends + s.conn.recvs + repliesTo s.owed

/-- What is still to come is what the waits ahead take. -/
def ClientState.Balanced (s : ClientState) : Prop := s.available = s.phase.due s.stage

/-- The client polls, and no completion is on the queue or to come. -/
def ClientState.Starved (s : ClientState) : Prop :=
  (s.stage = .posted ∨ s.stage = .awaiting) ∧ s.available = 0

/-- The completions that waits took beyond one each. -/
def surplus (trace : List ClientEvent) : ℕ :=
  (trace.map fun
    | .took n => n - 1
    | _ => 0).sum

/-- An RDMA operation is posted in a phase without replies, and a reply is awaited in a
phase with one. -/
def Phase.Placed (phase : Phase) : ClientStage → Prop
  | .rdma => phase.wants = []
  | .awaiting => phase.wants ≠ []
  | _ => True

section Steps

variable {trace events : List ClientEvent} {s s' : ClientState}

@[simp] theorem surplus_append (trace events : List ClientEvent) :
    surplus (trace ++ events) = surplus trace + surplus events := by
  simp [surplus]

@[simp] theorem repliesTo_nil : repliesTo [] = 0 := rfl

@[simp] theorem repliesTo_append (owed more : List Owed) :
    repliesTo (owed ++ more) = repliesTo owed + repliesTo more := by
  simp [repliesTo]

theorem repliesTo_pos {owed : List Owed} (some : owed ≠ []) : 0 < repliesTo owed := by
  cases owed with
  | nil => exact absurd rfl some
  | cons first rest =>
      cases first <;>
      · simp only [repliesTo, List.map_cons, List.sum_cons, Owed.replies]
        omega

/-- A reply settles one of the replies owed. -/
theorem repliesTo_answer {owed owed' : List Owed} {reply : Reply}
    (answers : answer owed reply = some owed') : repliesTo owed' + 1 = repliesTo owed := by
  obtain ⟨first, rest, rfl, ⟨rfl, -, rfl⟩ | ⟨rfl, -, rfl⟩ | ⟨rfl, -, rfl⟩ | ⟨rfl, -, rfl⟩ |
    ⟨rfl, -, rfl⟩⟩ := answer_cases answers <;>
  · simp only [repliesTo, List.map_cons, List.sum_cons, Owed.replies]
    omega

/-- Only `g0` has two replies. -/
theorem repliesTo_le_one {phase : Phase} (single : phase.wants ≠ [.value]) :
    repliesTo phase.wants ≤ 1 := by
  cases phase with
  | get key => exact absurd rfl single
  | _ => simp [Phase.wants, repliesTo, Owed.replies]

/-- A phase that is over has taken one reply, and the next one starts well placed. -/
theorem due_proceed {phase : Phase} {replies : List Reply} {mem mem' : Mem} {cl : Client}
    {results : List (Call × Result)}
    (went : Client.proceed ⟨phase, [], replies⟩ mem = some (cl, mem', results)) :
    cl.phase.due (cl.phase.enter cl.requests) = repliesTo phase.wants - 1 ∧
      cl.phase.Placed (cl.phase.enter cl.requests) := by
  obtain ⟨-, -, ⟨asked, starts, next⟩ | ⟨asked, starts⟩⟩ := proceed_cases went
  · rw [starts, asked]
    rcases next with ⟨-, wants⟩ | ⟨-, wants⟩ <;>
    · rw [Phase.due, Phase.Placed, wants]
      exact ⟨rfl, List.cons_ne_nil _ _⟩
  · have few := repliesTo_le_one asked
    rcases starts with starts | ⟨request, starts⟩ | ⟨starts, wants⟩ <;> rw [starts]
    · exact ⟨by rw [Phase.due]; omega, True.intro⟩
    · exact ⟨by rw [Phase.due]; omega, True.intro⟩
    · exact ⟨by rw [Phase.due]; omega, wants⟩

/-- The accounts of a state. -/
structure Accounted (trace : List ClientEvent) (s : ClientState) : Prop where
  counted : s.available + surplus trace = s.phase.due s.stage
  placed : s.phase.Placed s.stage

theorem Accounted.poll (acc : Accounted trace s) {n : ℕ}
    (polled : s.poll n = some (s', events)) : Accounted (trace ++ events) s' := by
  obtain ⟨waits, ⟨rfl, rfl⟩ | ⟨batch, conn, taken, nonempty, rfl, rfl⟩⟩ :=
    ClientState.poll_cases polled
  · rwa [List.append_nil]
  obtain ⟨sends, recvs, -, size⟩ := Conn.poll_counts taken
  have kinds := count_send_add_recv batch
  have positive := List.length_pos_iff.mpr nonempty
  have counted := acc.counted
  have placed := acc.placed
  have taking : surplus [ClientEvent.took n] = n - 1 := rfl
  simp only [ClientState.available] at counted
  rcases waits with here | here
  · rcases eq_or_ne s.phase.wants [] with none | some
    · rw [here, Phase.due, none, repliesTo_nil] at counted
      refine ⟨?_, ?_⟩
      · simp only [ClientState.available, surplus_append, taking, here, none, Phase.due,
          repliesTo_nil]
        simp only [ne_eq, not_true_eq_false, and_false, if_false]
        omega
      · simp [here, none, Phase.Placed]
    · rw [here, Phase.due] at counted
      refine ⟨?_, ?_⟩
      · simp only [ClientState.available, surplus_append, taking, here, some, Phase.due, ne_eq,
          not_false_eq_true, and_self, if_true]
        omega
      · simp [here, some, Phase.Placed]
  · rw [here] at counted placed
    have wants := repliesTo_pos placed
    rw [Phase.due] at counted
    refine ⟨?_, ?_⟩
    · simp only [ClientState.available, surplus_append, taking, here, reduceCtorEq, false_and,
        if_false, Phase.due]
      omega
    · simp [here, Phase.Placed]

theorem surplus_looked {looked : List ClientEvent} {phase : Phase} {reply : Option Reply}
    {buf : Bytes} (shape : looked = if phase.looks then [ClientEvent.read phase reply buf] else []) :
    surplus looked = 0 := by
  subst shape
  split <;> rfl

theorem surplus_returned (results : List (Call × Result)) :
    surplus (results.map fun (call, result) => ClientEvent.returned call result) = 0 := by
  induction results with
  | nil => rfl
  | cons result rest ih => simpa [surplus] using ih

theorem Accounted.finish (acc : Accounted trace s) (here : s.stage = .reading) {mem : Mem}
    (finished : s.finish mem = some (s', events)) : Accounted (trace ++ events) s' := by
  have counted := acc.counted
  rw [here, Phase.due] at counted
  rcases ClientState.finish_cases finished with
    ⟨-, cl, mem', results, went, rfl, rfl⟩ | ⟨-, looked, shape,
      ⟨-, rfl, rfl⟩ | ⟨reply, cl, mem', results, -, went, rfl, rfl⟩⟩
  · obtain ⟨due, placed⟩ := due_proceed went
    refine ⟨?_, placed⟩
    rw [surplus_append, surplus_returned]
    exact counted.trans due.symm
  · refine ⟨?_, True.intro⟩
    rw [surplus_append, surplus_looked shape]
    exact counted
  · obtain ⟨due, placed⟩ := due_proceed went
    refine ⟨?_, placed⟩
    rw [surplus_append, surplus_append, surplus_looked shape, surplus_returned]
    exact counted.trans due.symm

theorem Accounted.step (acc : Accounted trace s) {mem : Mem}
    (stepped : s.step mem = some (s', events)) : Accounted (trace ++ events) s' := by
  unfold ClientState.step at stepped
  split at stepped
  next request here =>
    cases stepped
    have counted := acc.counted
    rw [here, Phase.due] at counted
    refine ⟨?_, True.intro⟩
    simp only [ClientState.available, Conn.sends, Conn.recvs, Conn.post, List.append_nil,
      repliesTo_append, Phase.due] at counted ⊢
    omega
  next here =>
    cases stepped
    have counted := acc.counted
    have placed := acc.placed
    rw [here] at counted placed
    rw [Phase.due] at counted
    refine ⟨?_, True.intro⟩
    simp only [ClientState.available, Conn.sends, Conn.recvs, Conn.post, List.append_nil,
      Phase.due, show s.phase.wants = [] from placed, repliesTo_nil] at counted ⊢
    omega
  next here => exact acc.finish here stepped
  next => cases stepped

theorem Accounted.next (acc : Accounted trace s) {action : ClientAction}
    (next : s.next action = some (s', events)) : Accounted (trace ++ events) s' := by
  cases action with
  | invoke call =>
      simp only [ClientState.next, ClientState.invoke] at next
      split at next
      next free =>
        cases next
        have counted := acc.counted
        rw [free.1, Phase.due] at counted
        rw [List.append_nil]
        cases call <;> exact ⟨counted, True.intro⟩
      next => cases next
  | step mem => exact acc.step next
  | land reply =>
      simp only [ClientState.next] at next
      split at next
      next =>
        obtain ⟨owed, answers, done⟩ := Option.map_eq_some_iff.mp next
        cases done
        have settled := repliesTo_answer answers
        have counted := acc.counted
        refine ⟨?_, acc.placed⟩
        simp only [ClientState.available, Conn.sends, Conn.recvs, Conn.land,
          List.append_nil] at counted ⊢
        omega
      next => cases next
  | complete wc =>
      obtain ⟨conn, appears, done⟩ := Option.map_eq_some_iff.mp next
      cases done
      obtain ⟨sends, recvs, -⟩ := Conn.complete_counts appears
      refine ⟨?_, acc.placed⟩
      have counted := acc.counted
      simp only [ClientState.available, sends, recvs, List.append_nil] at counted ⊢
      exact counted
  | poll n => exact acc.poll next

end Steps

/-- What is still to come and what waits took too many is what the waits ahead need. -/
theorem accounted_of_run {trace : List ClientEvent} {s : ClientState}
    (run : clientLoop.Run always trace s) : Accounted trace s := by
  induction run with
  | init => exact ⟨rfl, True.intro⟩
  | step before _ next ih => exact ih.next next

theorem surplus_eq_zero_iff {trace : List ClientEvent} :
    surplus trace = 0 ↔ ∀ n, .took n ∈ trace → n ≤ 1 := by
  induction trace with
  | nil => exact iff_of_true rfl fun _ member => absurd member List.not_mem_nil
  | cons event rest ih =>
      have split : surplus (event :: rest) = surplus [event] + surplus rest :=
        surplus_append [event] rest
      rw [split, Nat.add_eq_zero_iff, ih]
      cases event with
      | took m =>
          have taking : surplus [ClientEvent.took m] = m - 1 := rfl
          rw [taking]
          constructor
          · intro ⟨one, others⟩ n member
            rcases List.mem_cons.mp member with same | inRest
            · cases same
              omega
            · exact others n inRest
          · intro all
            have one := all m List.mem_cons_self
            exact ⟨by omega, fun n inRest => all n (List.mem_cons_of_mem _ inRest)⟩
      | read phase reply buf => simp [surplus]
      | returned call result => simp [surplus]

/-- In every run the client is in balance exactly if no poll that ended a wait returned
more than one completion. In balance it never waits for nothing; out of balance it waits
for nothing in the next wait for a single reply, and its call does not return. -/
theorem balanced_iff_of_run {trace : List ClientEvent} {s : ClientState}
    (run : clientLoop.Run always trace s) :
    (s.Balanced ↔ ∀ n, .took n ∈ trace → n ≤ 1) ∧ (s.Balanced → ¬ s.Starved) ∧
      (s.stage = .awaiting → repliesTo s.phase.wants = 1 → (s.Starved ↔ ¬ s.Balanced)) ∧
      (s.stage = .rest → s.Balanced) := by
  obtain ⟨counted, placed⟩ := accounted_of_run run
  refine ⟨?_, ?_, ?_, ?_⟩
  · rw [← surplus_eq_zero_iff, ClientState.Balanced]
    omega
  · intro balanced ⟨waits, nothing⟩
    rw [ClientState.Balanced, nothing] at balanced
    rcases waits with here | here
    · rw [here, Phase.due] at balanced
      omega
    · rw [here] at placed
      have wants := repliesTo_pos placed
      rw [here, Phase.due] at balanced
      omega
  · intro here single
    have polls : s.stage = .posted ∨ s.stage = .awaiting := .inr here
    rw [here, Phase.due] at counted
    rw [ClientState.Starved, ClientState.Balanced, and_iff_right polls, here, Phase.due]
    omega
  · intro idle
    rw [idle, Phase.due] at counted
    rw [ClientState.Balanced, idle, Phase.due]
    omega

/-- An eager set whose waits take one completion each, up to its return. -/
theorem balanced_after_set : ∃ trace s, clientLoop.Run always trace s ∧
    .returned (.kvSet keyK valueV) .stored ∈ trace ∧
      (s.Balanced ↔ ∀ n, .took n ∈ trace → n ≤ 1) := by
  obtain ⟨trace, s, run, ends⟩ := Machine.Run.of_exec clientLoop always
    [.invoke (.kvSet keyK valueV), .step emptyHeap, .land .ack, .complete .recv,
      .complete .send, .poll 1, .poll 1, .step emptyHeap, .step emptyHeap, .land .ack,
      .complete .send, .complete .recv, .poll 1, .poll 1, .step emptyHeap]
    (fun trace _ => decide (.returned (.kvSet keyK valueV) .stored ∈ trace))
    (by decide +kernel)
  exact ⟨trace, s, run, of_decide_eq_true ends, (balanced_iff_of_run run).1⟩

/-- The wait for the send of the ask takes its completion and the receive completion of
the ACK; the wait for the ACK polls forever. -/
theorem wait_starved : ¬ ∀ trace s, clientLoop.Run always trace s → ¬ s.Starved := by
  intro neverStarved
  obtain ⟨trace, s, run, ends⟩ := Machine.Run.of_exec clientLoop always
    [.invoke (.kvSet keyK valueV), .step emptyHeap, .land .ack, .complete .send,
      .complete .recv, .poll 2]
    (fun _ s => decide (s.stage = .awaiting ∧ s.available = 0)) (by decide +kernel)
  obtain ⟨here, nothing⟩ := of_decide_eq_true ends
  exact neverStarved trace s run ⟨.inr here, nothing⟩

end RdmaWiki
