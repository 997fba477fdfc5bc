import RdmaWiki.ServerLoop

/-!
Exactly one call of `parse_data` for every request.

The server tells no receive completion from a send completion: whatever ends a
poll of `receive_query` triggers one call of `parse_data`, and whatever ends the
wait of a send ends it. So the calls match the messages exactly as long as every
poll of `receive_query` takes at most one completion and no send's wait takes a
receive completion (`exactlyOnce_iff_of_run`). A client that acts on its ACK before
the server has polled the completion of that ACK breaks the match
(`request_swallowed`).
-/

namespace RdmaWiki

open CText StepMachine

variable {N : ℕ}

/-- The calls of `parse_data` for `c` that a poll has triggered and that are not made
yet. -/
def ServerPc.triggered (pc : ServerPc N) (c : Fin N) : ℕ :=
  match pc with
  | .parsing d => if d = c then 1 else 0
  | _ => 0

/-- The completions of sends to `c` that the server is waiting for. -/
def ServerPc.awaited (pc : ServerPc N) (c : Fin N) : ℕ :=
  match pc with
  | .waiting d _ _ => if d = c then 1 else 0
  | _ => 0

/-- For every client, the messages are as many as the calls of `parse_data`, made or
triggered, and the receive completions that will trigger one; no send completion is
left over that could trigger one or end another send's wait. -/
structure ExactlyOnce (trace : List (ServerEvent N)) (s : ServerState N) : Prop where
  handled : ∀ c, (parseCalls c trace).length + s.pc.triggered c + (s.conns c).recvs =
    (arrivals c trace).length
  served : ∀ c, (s.conns c).sends = s.pc.awaited c

/-- A poll in a send's wait returns no receive completion, and any other poll at most
one completion. -/
def onePerPoll : Guard (ServerState N) (ServerAction N) (ServerEvent N)
  | _, s, .poll n =>
    match s.pc with
    | .waiting c _ _ => Wc.recv ∉ (s.conns c).queue.take n
    | _ => n ≤ 1
  | _, _, _ => True

instance (trace : List (ServerEvent N)) (s : ServerState N) (action : ServerAction N) :
    Decidable (onePerPoll trace s action) :=
  match action with
  | .poll n =>
    let polled (pc : ServerPc N) : Decidable (match pc with
        | .waiting c _ _ => Wc.recv ∉ (s.conns c).queue.take n
        | _ => n ≤ 1) :=
      match pc with
      | .waiting c _ _ => inferInstanceAs (Decidable (Wc.recv ∉ (s.conns c).queue.take n))
      | .polling _ | .parsing _ | .sending _ | .crashed => inferInstanceAs (Decidable (n ≤ 1))
    polled s.pc
  | .land _ _ | .rdmaWrite _ _ _ | .complete _ _ | .parse _ _ | .send => .isTrue True.intro

section Steps

variable {trace events : List (ServerEvent N)} {s s' : ServerState N}

/-- A step that keeps the counts of every connection keeps the match. -/
theorem ExactlyOnce.of_counts (once : ExactlyOnce trace s)
    (triggered : ∀ c, s'.pc.triggered c = s.pc.triggered c)
    (awaited : ∀ c, s'.pc.awaited c = s.pc.awaited c)
    (sends : ∀ c, (s'.conns c).sends = (s.conns c).sends)
    (recvs : ∀ c, (s'.conns c).recvs = (s.conns c).recvs) : ExactlyOnce trace s' where
  handled := fun c => by rw [triggered, recvs, once.handled c]
  served := fun c => by rw [sends, awaited, once.served c]

theorem ExactlyOnce.land (once : ExactlyOnce trace s) (c : Fin N) (message : CString) :
    ExactlyOnce (trace ++ [.landed c message])
      (s.setConn c ((s.conns c).land (onWire message.bytes))) where
  handled := fun d => by
    have before := once.handled d
    rcases eq_or_ne d c with rfl | other
    · have landed : ((s.conns d).land (onWire message.bytes)).recvs = (s.conns d).recvs + 1 :=
        Nat.add_right_comm ..
      simp [landed, ← before, Nat.add_assoc]
    · simpa [s.setConn_of_ne other, other.symm] using before
  served := fun d => by
    have counts : ((s.conns c).land (onWire message.bytes)).sends = (s.conns c).sends := rfl
    exact (ServerState.setConn_same Conn.sends s counts d).trans (once.served d)

theorem ExactlyOnce.complete (once : ExactlyOnce trace s) {c : Fin N} {wc : Wc} {conn : Conn}
    (appears : (s.conns c).complete wc = some conn) : ExactlyOnce trace (s.setConn c conn) := by
  obtain ⟨sends, recvs, -⟩ := Conn.complete_counts appears
  exact once.of_counts (fun _ => rfl) (fun _ => rfl)
    (ServerState.setConn_same Conn.sends s sends) (ServerState.setConn_same Conn.recvs s recvs)

/-- A batch that triggers a call of `parse_data` keeps the match exactly if it is one
completion. -/
theorem ExactlyOnce.trigger_iff (once : ExactlyOnce trace s) {index : Fin N} {n routs : ℕ}
    {batch : List Wc} {conn : Conn} (here : s.pc = .polling index)
    (taken : (s.conns index).poll n = some (batch, conn)) (nonempty : batch ≠ []) :
    ExactlyOnce trace { s.setConn index { conn with routs := routs } with
      prevIndex := index
      pc := .parsing index } ↔ n ≤ 1 := by
  obtain ⟨sends, recvs, -, size⟩ := Conn.poll_counts taken
  have kinds := count_send_add_recv batch
  have positive := List.length_pos_iff.mpr nonempty
  have handled := once.handled
  have served := once.served
  simp only [here, ServerPc.triggered, ServerPc.awaited] at handled served
  have noSends := served index
  have counts : ({ conn with routs := routs } : Conn).sends = conn.sends ∧
    ({ conn with routs := routs } : Conn).recvs = conn.recvs := ⟨rfl, rfl⟩
  constructor
  · intro after
    have matched := after.handled index
    have before := handled index
    simp only [ServerState.setConn_self, counts.2, ServerPc.triggered, if_true] at matched
    omega
  · intro single
    refine ⟨fun d => ?_, fun d => ?_⟩
    · have before := handled d
      rcases eq_or_ne d index with rfl | other
      · simp only [ServerState.setConn_self, counts.2, ServerPc.triggered, if_true]
        omega
      · simp only [s.setConn_of_ne other, ServerPc.triggered, other.symm, if_false]
        exact before
    · rcases eq_or_ne d index with rfl | other
      · simp only [ServerState.setConn_self, counts.1, ServerPc.awaited]
        omega
      · simp only [s.setConn_of_ne other, ServerPc.awaited]
        exact served d

/-- A batch that ends a send's wait keeps the match exactly if no receive completion is
in it. -/
theorem ExactlyOnce.waited_iff (once : ExactlyOnce trace s) {c : Fin N} {n : ℕ}
    {first : Option UInt8} {todo : List (Fin N × Reply)} {batch : List Wc} {conn : Conn}
    (here : s.pc = .waiting c first todo)
    (taken : (s.conns c).poll n = some (batch, conn)) (nonempty : batch ≠ []) :
    ExactlyOnce trace { s.setConn c (conn.restore first) with pc := .sending todo } ↔
      Wc.recv ∉ batch := by
  obtain ⟨sends, recvs, -, size⟩ := Conn.poll_counts taken
  have kinds := count_send_add_recv batch
  have positive := List.length_pos_iff.mpr nonempty
  have handled := once.handled
  have served := once.served
  simp only [here, ServerPc.triggered, ServerPc.awaited] at handled served
  have oneSend := served c
  rw [if_pos rfl] at oneSend
  have counts : (conn.restore first).sends = conn.sends ∧
    (conn.restore first).recvs = conn.recvs := ⟨rfl, rfl⟩
  rw [← List.count_eq_zero]
  constructor
  · intro after
    have matched := after.handled c
    have before := handled c
    simp only [ServerState.setConn_self, counts.2, ServerPc.triggered] at matched
    omega
  · intro noRecv
    refine ⟨fun d => ?_, fun d => ?_⟩
    · have before := handled d
      rcases eq_or_ne d c with rfl | other
      · simp only [ServerState.setConn_self, counts.2, ServerPc.triggered]
        omega
      · simp only [s.setConn_of_ne other, ServerPc.triggered]
        exact before
    · rcases eq_or_ne d c with rfl | other
      · simp only [ServerState.setConn_self, counts.1, ServerPc.awaited]
        omega
      · have before := served d
        rw [if_neg other.symm] at before
        simp only [s.setConn_of_ne other, ServerPc.awaited]
        exact before

theorem ExactlyOnce.poll_iff [NeZero N] (once : ExactlyOnce trace s) {n : ℕ}
    (polled : s.poll n = some s') : ExactlyOnce trace s' ↔ onePerPoll trace s (.poll n) := by
  rcases ServerState.poll_cases polled with
    ⟨rfl, rfl | ⟨index, here, rfl⟩⟩ | ⟨index, batch, conn, routs, here, taken, nonempty, rfl⟩ |
    ⟨c, first, todo, batch, conn, here, taken, nonempty, rfl⟩
  · apply iff_of_true once
    cases here : s'.pc <;> simp [onePerPoll, here]
  · refine iff_of_true (once.of_counts (fun _ => ?_) (fun _ => ?_) (fun _ => rfl)
      (fun _ => rfl)) ?_
    · rw [here]
      rfl
    · rw [here]
      rfl
    · simp [onePerPoll, here]
  · rw [once.trigger_iff here taken nonempty]
    simp [onePerPoll, here]
  · rw [once.waited_iff here taken nonempty]
    have whole : (s.conns c).queue.take n = batch := by
      unfold Conn.poll at taken
      split at taken
      next => cases taken; rfl
      next => cases taken
    simp [onePerPoll, here, whole]

theorem ExactlyOnce.parse (once : ExactlyOnce trace s) {addr : UInt64} {rkey : UInt32}
    (parsed : s.parse addr rkey = some (s', events)) : ExactlyOnce (trace ++ events) s' := by
  obtain ⟨c, here, rfl, conns, pc⟩ := ServerState.parse_cases parsed
  have counts : (s.conns c).cut.sends = (s.conns c).sends ∧
    (s.conns c).cut.recvs = (s.conns c).recvs := ⟨rfl, rfl⟩
  have moved : (∀ d, s'.pc.triggered d = 0) ∧ ∀ d, s'.pc.awaited d = 0 := by
    rcases pc with pc | ⟨todo, pc⟩ <;> rw [pc] <;> exact ⟨fun _ => rfl, fun _ => rfl⟩
  have handled := once.handled
  have served := once.served
  simp only [here, ServerPc.triggered, ServerPc.awaited] at handled served
  refine ⟨fun d => ?_, fun d => ?_⟩
  · have before := handled d
    rw [conns, moved.1, ServerState.setConn_same Conn.recvs s counts.2 d]
    rcases eq_or_ne d c with rfl | other
    · simpa using before
    · simpa [other.symm] using before
  · rw [conns, moved.2, ServerState.setConn_same Conn.sends s counts.1 d, served]

theorem ExactlyOnce.send [NeZero N] (once : ExactlyOnce trace s)
    (sent : s.send = some (s', events)) : ExactlyOnce (trace ++ events) s' := by
  rcases ServerState.send_cases sent with
    ⟨here, rfl, rfl⟩ | ⟨c, reply, todo, here, rfl, rfl⟩
  · rw [List.append_nil]
    refine once.of_counts (fun _ => ?_) (fun _ => ?_) (fun _ => rfl) (fun _ => rfl)
    · rw [here]
      rfl
    · rw [here]
      rfl
  · obtain ⟨sends, recvs⟩ := (s.conns c).send_counts reply
    have handled := once.handled
    have served := once.served
    simp only [here, ServerPc.triggered, ServerPc.awaited] at handled served
    refine ⟨fun d => ?_, fun d => ?_⟩
    · have before := handled d
      rcases eq_or_ne d c with rfl | other
      · simpa [recvs, ServerPc.triggered] using before
      · simpa [s.setConn_of_ne other, ServerPc.triggered] using before
    · rcases eq_or_ne d c with rfl | other
      · simp only [ServerState.setConn_self, sends, served, ServerPc.awaited, if_true]
      · simp only [s.setConn_of_ne other, served, ServerPc.awaited, other.symm, if_false]

/-- From a matched state, a step stays matched exactly if it meets the condition. -/
theorem ExactlyOnce.next_iff [NeZero N] (once : ExactlyOnce trace s) {action : ServerAction N}
    (next : s.next action = some (s', events)) :
    ExactlyOnce (trace ++ events) s' ↔ onePerPoll trace s action := by
  cases action with
  | land c message =>
      simp only [ServerState.next] at next
      split at next
      next =>
        cases next
        exact iff_of_true (once.land c message) True.intro
      next => cases next
  | rdmaWrite addr rkey data =>
      cases next
      rw [List.append_nil]
      exact iff_of_true (once.of_counts (fun _ => rfl) (fun _ => rfl) (fun _ => rfl)
        (fun _ => rfl)) True.intro
  | complete c wc =>
      obtain ⟨conn, appears, done⟩ := Option.map_eq_some_iff.mp next
      cases done
      rw [List.append_nil]
      exact iff_of_true (once.complete appears) True.intro
  | poll n =>
      obtain ⟨moved, polled, done⟩ := Option.map_eq_some_iff.mp next
      cases done
      rw [List.append_nil]
      exact once.poll_iff polled
  | parse addr rkey => exact iff_of_true (once.parse next) True.intro
  | send => exact iff_of_true (once.send next) True.intro

end Steps

theorem exactlyOnce_start (N : ℕ) [NeZero N] : ExactlyOnce [] (ServerState.start N) :=
  ⟨fun _ => rfl, fun _ => rfl⟩

/-- In every run whose polls meet the condition every message has exactly one call of
`parse_data`, and such a run goes on so exactly with the steps that meet it. -/
theorem exactlyOnce_iff_of_run [NeZero N] {trace : List (ServerEvent N)} {s : ServerState N}
    (run : (serverLoop N).Run onePerPoll trace s) :
    ExactlyOnce trace s ∧ ∀ action s' events, s.next action = some (s', events) →
      (ExactlyOnce (trace ++ events) s' ↔ onePerPoll trace s action) := by
  have once : ExactlyOnce trace s := by
    induction run with
    | init => exact exactlyOnce_start N
    | step before met next ih => exact (ih.next_iff next).mpr met
  exact ⟨once, fun _ _ _ next => once.next_iff next⟩

/-- A set whose second message lands after the ACK's completion was polled. -/
theorem exactlyOnce_after_set : ∃ trace, ∃ s : ServerState numClients,
    (serverLoop numClients).Run onePerPoll trace s ∧
      parseCalls 0 trace = [askText.bytes, setText.bytes] ∧ ExactlyOnce trace s := by
  obtain ⟨trace, s, run, ends⟩ := Machine.Run.of_exec (serverLoop numClients) onePerPoll
    (ackPosted ++ [.complete 0 .send, .poll 1, .send, .land 0 setText, .complete 0 .recv,
      .poll 0, .poll 1, .parse 0 0])
    (fun trace _ => decide (parseCalls 0 trace = [askText.bytes, setText.bytes]))
    (by decide +kernel)
  exact ⟨trace, s, run, of_decide_eq_true ends, (exactlyOnce_iff_of_run run).1⟩

/-- The client acts on its ACK at once, and the wait of `send_ACK` takes the completion
of the ACK and the receive completion of the next message in one batch. -/
theorem request_swallowed : ¬ ∀ trace, ∀ s : ServerState numClients,
    (serverLoop numClients).Run always trace s → ExactlyOnce trace s := by
  intro handledOnce
  obtain ⟨trace, s, run, ends⟩ := Machine.Run.of_exec (serverLoop numClients) always
    (ackPosted ++ [.complete 0 .send, .land 0 setText, .complete 0 .recv, .poll 2, .send])
    (fun trace s => decide ((parseCalls 0 trace).length + s.pc.triggered 0 +
      (s.conns 0).recvs ≠ (arrivals 0 trace).length)) (by decide +kernel)
  exact of_decide_eq_true ends ((handledOnce trace s run).handled 0)

end RdmaWiki
