import RdmaWiki.System

/-!
The parts of a run of the system.

In a run that keeps the conditions of the two loops, every client is in a run of `clientLoop`
whose replies land in turn (`client_of_run`) and the server is in a run of `serverLoop` that
keeps its buffers (`server_of_run`). So what is known of the loops holds of the system.
-/

namespace RdmaWiki

open CText StepMachine

variable {N : ℕ}

/-! ## What one action does -/

section Actions

variable {s s' : SystemState N} {c d : Fin N} {events : List (SystemEvent N)}

theorem SystemState.nextClient_cases {action : ClientAction}
    (next : s.nextClient c action = some (s', events)) :
    ∃ cl own, (s.clients c).next action = some (cl, own) ∧ s' = s.putClient c cl [] ∧
      events = own.map (.client c) := by
  obtain ⟨⟨cl, own⟩, went, same⟩ := Option.map_eq_some_iff.mp next
  cases same
  exact ⟨cl, own, went, rfl, rfl⟩

theorem SystemState.step_cases (next : s.step c = some (s', events)) :
    ∃ cl own, ¬ ((s.clients c).stage = .reading ∧ (s.clients c).phase.wants = [] ∧ s.met c = none) ∧
      (s.clients c).step ((s.met c).getD s.server.mem) = some (cl, own) ∧
      s' = { s.putClient c cl (s.clients c).stage.requests with
        met := Function.update s.met c none } ∧ events = own.map (.client c) := by
  unfold SystemState.step at next
  simp only at next
  split at next
  next => cases next
  next ready =>
    obtain ⟨⟨cl, own⟩, went, same⟩ := Option.map_eq_some_iff.mp next
    cases same
    exact ⟨cl, own, ready, went, rfl, rfl⟩

theorem SystemState.transfer_cases (next : s.transfer c = some (s', events)) :
    ∃ mem, ((s.clients c).stage = .posted ∨ (s.clients c).stage = .reading) ∧ s.met c = none ∧
      (s.clients c).phase.transfer s.server.mem = some mem ∧
      s' = { s with
        server := { s.server with mem := mem }
        met := Function.update s.met c (some s.server.mem) } ∧ events = [] := by
  unfold SystemState.transfer at next
  simp only at next
  split at next
  next posted =>
    obtain ⟨mem, moved, same⟩ := Option.map_eq_some_iff.mp next
    cases same
    exact ⟨mem, posted.1, posted.2, moved, rfl, rfl⟩
  next => cases next

theorem SystemState.landReply_cases (next : s.landReply c = some (s', events)) :
    ∃ reply rest cl own, s.replies c = reply :: rest ∧
      (s.clients c).next (.land reply) = some (cl, own) ∧
      s' = { s.putClient c cl [] with replies := Function.update s.replies c rest } ∧
      events = own.map (.client c) := by
  unfold SystemState.landReply at next
  split at next
  next => cases next
  next reply rest queue =>
    obtain ⟨cl, own, went, rfl, rfl⟩ := SystemState.nextClient_cases next
    exact ⟨reply, rest, cl, own, queue, went, rfl, rfl⟩

theorem SystemState.nextServer_cases [NeZero N] {action : ServerAction N}
    (next : s.nextServer action = some (s', events)) :
    ∃ server shown, s.server.next action = some (server, shown) ∧
      s' = { s with server := server, replies := fun c => s.replies c ++ postedTo c shown } ∧
      events = shown.map .server := by
  obtain ⟨⟨server, shown⟩, went, same⟩ := Option.map_eq_some_iff.mp next
  cases same
  exact ⟨server, shown, went, rfl, rfl⟩

theorem SystemState.landRequest_cases [NeZero N] (next : s.landRequest c = some (s', events)) :
    ∃ request rest server shown, s.requests c = request :: rest ∧
      s.server.next (.land c (requestText request)) = some (server, shown) ∧
      s' = { s with
        server := server
        requests := Function.update s.requests c rest
        replies := fun c => s.replies c ++ postedTo c shown } ∧
      events = shown.map .server := by
  unfold SystemState.landRequest at next
  split at next
  next => cases next
  next request rest queue =>
    obtain ⟨server, shown, went, rfl, rfl⟩ := SystemState.nextServer_cases next
    exact ⟨request, rest, server, shown, queue, went, rfl, rfl⟩

@[simp] theorem SystemState.putClient_self (s : SystemState N) (c : Fin N) (cl : ClientState)
    (requests : List Bytes) : (s.putClient c cl requests).clients c = cl :=
  Function.update_self ..

@[simp] theorem SystemState.putClient_server (s : SystemState N) (c : Fin N) (cl : ClientState)
    (requests : List Bytes) : (s.putClient c cl requests).server = s.server := rfl

@[simp] theorem SystemState.putClient_replies (s : SystemState N) (c : Fin N) (cl : ClientState)
    (requests : List Bytes) : (s.putClient c cl requests).replies = s.replies := rfl

@[simp] theorem SystemState.putClient_met (s : SystemState N) (c : Fin N) (cl : ClientState)
    (requests : List Bytes) : (s.putClient c cl requests).met = s.met := rfl

@[simp] theorem SystemState.putClient_requests_self (s : SystemState N) (c : Fin N)
    (cl : ClientState) (requests : List Bytes) :
    (s.putClient c cl requests).requests c = s.requests c ++ requests :=
  Function.update_self ..

theorem SystemState.putClient_requests_of_ne (s : SystemState N) (other : d ≠ c)
    (cl : ClientState) (requests : List Bytes) :
    (s.putClient c cl requests).requests d = s.requests d :=
  Function.update_of_ne other ..

theorem SystemState.putClient_of_ne (s : SystemState N) (other : d ≠ c) (cl : ClientState)
    (requests : List Bytes) : (s.putClient c cl requests).clients d = s.clients d :=
  Function.update_of_ne other ..

end Actions

/-! ## What an action is for the parts -/

section Owners

/-- The action of the client `d`. -/
def SystemAction.onClient (s : SystemState N) (d : Fin N) : SystemAction N → Option ClientAction
  | .invoke c call => if c = d then some (.invoke call) else none
  | .step c => if c = d then some (.step ((s.met c).getD s.server.mem)) else none
  | .pollClient c n => if c = d then some (.poll n) else none
  | .completeClient c wc => if c = d then some (.complete wc) else none
  | .landReply c => if c = d then (s.replies c).head?.map .land else none
  | _ => none

/-- The action of the server. -/
def SystemAction.onServer (s : SystemState N) : SystemAction N → Option (ServerAction N)
  | .transfer c =>
    match (s.clients c).phase with
    | .setWrite _ value rkey addr => some (.rdmaWrite addr rkey value.bytes)
    | _ => none
  | .landRequest c => (s.requests c).head?.map fun request => .land c (requestText request)
  | .completeServer c wc => some (.complete c wc)
  | .pollServer n => some (.poll n)
  | .parse addr rkey => some (.parse addr rkey)
  | .send => some .send
  | _ => none

variable {s s' : SystemState N} {events : List (SystemEvent N)}

theorem onClient_of_put {c d : Fin N} {own : Option ClientAction} {action : ClientAction}
    {cl : ClientState} {shown : List ClientEvent} (on : own = if c = d then some action else none)
    (went : (s.clients c).next action = some (cl, shown))
    (put : s'.clients = Function.update s.clients c cl)
    (shows : clientTrace d events = clientTrace d (shown.map (.client c))) :
    (own = none ∧ s'.clients d = s.clients d ∧ clientTrace d events = []) ∨
      ∃ a, own = some a ∧ (s.clients d).next a = some (s'.clients d, clientTrace d events) := by
  rcases eq_or_ne c d with rfl | other
  · refine .inr ⟨action, on.trans (if_pos rfl), ?_⟩
    rw [shows, clientTrace_client, put, Function.update_self]
    exact went
  · refine .inl ⟨on.trans (if_neg other), ?_, ?_⟩
    · rw [put, Function.update_of_ne other.symm]
    · rw [shows, clientTrace_client_of_ne other]

variable [NeZero N]

theorem SystemState.next_onClient {action : SystemAction N}
    (next : s.next action = some (s', events)) (d : Fin N) :
    (action.onClient s d = none ∧ s'.clients d = s.clients d ∧ clientTrace d events = []) ∨
      ∃ own, action.onClient s d = some own ∧
        (s.clients d).next own = some (s'.clients d, clientTrace d events) := by
  cases action with
  | invoke c call =>
      obtain ⟨⟨t, shown⟩, put, same⟩ := Option.map_eq_some_iff.mp next
      cases same
      obtain ⟨cl, own, went, rfl, rfl⟩ := SystemState.nextClient_cases put
      exact onClient_of_put rfl went rfl (clientTrace_invoked ..)
  | step c =>
      obtain ⟨cl, own, -, went, rfl, rfl⟩ := SystemState.step_cases next
      have went : (s.clients c).next (.step ((s.met c).getD s.server.mem)) = some (cl, own) := went
      exact onClient_of_put rfl went rfl rfl
  | pollClient c n | completeClient c wc =>
      obtain ⟨cl, own, went, rfl, rfl⟩ := SystemState.nextClient_cases next
      exact onClient_of_put rfl went rfl rfl
  | transfer c =>
      obtain ⟨mem, -, -, -, rfl, rfl⟩ := SystemState.transfer_cases next
      exact .inl ⟨rfl, rfl, rfl⟩
  | landReply c =>
      obtain ⟨reply, rest, cl, own, queue, went, rfl, rfl⟩ := SystemState.landReply_cases next
      refine onClient_of_put ?_ went rfl rfl
      rw [SystemAction.onClient, queue]
      rfl
  | landRequest c =>
      obtain ⟨request, rest, server, shown, -, -, rfl, rfl⟩ := SystemState.landRequest_cases next
      exact .inl ⟨rfl, rfl, clientTrace_server ..⟩
  | completeServer c wc | pollServer n | parse addr rkey | send =>
      obtain ⟨server, shown, -, rfl, rfl⟩ := SystemState.nextServer_cases next
      exact .inl ⟨rfl, rfl, clientTrace_server ..⟩

theorem SystemState.next_onServer {action : SystemAction N}
    (next : s.next action = some (s', events)) :
    (s'.server = s.server ∧ serverTrace events = []) ∨
      ∃ own, action.onServer s = some own ∧
        s.server.next own = some (s'.server, serverTrace events) := by
  cases action with
  | invoke c call =>
      obtain ⟨⟨t, shown⟩, put, same⟩ := Option.map_eq_some_iff.mp next
      cases same
      obtain ⟨cl, own, -, rfl, rfl⟩ := SystemState.nextClient_cases put
      exact .inl ⟨rfl, serverTrace_client ..⟩
  | step c =>
      obtain ⟨cl, own, -, -, rfl, rfl⟩ := SystemState.step_cases next
      exact .inl ⟨rfl, serverTrace_client ..⟩
  | pollClient c n | completeClient c wc =>
      obtain ⟨cl, own, -, rfl, rfl⟩ := SystemState.nextClient_cases next
      exact .inl ⟨rfl, serverTrace_client ..⟩
  | transfer c =>
      obtain ⟨mem, -, -, moved, rfl, rfl⟩ := SystemState.transfer_cases next
      unfold Phase.transfer at moved
      split at moved
      next key value rkey addr phase =>
        cases moved
        refine .inr ⟨.rdmaWrite addr rkey value.bytes, ?_, rfl⟩
        rw [SystemAction.onServer, phase]
      next =>
        cases moved
        exact .inl ⟨rfl, rfl⟩
      next => cases moved
  | landReply c =>
      obtain ⟨reply, rest, cl, own, -, -, rfl, rfl⟩ := SystemState.landReply_cases next
      exact .inl ⟨rfl, serverTrace_client ..⟩
  | landRequest c =>
      obtain ⟨request, rest, server, shown, queue, went, rfl, rfl⟩ :=
        SystemState.landRequest_cases next
      refine .inr ⟨.land c (requestText request), ?_, ?_⟩
      · rw [SystemAction.onServer, queue]
        rfl
      · rw [serverTrace_server]
        exact went
  | completeServer c wc | pollServer n | parse addr rkey | send =>
      obtain ⟨server, shown, went, rfl, rfl⟩ := SystemState.nextServer_cases next
      refine .inr ⟨_, rfl, ?_⟩
      rw [serverTrace_server]
      exact went

end Owners

/-! ## The parts -/

/-- A client is as it was, or takes a step of its loop; all its replies land in turn. -/
def ClientPart (c : Fin N) (trace : List (SystemEvent N)) (s s' : SystemState N)
    (events : List (SystemEvent N)) : Prop :=
  (s'.clients c = s.clients c ∧ clientTrace c events = []) ∨
    ∃ action, inTurn (clientTrace c trace) (s.clients c) action ∧
      (s.clients c).next action = some (s'.clients c, clientTrace c events)

/-- The server is as it was, or takes a step of its loop that keeps its buffers. -/
def ServerPart [NeZero N] (trace : List (SystemEvent N)) (s s' : SystemState N)
    (events : List (SystemEvent N)) : Prop :=
  (s'.server = s.server ∧ serverTrace events = []) ∨
    ∃ action, bufferKept (serverTrace trace) s.server action ∧
      s.server.next action = some (s'.server, serverTrace events)

section Parts

variable {P : Call → Prop} {Q : Config N → Fin N → Prop} {trace events : List (SystemEvent N)}
  {s s' : SystemState N}

variable {action : SystemAction N}

/-- Replies land in turn where the loop of the system has them land so. -/
theorem inTurn_of_onClient {d : Fin N} {own : ClientAction} (met : orderly P Q trace s action)
    (on : action.onClient s d = some own) : inTurn (clientTrace d trace) (s.clients d) own := by
  cases action with
  | landReply c =>
      obtain ⟨rfl, lands⟩ := Option.ite_none_right_eq_some.mp on
      obtain ⟨reply, -, rfl⟩ := Option.map_eq_some_iff.mp lands
      exact met
  | invoke c | step c | pollClient c | completeClient c =>
      obtain ⟨-, same⟩ := Option.ite_none_right_eq_some.mp on
      cases same
      exact True.intro
  | transfer | landRequest | completeServer | pollServer | parse | send => cases on

/-- The server keeps its buffers where the loop of the system does. -/
theorem bufferKept_of_onServer {own : ServerAction N} (met : orderly P Q trace s action)
    (on : action.onServer s = some own) : bufferKept (serverTrace trace) s.server own := by
  cases action with
  | landRequest c =>
      obtain ⟨request, first, rfl⟩ := Option.map_eq_some_iff.mp on
      exact met request first
  | parse addr rkey =>
      cases on
      exact met.1
  | send =>
      cases on
      exact met
  | completeServer | pollServer =>
      cases on
      exact True.intro
  | transfer c =>
      simp only [SystemAction.onServer] at on
      split at on
      next =>
        cases on
        exact True.intro
      next => cases on
  | invoke | step | pollClient | completeClient | landReply => cases on

variable [NeZero N]

theorem SystemState.next_client (d : Fin N) (met : orderly P Q trace s action)
    (next : s.next action = some (s', events)) : ClientPart d trace s s' events := by
  rcases SystemState.next_onClient next d with ⟨-, same, silent⟩ | ⟨own, on, went⟩
  · exact .inl ⟨same, silent⟩
  · exact .inr ⟨own, inTurn_of_onClient met on, went⟩

theorem SystemState.next_server (met : orderly P Q trace s action)
    (next : s.next action = some (s', events)) : ServerPart trace s s' events := by
  rcases SystemState.next_onServer next with same | ⟨own, on, went⟩
  · exact .inl same
  · exact .inr ⟨own, bufferKept_of_onServer met on, went⟩

/-- In the system every client runs its loop. -/
theorem client_of_run (run : (system N).Run (orderly P Q) trace s) (c : Fin N) :
    clientLoop.Run inTurn (clientTrace c trace) (s.clients c) := by
  induction run with
  | init => exact .init
  | step before met next ih =>
      rw [clientTrace_append]
      rcases SystemState.next_client c met next with ⟨same, silent⟩ | ⟨action, turn, went⟩
      · rw [same, silent, List.append_nil]
        exact ih
      · exact .step ih turn went

/-- In the system the server runs its loop. -/
theorem server_of_run (run : (system N).Run (orderly P Q) trace s) :
    (serverLoop N).Run bufferKept (serverTrace trace) s.server := by
  induction run with
  | init => exact .init
  | step before met next ih =>
      rw [serverTrace_append]
      rcases SystemState.next_server met next with ⟨same, silent⟩ | ⟨action, kept, went⟩
      · rw [same, silent, List.append_nil]
        exact ih
      · exact .step ih kept went

end Parts

end RdmaWiki
