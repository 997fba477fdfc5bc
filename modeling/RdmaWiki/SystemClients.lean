import RdmaWiki.Lib.Simulation
import RdmaWiki.SystemParts
import RdmaWiki.Heap

/-!
The clients of the system on the message level.

A state of `protocol` represents one of the system (`StandsFor`): a client's step there is the
end of a phase here (`matched_finish`), or the moment of an RDMA operation (`matched_transfer`).
What a client posts, the replies that land at it, its completions and its polls make no difference
to the state that is represented.
-/

namespace RdmaWiki

open CText StepMachine

variable {N : ℕ}

/-! ## The steps of a client -/

section Clients

variable {phase next : Phase} {requests queue : List Bytes} {replies rest : List Reply}
  {mem mem' : Mem} {results : List (Call × Result)} {cl : Client}

/-- A step of a client does not depend on the requests that are not handled yet, nor on later
replies. -/
theorem Client.proceed_frame
    (went : Client.proceed ⟨phase, [], replies⟩ mem = some (⟨next, requests, rest⟩, mem', results))
    (queue : List Bytes) (more : List Reply) :
    Client.proceed ⟨phase, queue, replies ++ more⟩ mem =
      some (⟨next, queue ++ requests, rest ++ more⟩, mem', results) := by
  cases phase with
  | idle => cases replies <;> cases went
  | setAsk key value =>
      cases replies with
      | nil => cases went
      | cons reply others =>
          simp only [Client.proceed, List.cons_append, List.nil_append] at went ⊢
          split at went
          next refused =>
            cases went
            simp [refused]
          next granted =>
            rw [if_neg granted]
            split at went
            next eager =>
              cases went
              rw [if_pos eager]
            next large =>
              cases went
              rw [if_neg large]
  | setWrite key value rkey addr =>
      cases went
      rfl
  | getRead key size rkey addr =>
      cases went
      rfl
  | get key =>
      rcases replies with _ | ⟨_ | _ | v | n | _, others⟩ <;> cases went <;>
        simp [Client.proceed]
  | setRendezvous key value =>
      rcases replies with _ | ⟨_ | _ | _ | _ | _, others⟩ <;> cases went
      simp [Client.proceed]
  | getRendezvous key size =>
      rcases replies with _ | ⟨_ | _ | _ | _ | _, others⟩ <;> cases went
      simp [Client.proceed]
  | getAsk key =>
      cases replies <;> cases went
      simp [Client.proceed]
  | setEager key value | setFin key value =>
      cases replies <;> cases went
      simp [Client.proceed]
  | getEager key v | getFin key v =>
      cases replies <;> cases went
      simp [Client.proceed]

/-- What a step returns, by the phases before and after it. -/
def Phase.returns (phase : Phase) : Phase → List (Call × Result)
  | .idle =>
    match phase with
    | .setAsk key value => [(.kvSet key value, .refused)]
    | .setEager key value => [(.kvSet key value, .stored)]
    | .setFin key value => [(.kvSet key value, .stored)]
    | .getEager key v => [(.kvGet key, .value v)]
    | .getFin key v => [(.kvGet key, .value v)]
    | _ => []
  | _ => []

theorem Client.proceed_returns
    (went : Client.proceed ⟨phase, queue, replies⟩ mem = some (cl, mem', results)) :
    results = phase.returns cl.phase := by
  cases phase with
  | idle => cases replies <;> cases went
  | setAsk key value =>
      cases replies with
      | nil => cases went
      | cons reply others =>
          simp only [Client.proceed] at went
          split at went
          next =>
            cases went
            rfl
          next =>
            split at went <;>
            · cases went
              rfl
  | setWrite key value rkey addr | getRead key size rkey addr =>
      cases went
      rfl
  | get key | setRendezvous key value | getRendezvous key size =>
      rcases replies with _ | ⟨_ | _ | v | n | _, others⟩ <;> cases went <;> rfl
  | getAsk key | setEager key value | setFin key value | getEager key v | getFin key v =>
      cases replies <;> cases went
      rfl

theorem Phase.wants_of_transfer (moved : phase.transfer mem = some mem') : phase.wants = [] := by
  cases phase <;> first
    | rfl
    | cases moved

/-- The step after an RDMA operation. -/
theorem Phase.transfer_goes (moved : phase.transfer mem = some mem') :
    ∃ cl, Client.proceed ⟨phase, queue, replies⟩ mem = some (cl, mem', []) := by
  cases phase with
  | setWrite key value rkey addr =>
      cases moved
      exact ⟨_, rfl⟩
  | getRead key size rkey addr =>
      cases moved
      exact ⟨_, rfl⟩
  | _ => cases moved

/-- A client at rest is in no call. -/
theorem Phase.enter_rest (rests : phase.enter requests = .rest) : phase = .idle := by
  cases requests with
  | nil => cases phase <;> cases rests; rfl
  | cons => cases rests

end Clients

/-! ## Where a client is -/

section Places

variable {s s' : ClientState} {action : ClientAction} {trace events : List ClientEvent}
  {guard : Guard ClientState ClientAction ClientEvent}

theorem idle_of_rest (run : clientLoop.Run guard trace s) (rests : s.stage = .rest) :
    s.phase = .idle := by
  refine run.invariant (fun _ s => s.stage = .rest → s.phase = .idle) (fun _ => rfl) ?_ rests
  intro trace s action s' events _ before _ next rests
  cases action with
  | invoke call =>
      simp only [clientLoop, ClientState.next, ClientState.invoke] at next
      split at next
      next =>
        cases next
        exact Phase.enter_rest rests
      next => cases next
  | step mem =>
      change s.step mem = some (s', events) at next
      unfold ClientState.step at next
      split at next
      next => cases next; cases rests
      next => cases next; cases rests
      next here =>
        rcases ClientState.finish_cases next with
          ⟨-, cl, mem', results, -, rfl, -⟩ | ⟨-, looked, -, ⟨-, rfl, -⟩ |
            ⟨reply, cl, mem', results, -, -, rfl, -⟩⟩
        · exact Phase.enter_rest rests
        · cases rests
        · exact Phase.enter_rest rests
      next => cases next
  | land reply =>
      simp only [clientLoop, ClientState.next] at next
      split at next
      next =>
        obtain ⟨owed, -, done⟩ := Option.map_eq_some_iff.mp next
        cases done
        exact before rests
      next => cases next
  | complete wc =>
      obtain ⟨conn, -, done⟩ := Option.map_eq_some_iff.mp next
      cases done
      exact before rests
  | poll n =>
      obtain ⟨-, ⟨rfl, -⟩ | ⟨batch, conn, -, -, -, rfl⟩⟩ := ClientState.poll_cases next
      · exact before rests
      · revert rests
        simp only
        split <;> exact ClientStage.noConfusion

/-- The client has posted an RDMA operation and has not gone on yet. -/
def ClientState.Transfers (s : ClientState) : Prop :=
  (s.stage = .posted ∨ s.stage = .reading) ∧ ∀ mem, (s.phase.transfer mem).isSome

/-- It goes on by its own step only. -/
theorem ClientState.Transfers.next (transfers : s.Transfers)
    (next : s.next action = some (s', events)) (other : ∀ mem, action ≠ .step mem) :
    s'.Transfers ∧ s'.client = s.client ∨ ∃ reply, action = .land reply := by
  obtain ⟨here, moves⟩ := transfers
  have wants : s.phase.wants = [] := by
    obtain ⟨mem', moved⟩ := Option.isSome_iff_exists.mp (moves emptyHeap)
    exact Phase.wants_of_transfer moved
  cases action with
  | invoke call =>
      simp only [ClientState.next, ClientState.invoke] at next
      split at next
      next free => rcases here with here | here <;> rw [free.1] at here <;> cases here
      next => cases next
  | step mem => exact absurd rfl (other mem)
  | land reply => exact .inr ⟨reply, rfl⟩
  | complete wc =>
      obtain ⟨conn, -, done⟩ := Option.map_eq_some_iff.mp next
      cases done
      exact .inl ⟨⟨here, moves⟩, rfl⟩
  | poll n =>
      obtain ⟨waits, ⟨rfl, -⟩ | ⟨batch, conn, -, -, -, rfl⟩⟩ := ClientState.poll_cases next
      · exact .inl ⟨⟨here, moves⟩, rfl⟩
      · have posted : s.stage = .posted := by
          rcases here with here | here
          · exact here
          · rcases waits with waits | waits <;> rw [waits] at here <;> cases here
        refine .inl ⟨⟨.inr ?_, moves⟩, ?_⟩
        · simp [wants]
        · simp [ClientState.client, wants, posted, ClientStage.requests]

theorem Phase.transfer_isSome {phase : Phase} {mem mem' : Mem}
    (moved : phase.transfer mem = some mem') (other : Mem) : (phase.transfer other).isSome := by
  cases phase <;> first
    | rfl
    | cases moved

/-- Nothing lands at a client that transfers. -/
theorem ClientState.Transfers.quiet (transfers : s.Transfers) (ready : s.InTurn) :
    s.client = ⟨s.phase, [], []⟩ ∧ ∀ reply, s.next (.land reply) = none := by
  obtain ⟨here, moves⟩ := transfers
  obtain ⟨mem', moved⟩ := Option.isSome_iff_exists.mp (moves emptyHeap)
  have wants := Phase.wants_of_transfer moved
  have asked : s.phase.asks s.stage = [] := by
    rcases here with here | here <;> rw [here, Phase.asks, wants]
  obtain ⟨level, owed⟩ := ready.quiet asked
  refine ⟨?_, fun reply => ?_⟩
  · have ahead : s.landed.drop s.turn = [] := List.drop_of_length_le level.le
    rw [ClientState.client, ahead]
    rcases here with here | here <;> rw [here] <;> rfl
  · simp [ClientState.next, owed, answer]

end Places

section Systems

variable {s : SystemState N}

theorem transfers_put {c : Fin N} {action : ClientAction} {cl : ClientState}
    {own : List ClientEvent} (ready : ∀ c, (s.clients c).InTurn)
    (before : ∀ c mem, s.met c = some mem → (s.clients c).Transfers)
    (went : (s.clients c).next action = some (cl, own)) (other : ∀ mem, action ≠ .step mem)
    (d : Fin N) (mem : Mem) (met : s.met d = some mem) :
    (Function.update s.clients c cl d).Transfers := by
  rcases eq_or_ne d c with rfl | apart
  · rw [Function.update_self]
    rcases (before d mem met).next went other with ⟨after, -⟩ | ⟨reply, rfl⟩
    · exact after
    · rw [((before d mem met).quiet (ready d)).2] at went
      cases went
  · rw [Function.update_of_ne apart]
    exact before d mem met

end Systems

section Systems

variable [NeZero N] {P : Call → Prop} {Q : Config N → Fin N → Prop}
  {trace events : List (SystemEvent N)} {s s' : SystemState N}

theorem inTurn_client (run : (system N).Run (orderly P Q) trace s) (c : Fin N) :
    (s.clients c).InTurn :=
  (inTurn_of_run (client_of_run run c)).1

/-- An RDMA operation that has taken place is one that the client has posted last. -/
theorem transfers_of_run (run : (system N).Run (orderly P Q) trace s) :
    ∀ c mem, s.met c = some mem → (s.clients c).Transfers := by
  refine run.invariant (fun _ s => ∀ c mem, s.met c = some mem → (s.clients c).Transfers)
    (fun _ _ none => by cases none) ?_
  intro trace s action s' events run before met next
  have ready := inTurn_client run
  cases action with
  | invoke c call =>
      obtain ⟨⟨t, shown⟩, put, same⟩ := Option.map_eq_some_iff.mp next
      cases same
      obtain ⟨cl, own, went, rfl, rfl⟩ := SystemState.nextClient_cases put
      exact transfers_put ready before went fun _ => ClientAction.noConfusion
  | step c =>
      obtain ⟨cl, own, -, -, rfl, rfl⟩ := SystemState.step_cases next
      intro d mem met
      rcases eq_or_ne d c with rfl | apart
      · simp at met
      · simp only [Function.update_of_ne apart] at met
        rw [show ({ s.putClient c cl (s.clients c).stage.requests with
          met := Function.update s.met c none } : SystemState N).clients d = s.clients d from
            Function.update_of_ne apart ..]
        exact before d mem met
  | pollClient c n =>
      obtain ⟨cl, own, went, rfl, rfl⟩ := SystemState.nextClient_cases next
      exact transfers_put ready before went fun _ => ClientAction.noConfusion
  | completeClient c wc =>
      obtain ⟨cl, own, went, rfl, rfl⟩ := SystemState.nextClient_cases next
      exact transfers_put ready before went fun _ => ClientAction.noConfusion
  | transfer c =>
      obtain ⟨mem', here, -, moved, rfl, rfl⟩ := SystemState.transfer_cases next
      intro d mem met
      rcases eq_or_ne d c with rfl | apart
      · exact ⟨here, fun mem => Phase.transfer_isSome moved mem⟩
      · simp only [Function.update_of_ne apart] at met
        exact before d mem met
  | landReply c =>
      obtain ⟨reply, rest, cl, own, -, went, rfl, rfl⟩ := SystemState.landReply_cases next
      exact transfers_put ready before went fun _ => ClientAction.noConfusion
  | landRequest c =>
      obtain ⟨request, rest, server, shown, -, -, rfl, rfl⟩ := SystemState.landRequest_cases next
      exact before
  | completeServer c wc | pollServer n | parse addr rkey | send =>
      obtain ⟨server, shown, -, rfl, rfl⟩ := SystemState.nextServer_cases next
      exact before

end Systems

/-! ## The state that is represented -/

/-- The client of the message level with requests before its own: one on which the server has
crashed stays in its queue. -/
def Client.behind (left : List Bytes) (cl : Client) : Client :=
  { cl with requests := left ++ cl.requests }

/-- A state of the protocol represents one of the system. -/
structure StandsFor (trace : List (SystemEvent N)) (s : SystemState N) (cfg : Config N) :
    Prop where
  up : cfg.up = (s.config trace).up
  db : cfg.db = s.server.db
  mem : cfg.mem = s.server.mem
  client : ∀ c, ∃ left, (s.server.pc ≠ .crashed → left = []) ∧
    cfg.clients c = ((s.config trace).clients c).behind left

section StandsFor

variable {trace events : List (SystemEvent N)} {s s' : SystemState N} {cfg : Config N}

/-- While the server is up there is one such state. -/
theorem StandsFor.config_eq (rep : StandsFor trace s cfg) (up : s.server.pc ≠ .crashed) :
    cfg = s.config trace := by
  have clients : cfg.clients = (s.config trace).clients := by
    funext c
    obtain ⟨left, none, same⟩ := rep.client c
    rw [none up] at same
    exact same
  cases cfg
  cases clients
  cases rep.up
  cases rep.db
  cases rep.mem
  rfl

/-- A step that makes no difference to the message level. -/
theorem StandsFor.same (rep : StandsFor trace s cfg)
    (crash : s'.server.pc = .crashed ↔ s.server.pc = .crashed) (db : s'.server.db = s.server.db)
    (mem : s'.server.mem = s.server.mem)
    (same : ∀ c, (s'.config (trace ++ events)).clients c = (s.config trace).clients c) :
    StandsFor (trace ++ events) s' cfg where
  up := by
    rw [rep.up]
    simp [SystemState.config, crash]
  db := rep.db.trans db.symm
  mem := rep.mem.trans mem.symm
  client c := by
    obtain ⟨left, none, client⟩ := rep.client c
    refine ⟨left, fun up => none fun crashed => up (crash.mpr crashed), ?_⟩
    rw [client, same c]

/-- What a step of `c` leaves alone. -/
def SystemState.SameBut (s s' : SystemState N) (c : Fin N) : Prop :=
  ∀ d, d ≠ c → s'.clients d = s.clients d ∧ s'.met d = s.met d ∧
    s'.requests d = s.requests d ∧ s'.replies d = s.replies d

theorem SystemState.sameBut_put (s : SystemState N) (c : Fin N) (cl : ClientState)
    (requests : List Bytes) : s.SameBut (s.putClient c cl requests) c := fun _ other =>
  ⟨s.putClient_of_ne other .., rfl, s.putClient_requests_of_ne other .., rfl⟩

theorem SystemState.client_congr {d : Fin N}
    (clients : (s'.clients d).client = (s.clients d).client)
    (met : s'.met d = s.met d) : s'.client d = s.client d := by
  rw [SystemState.client, SystemState.client, clients, met]

theorem SystemState.client_of_not_met {c : Fin N} (none : s.met c = none) :
    s.client c = (s.clients c).client := by
  rw [SystemState.client, none]

theorem SystemState.SameBut.config {c d : Fin N} (but : s.SameBut s' c) (other : d ≠ c)
    (quiet : serverTrace events = []) (todo : s'.server.pc.todo = s.server.pc.todo) :
    (s'.config (trace ++ events)).clients d = (s.config trace).clients d := by
  obtain ⟨clients, met, requests, replies⟩ := but d other
  have client := SystemState.client_congr (congrArg ClientState.client clients) met
  simp [SystemState.config, client, quiet, todo, requests, replies]

/-- A step of `c` on both levels. -/
theorem StandsFor.put (rep : StandsFor trace s cfg) {c : Fin N} {cl : Client}
    (but : s.SameBut s' c) (quiet : serverTrace events = [])
    (pc : s'.server.pc = s.server.pc) (db : s'.server.db = s.server.db)
    (own : ∀ left, cfg.clients c = ((s.config trace).clients c).behind left →
      cl = ((s'.config (trace ++ events)).clients c).behind left) :
    StandsFor (trace ++ events) s'
      { cfg with clients := Function.update cfg.clients c cl, mem := s'.server.mem } where
  up := by
    simp [rep.up, SystemState.config, pc]
  db := rep.db.trans db.symm
  mem := rfl
  client d := by
    rw [pc]
    obtain ⟨left, none, client⟩ := rep.client d
    refine ⟨left, none, ?_⟩
    change Function.update cfg.clients c cl d = _
    rcases eq_or_ne d c with rfl | other
    · rw [Function.update_self]
      exact own left client
    · rw [Function.update_of_ne other, client, but.config other quiet (by rw [pc])]

/-- A step that a client takes on the message level, too. -/
theorem StandsFor.goes (rep : StandsFor trace s cfg) {c : Fin N} {phase : Phase}
    {replies : List Reply} {cl : Client} {results : List (Call × Result)}
    (but : s.SameBut s' c) (quiet : serverTrace events = [])
    (pc : s'.server.pc = s.server.pc) (db : s'.server.db = s.server.db)
    (requests : s'.requests c = s.requests c) (ways : s'.replies c = s.replies c)
    (before : s.client c = ⟨phase, [], replies⟩)
    (went : Client.proceed ⟨phase, [], replies⟩ s.server.mem = some (cl, s'.server.mem, results))
    (after : s'.client c = cl) :
    ∃ cfg', cfg.next (.proceed c) =
        some (cfg', results.map fun (call, result) => .res c call result) ∧
      StandsFor (trace ++ events) s' cfg' := by
  obtain ⟨left, -, client⟩ := rep.client c
  obtain ⟨next, own, rest⟩ := cl
  have shape : ∀ left, cfg.clients c = ((s.config trace).clients c).behind left →
      cfg.clients c = ⟨phase, left ++ ((unread c (serverTrace trace)).map onWire ++ s.requests c),
        replies ++ (s.replies c ++ sentTo c s.server.pc.todo)⟩ := fun left client => by
    simp [client, SystemState.config, Client.behind, before]
  have frame := fun left => Client.proceed_frame went
    (left ++ ((unread c (serverTrace trace)).map onWire ++ s.requests c))
    (s.replies c ++ sentTo c s.server.pc.todo)
  have goes := frame left
  rw [← shape left client, ← rep.mem] at goes
  refine ⟨_, by rw [Config.next, goes], ?_⟩
  refine rep.put but quiet pc db fun left' client' => ?_
  have same := frame left'
  rw [← shape left' client', ← rep.mem, goes] at same
  rw [(Prod.mk.inj (Option.some.inj same)).1]
  simp [SystemState.config, Client.behind, after, quiet, requests, ways, pc]

/-! ## The steps of the clients -/

/-- A step of `c` that hands on what it has already counted as sent or received. -/
theorem StandsFor.stutter (rep : StandsFor trace s cfg) {c : Fin N}
    (server : s'.server = s.server) (quiet : serverTrace events = []) (but : s.SameBut s' c)
    (phase : (s'.client c).phase = (s.client c).phase)
    (requests : s'.requests c ++ (s'.client c).requests = s.requests c ++ (s.client c).requests)
    (replies : (s'.client c).replies ++ s'.replies c = (s.client c).replies ++ s.replies c) :
    StandsFor (trace ++ events) s' cfg := by
  refine rep.same (by rw [server]) (by rw [server]) (by rw [server]) fun d => ?_
  rcases eq_or_ne d c with rfl | other
  · have ahead : ∀ more, (s'.client d).replies ++ (s'.replies d ++ more) =
        (s.client d).replies ++ (s.replies d ++ more) := fun more => by
      rw [← List.append_assoc, replies, List.append_assoc]
    simp only [SystemState.config, serverTrace_append, quiet, List.append_nil, server, phase,
      List.append_assoc, requests, ahead]
  · exact but.config other quiet (by rw [server])

end StandsFor

/-- A step of the system is matched by a run of the protocol that shows the same. -/
def Matched (P : Call → Prop) (Q : Config N → Fin N → Prop) (trace : List (SystemEvent N))
    (s' : SystemState N) (events : List (SystemEvent N)) (shown : List (Event N)) : Prop :=
  ∃ shown' cfg', (protocol N).Run (asking P Q) (shown ++ shown') cfg' ∧
    observe Event.visible shown' = observe SystemEvent.visible events ∧
    StandsFor (trace ++ events) s' cfg'

section Matched

variable {P : Call → Prop} {Q : Config N → Fin N → Prop} {trace events : List (SystemEvent N)}
  {s s' : SystemState N} {cfg : Config N} {shown : List (Event N)}

theorem matched_stutter (run : (protocol N).Run (asking P Q) shown cfg)
    (unseen : observe SystemEvent.visible events = [])
    (rep : StandsFor (trace ++ events) s' cfg) : Matched P Q trace s' events shown :=
  Machine.Run.stutter (R := fun trace s _ cfg => StandsFor trace s cfg) run unseen rep

theorem matched_step (run : (protocol N).Run (asking P Q) shown cfg) {action : Action N}
    {shown' : List (Event N)} {cfg' : Config N} (met : asking P Q shown cfg action)
    (next : cfg.next action = some (cfg', shown'))
    (same : observe Event.visible shown' = observe SystemEvent.visible events)
    (rep : StandsFor (trace ++ events) s' cfg') : Matched P Q trace s' events shown :=
  ⟨shown', cfg', .step run met next, same, rep⟩

theorem observe_returned (c : Fin N) (results : List (Call × Result)) :
    observe SystemEvent.visible
        ((results.map fun (call, result) => ClientEvent.returned call result).map (.client c)) =
      observe Event.visible (results.map fun (call, result) => Event.res c call result) := by
  simp [observe, List.filterMap_map, SystemEvent.visible, Event.visible, Function.comp_def]

theorem observe_looked (c : Fin N) {looked : List ClientEvent} {cl : ClientState}
    {reply : Option Reply} (shape : looked = if cl.phase.looks then
      [ClientEvent.read cl.phase reply cl.conn.buf] else []) :
    observe SystemEvent.visible (looked.map (SystemEvent.client c)) = [] := by
  rw [shape]
  split <;> rfl

/-- What the end of a phase shows. -/
theorem finish_shows {s s' : ClientState} {mem mem' : Mem} {trace own : List ClientEvent}
    {results : List (Call × Result)} (run : clientLoop.Run inTurn trace s)
    (here : s.stage = .reading) (went : s.finish mem = some (s', own))
    (goes : s.client.proceed mem = some (s'.client, mem', results)) (c : Fin N) :
    observe SystemEvent.visible (own.map (SystemEvent.client c)) =
      observe Event.visible (results.map fun (call, result) => Event.res c call result) := by
  have returns := Client.proceed_returns goes
  rcases ClientState.finish_cases went with
    ⟨-, cl, mem₁, results₁, went₁, rfl, rfl⟩ | ⟨-, looked, shape, ended⟩
  · rw [returns, Client.proceed_returns went₁]
    exact observe_returned ..
  · rcases ended with ⟨-, rfl, -⟩ | ⟨reply, cl, mem₁, results₁, -, went₁, rfl, rfl⟩
    · have next : clientLoop.next s (.step mem) = some ({ s with stage := .lost }, own) := by
        simp only [clientLoop, ClientState.next, ClientState.step, here]
        exact went
      have turn : inTurn trace s (.step mem) := True.intro
      exact absurd rfl (inTurn_of_run (.step run turn next)).1.notLost
    · rw [returns, Client.proceed_returns went₁, List.map_append, observe_append,
        observe_looked c shape, List.nil_append]
      exact observe_returned ..

/-- A step of a client inside a wait. -/
theorem matched_wait (run' : (protocol N).Run (asking P Q) shown cfg)
    (rep : StandsFor trace s cfg) {c : Fin N} {cl : ClientState} {own : List ClientEvent}
    (same : cl.client = (s.clients c).client)
    (unseen : observe SystemEvent.visible (own.map (SystemEvent.client c)) = []) :
    Matched P Q trace (s.putClient c cl []) (own.map (.client c)) shown := by
  have after : (s.putClient c cl []).client c = s.client c := by
    refine SystemState.client_congr ?_ (congrFun (s.putClient_met c cl []) c)
    rw [SystemState.putClient_self, same]
  refine matched_stutter run' unseen (rep.stutter rfl (serverTrace_client ..)
    (s.sameBut_put c cl []) ?_ ?_ ?_)
  · rw [after]
  · rw [after, SystemState.putClient_requests_self, List.append_nil]
  · rw [after, SystemState.putClient_replies]

variable [NeZero N]

/-- A client that starts a call. -/
theorem matched_invoke (run : (system N).Run (orderly P Q) trace s)
    (run' : (protocol N).Run (asking P Q) shown cfg) (rep : StandsFor trace s cfg) {c : Fin N}
    {call : Call} (met : P call) (next : s.next (.invoke c call) = some (s', events)) :
    Matched P Q trace s' events shown := by
  obtain ⟨⟨t, own⟩, put, same⟩ := Option.map_eq_some_iff.mp next
  cases same
  obtain ⟨cl, own, went, moved, rfl⟩ := SystemState.nextClient_cases put
  simp only [ClientState.next, ClientState.invoke] at went
  split at went
  next free =>
    cases went
    have idle := idle_of_rest (client_of_run run c) free.1
    have notMet : s.met c = none := by
      by_contra some
      obtain ⟨mem, some⟩ := Option.ne_none_iff_exists'.mp some
      rcases (transfers_of_run run c mem some).1 with here | here <;> rw [here] at free <;>
        cases free.1
    have before : s.client c = ⟨.idle, [], (s.clients c).landed.drop (s.clients c).turn⟩ := by
      rw [SystemState.client_of_not_met notMet, ClientState.client, idle, free.1]
      rfl
    have after : s'.client c = { Client.invoke ⟨.idle, [], []⟩ call with
        replies := (s.clients c).landed.drop (s.clients c).turn } := by
      rw [moved, SystemState.client_of_not_met (by exact notMet), SystemState.putClient_self]
      cases call <;> rfl
    have asks : cfg.next (.invoke c call) = some ({ cfg with
        clients := Function.update cfg.clients c ((cfg.clients c).invoke call) },
        [.inv c call]) := by
      obtain ⟨left, -, client⟩ := rep.client c
      refine if_pos ⟨?_, free.2⟩
      simp [client, SystemState.config, Client.behind, before]
    have met' : asking P Q shown cfg (.invoke c call) := met
    refine matched_step run' met' asks rfl ?_
    have kept : StandsFor (trace ++ [.invoked c call]) s' { cfg with
        clients := Function.update cfg.clients c ((cfg.clients c).invoke call)
        mem := s'.server.mem } := by
      refine rep.put (c := c) ?_ rfl ?_ ?_ fun left client => ?_
      · rw [moved]
        exact s.sameBut_put _ _ _
      · rw [moved, SystemState.putClient_server]
      · rw [moved, SystemState.putClient_server]
      · rw [client, Client.behind, Client.behind, SystemState.config, SystemState.config]
        simp only [before, after]
        rw [moved]
        cases call <;> simp [Client.invoke, serverTrace]
    rw [moved, SystemState.putClient_server, ← rep.mem] at kept
    rw [moved]
    exact kept
  next => cases went

theorem not_met_of_stage (run : (system N).Run (orderly P Q) trace s) {c : Fin N}
    (elsewhere : (s.clients c).stage ≠ .posted ∧ (s.clients c).stage ≠ .reading) :
    s.met c = none := by
  by_contra some
  obtain ⟨mem, some⟩ := Option.ne_none_iff_exists'.mp some
  rcases (transfers_of_run run c mem some).1 with here | here
  · exact elsewhere.1 here
  · exact elsewhere.2 here

theorem wants_of_met (run : (system N).Run (orderly P Q) trace s) {c : Fin N} {mem : Mem}
    (met : s.met c = some mem) : (s.clients c).phase.wants = [] := by
  obtain ⟨mem', moved⟩ := Option.isSome_iff_exists.mp ((transfers_of_run run c mem met).2 mem)
  exact Phase.wants_of_transfer moved

/-- A client that posts what it has formatted. -/
theorem matched_post (run : (system N).Run (orderly P Q) trace s)
    (run' : (protocol N).Run (asking P Q) shown cfg) (rep : StandsFor trace s cfg) {c : Fin N}
    {cl : ClientState} (elsewhere : (s.clients c).stage ≠ .posted ∧ (s.clients c).stage ≠ .reading)
    (same : cl.client = { (s.clients c).client with requests := [] })
    (moved : s' = { s.putClient c cl (s.clients c).stage.requests with
      met := Function.update s.met c none }) :
    Matched P Q trace s' [] shown := by
  have before := SystemState.client_of_not_met (not_met_of_stage run elsewhere)
  have after : s'.client c = { (s.clients c).client with requests := [] } := by
    rw [moved, SystemState.client_of_not_met (Function.update_self ..)]
    change (Function.update s.clients c cl c).client = _
    rw [Function.update_self, same]
  have way : s'.requests c = s.requests c ++ (s.clients c).stage.requests := by
    rw [moved]
    exact s.putClient_requests_self c cl _
  refine matched_stutter run' rfl (rep.stutter (c := c) ?_ rfl ?_ ?_ ?_ ?_)
  · rw [moved]
    rfl
  · intro d other
    rw [moved]
    obtain ⟨clients, -, requests, replies⟩ :=
      s.sameBut_put c cl (s.clients c).stage.requests d other
    exact ⟨clients, Function.update_of_ne other .., requests, replies⟩
  · rw [after, before]
  · rw [after, before, way]
    simp [ClientState.client]
  · rw [after, before, moved]
    rfl

/-- A client at the end of a phase. After an RDMA operation its step is over on the message
level already. -/
theorem matched_finish (run : (system N).Run (orderly P Q) trace s)
    (run' : (protocol N).Run (asking P Q) shown cfg) (rep : StandsFor trace s cfg) {c : Fin N}
    {cl : ClientState} {own : List ClientEvent}
    (ready : ¬ ((s.clients c).stage = .reading ∧ (s.clients c).phase.wants = [] ∧ s.met c = none))
    (here : (s.clients c).stage = .reading)
    (went : (s.clients c).finish ((s.met c).getD s.server.mem) = some (cl, own))
    (moved : s' = { s.putClient c cl (s.clients c).stage.requests with
      met := Function.update s.met c none }) :
    Matched P Q trace s' (own.map (.client c)) shown := by
  obtain ⟨mem', results, goes⟩ := proceeds_of_run (client_of_run run c) here went
  have shows := finish_shows (client_of_run run c) here went goes c
  have after : s'.client c = cl.client := by
    rw [moved, SystemState.client_of_not_met (Function.update_self ..)]
    change (Function.update s.clients c cl c).client = _
    rw [Function.update_self]
  have but : s.SameBut s' c := by
    intro d other
    rw [moved]
    obtain ⟨clients, -, requests, replies⟩ :=
      s.sameBut_put c cl (s.clients c).stage.requests d other
    exact ⟨clients, Function.update_of_ne other .., requests, replies⟩
  have way : s'.requests c = s.requests c := by
    rw [moved]
    change Function.update s.requests c _ c = _
    rw [Function.update_self, here]
    exact List.append_nil _
  have server : s'.server = s.server := by
    rw [moved]
    rfl
  have replies : s'.replies = s.replies := by
    rw [moved]
    rfl
  cases met : s.met c with
  | some mem =>
      rw [met, Option.getD_some] at goes
      have before : s.client c = s'.client c := by
        rw [after, SystemState.client, met]
        simp only [goes]
      have silent : results = [] := by
        obtain ⟨mem₁, kept⟩ :=
          Option.isSome_iff_exists.mp ((transfers_of_run run c mem met).2 mem)
        obtain ⟨cl₁, goes₁⟩ := Phase.transfer_goes kept
        exact (Prod.mk.inj (Prod.mk.inj (Option.some.inj (goes.symm.trans goes₁))).2).2
      rw [silent] at shows
      refine matched_stutter run' shows (rep.stutter server (serverTrace_client ..) but ?_ ?_ ?_)
      · rw [before]
      · rw [before, way]
      · rw [before, replies]
  | none =>
      have wants : (s.clients c).phase.wants ≠ [] := fun none => ready ⟨here, none, met⟩
      rw [met, Option.getD_none] at goes
      have whole : mem' = s'.server.mem := by
        rw [server]
        rcases Client.proceed_mem goes with same | ⟨key, value, rkey, addr, phase, -⟩
        · exact same
        · change (s.clients c).phase = _ at phase
          rw [phase] at wants
          exact absurd rfl wants
      have shape : (s.clients c).client =
          ⟨(s.clients c).phase, [], (s.clients c).landed.drop (s.clients c).turn⟩ := by
        rw [ClientState.client, here]
        rfl
      rw [whole, shape] at goes
      have before := (SystemState.client_of_not_met met).trans shape
      obtain ⟨cfg', next, rep'⟩ := rep.goes but (serverTrace_client c own) (by rw [server])
        (by rw [server]) way (by rw [replies]) before goes after
      have free : asking P Q shown cfg (.proceed c) := True.intro
      exact matched_step run' free next shows.symm rep'

/-- An RDMA operation that takes place. -/
theorem matched_transfer (run : (system N).Run (orderly P Q) trace s)
    (run' : (protocol N).Run (asking P Q) shown cfg) (rep : StandsFor trace s cfg) {c : Fin N}
    (next : s.transfer c = some (s', events)) : Matched P Q trace s' events shown := by
  obtain ⟨mem, here, notMet, moved, rfl, rfl⟩ := SystemState.transfer_cases next
  have transfers : (s.clients c).Transfers := ⟨here, fun mem => Phase.transfer_isSome moved mem⟩
  have shape := (transfers.quiet (inTurn_client run c)).1
  obtain ⟨cl, goes⟩ : ∃ cl, Client.proceed ⟨(s.clients c).phase, [], []⟩ s.server.mem =
      some (cl, mem, []) := Phase.transfer_goes moved
  have but : s.SameBut { s with
      server := { s.server with mem := mem }
      met := Function.update s.met c (some s.server.mem) } c :=
    fun d other => ⟨rfl, Function.update_of_ne other .., rfl, rfl⟩
  have before := (SystemState.client_of_not_met notMet).trans shape
  have after : ({ s with
      server := { s.server with mem := mem }
      met := Function.update s.met c (some s.server.mem) } : SystemState N).client c = cl := by
    rw [SystemState.client]
    simp only [Function.update_self, shape, goes]
  have quiet : serverTrace ([] : List (SystemEvent N)) = [] := rfl
  obtain ⟨cfg', next, rep'⟩ := rep.goes but quiet rfl rfl rfl rfl before goes after
  have free : asking P Q shown cfg (.proceed c) := True.intro
  exact matched_step run' free next rfl rep'

/-- A reply that lands. -/
theorem matched_landReply (run : (system N).Run (orderly P Q) trace s)
    (run' : (protocol N).Run (asking P Q) shown cfg) (rep : StandsFor trace s cfg) {c : Fin N}
    (next : s.landReply c = some (s', events)) : Matched P Q trace s' events shown := by
  obtain ⟨reply, rest, cl, own, queue, went, moved, rfl⟩ := SystemState.landReply_cases next
  have ready := inTurn_client run c
  have notMet : s.met c = none := by
    by_contra some
    obtain ⟨mem, some⟩ := Option.ne_none_iff_exists'.mp some
    rw [((transfers_of_run run c mem some).quiet ready).2] at went
    cases went
  simp only [ClientState.next] at went
  split at went
  next =>
    obtain ⟨owed, -, done⟩ := Option.map_eq_some_iff.mp went
    cases done
    have before := SystemState.client_of_not_met notMet
    have after : s'.client c = { (s.clients c).client with
        replies := (s.clients c).client.replies ++ [reply] } := by
      rw [moved, SystemState.client_of_not_met (by exact notMet)]
      change (Function.update s.clients c _ c).client = _
      rw [Function.update_self]
      simp [ClientState.client, List.drop_append_of_le_length ready.turns]
    refine matched_stutter run' rfl (rep.stutter (c := c) ?_ rfl ?_ ?_ ?_ ?_)
    · rw [moved]
      rfl
    · intro d other
      rw [moved]
      obtain ⟨clients, met, requests, -⟩ := s.sameBut_put c _ [] d other
      exact ⟨clients, met, requests, Function.update_of_ne other ..⟩
    · rw [after, before]
    · rw [after, before, moved]
      change Function.update s.requests c _ c ++ _ = _
      rw [Function.update_self, List.append_nil]
    · rw [after, before, queue, moved]
      change _ ++ Function.update s.replies c rest c = _
      rw [Function.update_self, List.append_assoc]
      rfl
  next => cases went

end Matched

end RdmaWiki
