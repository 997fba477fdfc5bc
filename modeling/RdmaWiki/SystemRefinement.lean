import RdmaWiki.SystemClients

/-!
The bytes implement the messages.

As long as the system keeps the conditions of its loops, where no library call fails and `malloc`
returns zeroed memory on either side, it does what `protocol` does: every run shows the calls and
results of a run of `protocol`, whose state represents the one that is reached (`system_refines`).
On the server's side a request is handled when it is parsed, and its landing, the completions, the
polls and the posting of the replies make no difference.
-/

namespace RdmaWiki

open CText StepMachine

variable {N : ℕ}

/-! ## Requests on their way -/

section Wire

/-- A request as it is put on the wire. -/
def OnWire (request : Bytes) : Prop := onWire (text request) = request

theorem onWire_onWire (buf : Bytes) : OnWire (onWire buf) := by
  have whole : text (onWire buf) = text buf := text_append_nul (text_noNul buf)
  rw [OnWire, whole, onWire_noNul (text_noNul buf), onWire]

theorem Client.proceed_onWire {phase : Phase} {replies : List Reply} {mem mem' : Mem} {cl : Client}
    {results : List (Call × Result)}
    (went : Client.proceed ⟨phase, [], replies⟩ mem = some (cl, mem', results)) :
    ∀ request ∈ cl.requests, OnWire request := by
  have none : ∀ request ∈ ([] : List Bytes), OnWire request := fun _ member =>
    absurd member List.not_mem_nil
  have one : ∀ buf : Bytes, ∀ request ∈ [onWire buf], OnWire request := fun buf request member =>
    List.mem_singleton.mp member ▸ onWire_onWire buf
  cases phase with
  | idle => cases replies <;> cases went
  | setAsk key value =>
      cases replies with
      | nil => cases went
      | cons reply others =>
          simp only [Client.proceed] at went
          split at went
          next =>
            cases went
            exact none
          next =>
            split at went <;>
            · cases went
              exact one _
  | setWrite key value rkey addr | getRead key size rkey addr =>
      cases went
      exact one _
  | get key | setRendezvous key value | getRendezvous key size =>
      rcases replies with _ | ⟨_ | _ | v | n | _, others⟩ <;> cases went <;> exact none
  | getAsk key =>
      cases replies <;> cases went
      exact one _
  | setEager key value | setFin key value | getEager key v | getFin key v =>
      cases replies <;> cases went
      exact none

theorem onWire_of_client_run {guard : Guard ClientState ClientAction ClientEvent}
    {trace : List ClientEvent} {s : ClientState} (run : clientLoop.Run guard trace s) :
    ∀ request ∈ s.stage.requests, OnWire request := by
  refine run.invariant (fun _ s => ∀ request ∈ s.stage.requests, OnWire request)
    (fun _ member => absurd member List.not_mem_nil) ?_
  intro trace s action s' events _ before _ next
  have silent : ∀ stage : ClientStage, stage.requests = [] →
      ∀ request ∈ stage.requests, OnWire request := fun stage empty request member => by
    rw [empty] at member
    cases member
  cases action with
  | invoke call =>
      simp only [clientLoop, ClientState.next, ClientState.invoke] at next
      split at next
      next =>
        cases next
        cases call <;>
        · intro request member
          rw [List.mem_singleton.mp member]
          exact onWire_onWire _
      next => cases next
  | step mem =>
      change s.step mem = some (s', events) at next
      unfold ClientState.step at next
      split at next
      next => cases next; exact silent _ rfl
      next => cases next; exact silent _ rfl
      next =>
        rcases ClientState.finish_cases next with
          ⟨-, cl, mem', results, went, rfl, -⟩ | ⟨-, looked, -, ⟨-, rfl, -⟩ |
            ⟨reply, cl, mem', results, -, went, rfl, -⟩⟩
        · have posted := Client.proceed_onWire went
          rw [(proceed_cases went).1] at posted
          exact posted
        · exact silent _ rfl
        · have posted := Client.proceed_onWire went
          rw [(proceed_cases went).1] at posted
          exact posted
      next => cases next
  | land reply =>
      simp only [clientLoop, ClientState.next] at next
      split at next
      next =>
        obtain ⟨owed, -, done⟩ := Option.map_eq_some_iff.mp next
        cases done
        exact before
      next => cases next
  | complete wc =>
      obtain ⟨conn, -, done⟩ := Option.map_eq_some_iff.mp next
      cases done
      exact before
  | poll n =>
      obtain ⟨-, ⟨rfl, -⟩ | ⟨batch, conn, -, -, -, rfl⟩⟩ := ClientState.poll_cases next
      · exact before
      · apply silent
        simp only
        split <;> rfl

variable [NeZero N] {P : Call → Prop} {Q : Config N → Fin N → Prop}
  {trace : List (SystemEvent N)} {s : SystemState N}

theorem onWire_of_run (run : (system N).Run (orderly P Q) trace s) :
    ∀ c, ∀ request ∈ s.requests c, OnWire request := by
  refine run.invariant (fun _ s => ∀ c, ∀ request ∈ s.requests c, OnWire request)
    (fun _ _ member => absurd member List.not_mem_nil) ?_
  intro trace s action s' events run before met next
  have put : ∀ (c : Fin N) (cl : ClientState) (requests : List Bytes),
      (∀ request ∈ requests, OnWire request) →
      ∀ d, ∀ request ∈ (s.putClient c cl requests).requests d, OnWire request := by
    intro c cl requests posted d request member
    rcases eq_or_ne d c with rfl | other
    · rw [SystemState.putClient_requests_self] at member
      rcases List.mem_append.mp member with old | new
      · exact before d request old
      · exact posted request new
    · rw [s.putClient_requests_of_ne other] at member
      exact before d request member
  have none : ∀ request ∈ ([] : List Bytes), OnWire request := fun _ member =>
    absurd member List.not_mem_nil
  cases action with
  | invoke c call =>
      obtain ⟨⟨t, shown⟩, moved, same⟩ := Option.map_eq_some_iff.mp next
      cases same
      obtain ⟨cl, own, -, rfl, -⟩ := SystemState.nextClient_cases moved
      exact put c cl [] none
  | step c =>
      obtain ⟨cl, own, -, -, rfl, -⟩ := SystemState.step_cases next
      exact put c cl _ (onWire_of_client_run (client_of_run run c))
  | pollClient c n | completeClient c wc =>
      obtain ⟨cl, own, -, rfl, -⟩ := SystemState.nextClient_cases next
      exact put c cl [] none
  | transfer c =>
      obtain ⟨mem, -, -, -, rfl, -⟩ := SystemState.transfer_cases next
      exact before
  | landReply c =>
      obtain ⟨reply, rest, cl, own, -, -, rfl, -⟩ := SystemState.landReply_cases next
      exact put c cl [] none
  | landRequest c =>
      obtain ⟨request, rest, server, shown, queue, -, rfl, -⟩ :=
        SystemState.landRequest_cases next
      intro d other member
      rcases eq_or_ne d c with rfl | apart
      · rw [show ({ s with
            server := server
            requests := Function.update s.requests d rest
            replies := fun c => s.replies c ++ postedTo c shown } : SystemState N).requests d =
          rest from Function.update_self ..] at member
        exact before d other (queue ▸ List.mem_cons_of_mem _ member)
      · rw [show ({ s with
            server := server
            requests := Function.update s.requests c rest
            replies := fun c => s.replies c ++ postedTo c shown } : SystemState N).requests d =
          s.requests d from Function.update_of_ne apart ..] at member
        exact before d other member
  | completeServer c wc | pollServer n | parse addr rkey | send =>
      obtain ⟨server, shown, -, rfl, -⟩ := SystemState.nextServer_cases next
      exact before

end Wire

/-! ## The steps of the server -/

section Server

variable {P : Call → Prop} {Q : Config N → Fin N → Prop} {trace events : List (SystemEvent N)}
  {s s' : SystemState N} {cfg : Config N} {shown : List (Event N)}

theorem unread_landed {served : List (ServerEvent N)}
    (parsed : ∀ c, parseCalls c served <+: arrivals c served) (c d : Fin N) (message : CString) :
    unread d (served ++ [.landed c message]) =
      unread d served ++ if c = d then [message.bytes] else [] := by
  obtain ⟨rest, shape⟩ := parsed d
  rcases eq_or_ne c d with rfl | other
  · simp [unread, ← shape]
  · simp [unread, other]

theorem observe_server (own : List (ServerEvent N)) :
    observe SystemEvent.visible (own.map SystemEvent.server) = [] := by
  simp [observe, List.filterMap_map, SystemEvent.visible, Function.comp_def]

/-- A step of the server that handles nothing and hands on what it has already counted. -/
theorem StandsFor.serves (rep : StandsFor trace s cfg) {server : ServerState N}
    {own : List (ServerEvent N)} {requests : Fin N → List Bytes} {replies : Fin N → List Reply}
    (crash : server.pc = .crashed ↔ s.server.pc = .crashed) (db : server.db = s.server.db)
    (mem : server.mem = s.server.mem)
    (requested : ∀ c, (unread c (serverTrace trace ++ own)).map onWire ++ requests c =
      (unread c (serverTrace trace)).map onWire ++ s.requests c)
    (replied : ∀ c, replies c ++ sentTo c server.pc.todo =
      s.replies c ++ sentTo c s.server.pc.todo) :
    StandsFor (trace ++ own.map .server)
      { s with server := server, requests := requests, replies := replies } cfg := by
  refine rep.same crash db mem fun c => ?_
  have client : ({ s with server := server, requests := requests, replies := replies } :
      SystemState N).client c = s.client c := rfl
  rw [SystemState.config, SystemState.config]
  simp only [serverTrace_append, serverTrace_server, client, List.append_assoc, replied c]
  rw [← List.append_assoc, requested, List.append_assoc]

/-- A completion that appears at the server, or one of its polls. -/
theorem matched_quiet (run' : (protocol N).Run (asking P Q) shown cfg)
    (rep : StandsFor trace s cfg) {server : ServerState N}
    (crash : server.pc = .crashed ↔ s.server.pc = .crashed) (db : server.db = s.server.db)
    (mem : server.mem = s.server.mem) (todo : server.pc.todo = s.server.pc.todo) :
    Matched P Q trace { s with
      server := server
      replies := fun c => s.replies c ++ postedTo c [] } (([] : List (ServerEvent N)).map .server)
      shown := by
  refine matched_stutter run' (observe_server _)
    (rep.serves crash db mem (fun c => ?_) fun c => ?_)
  · rw [List.append_nil]
  · rw [todo]
    exact congrArg (· ++ _) (List.append_nil _)

/-- What the observer sees of a handled request: nothing. -/
theorem observe_woken (cfg : Config N) (c : Fin N) (sent : List (Fin N × Reply)) :
    observe Event.visible (cfg.wokenEvents c sent) = [] := by
  apply List.filterMap_eq_nil_iff.mpr
  intro event woken
  obtain ⟨⟨d, reply⟩, -, found⟩ := List.mem_filterMap.mp woken
  split at found
  next => cases found
  next =>
    split at found
    next =>
      cases found
      rfl
    next => cases found

/-- A request that is parsed is not unread any more. -/
theorem unread_parsed {served : List (ServerEvent N)} {c : Fin N} {message : Bytes}
    (one : unread c served = [message]) (d : Fin N) (cut : Bytes) :
    unread d (served ++ [.parsed c cut]) = if d = c then [] else unread d served := by
  rcases eq_or_ne d c with rfl | other
  · have short : (arrivals d served).length = (parseCalls d served).length + 1 := by
      have size := congrArg List.length one
      simp only [unread, List.length_drop, List.length_cons, List.length_nil] at size
      omega
    simp [unread, short]
  · simp [unread, other, other.symm]

/-- The clients after a call of `parse_data`. -/
theorem config_parsed {c : Fin N} {message : Bytes}
    (one : unread c (serverTrace trace) = [message]) (cut : Bytes) (server : ServerState N)
    (d : Fin N) :
    (({ s with
      server := server
      replies := fun e => s.replies e ++ postedTo e [.parsed c cut] } : SystemState N).config
        (trace ++ [.server (.parsed c cut)])).clients d =
      { phase := (s.client d).phase
        requests := (if d = c then [] else unread d (serverTrace trace)).map onWire ++
          s.requests d ++ (s.client d).requests
        replies := (s.client d).replies ++ s.replies d ++ sentTo d server.pc.todo } := by
  have served : serverTrace (trace ++ [.server (.parsed c cut)]) =
      serverTrace trace ++ [.parsed c cut] := by
    rw [serverTrace_append]
    rfl
  simp only [SystemState.config, served, unread_parsed one]
  simp [postedTo, SystemState.client]

variable [NeZero N]

/-- A request that lands. -/
theorem matched_landRequest (run : (system N).Run (orderly P Q) trace s)
    (run' : (protocol N).Run (asking P Q) shown cfg) (rep : StandsFor trace s cfg) {c : Fin N}
    (next : s.landRequest c = some (s', events)) : Matched P Q trace s' events shown := by
  obtain ⟨request, rest, server, own, queue, went, rfl, rfl⟩ := SystemState.landRequest_cases next
  have wire : OnWire request := onWire_of_run run c request (by simp [queue])
  simp only [ServerState.next] at went
  split at went
  next =>
    cases went
    refine matched_stutter run' (observe_server _)
      (rep.serves Iff.rfl rfl rfl (fun d => ?_) fun d => ?_)
    · rw [unread_landed (intact_of_run (server_of_run run)).parsed]
      rcases eq_or_ne c d with rfl | other
      · simp only [requestText, if_true, Function.update_self, List.map_append, List.map_cons,
          List.map_nil, queue, List.append_assoc, List.cons_append, List.nil_append]
        rw [show onWire (text request) = request from wire]
      · simp [other, other.symm]
    · simp [postedTo]
  next => cases went

theorem ServerState.poll_quiet {s s' : ServerState N} {n : ℕ} (polled : s.poll n = some s') :
    (s'.pc = .crashed ↔ s.pc = .crashed) ∧ s'.db = s.db ∧ s'.mem = s.mem ∧
      s'.pc.todo = s.pc.todo := by
  rcases ServerState.poll_cases polled with
    ⟨-, rfl | ⟨index, here, rfl⟩⟩ | ⟨index, batch, conn, routs, here, -, -, rfl⟩ |
    ⟨c, first, todo, batch, conn, here, -, -, rfl⟩
  · exact ⟨Iff.rfl, rfl, rfl, rfl⟩
  all_goals
    rw [here]
    exact ⟨iff_of_false nofun nofun, rfl, rfl, rfl⟩

theorem matched_poll (run' : (protocol N).Run (asking P Q) shown cfg)
    (rep : StandsFor trace s cfg) {n : ℕ}
    (next : s.nextServer (.poll n) = some (s', events)) : Matched P Q trace s' events shown := by
  obtain ⟨server, own, went, rfl, rfl⟩ := SystemState.nextServer_cases next
  obtain ⟨t, polled, same⟩ := Option.map_eq_some_iff.mp went
  cases same
  obtain ⟨crash, db, mem, todo⟩ := ServerState.poll_quiet polled
  exact matched_quiet run' rep crash db mem todo

theorem matched_complete (run' : (protocol N).Run (asking P Q) shown cfg)
    (rep : StandsFor trace s cfg) {c : Fin N} {wc : Wc}
    (next : s.nextServer (.complete c wc) = some (s', events)) :
    Matched P Q trace s' events shown := by
  obtain ⟨server, own, went, rfl, rfl⟩ := SystemState.nextServer_cases next
  obtain ⟨conn, -, same⟩ := Option.map_eq_some_iff.mp went
  cases same
  exact matched_quiet run' rep Iff.rfl rfl rfl rfl

/-- The next reply is posted, or the server goes on to its next poll. -/
theorem matched_send (run' : (protocol N).Run (asking P Q) shown cfg)
    (rep : StandsFor trace s cfg) (next : s.nextServer .send = some (s', events)) :
    Matched P Q trace s' events shown := by
  obtain ⟨server, own, went, rfl, rfl⟩ := SystemState.nextServer_cases next
  rcases ServerState.send_cases went with ⟨here, rfl, rfl⟩ | ⟨c, reply, todo, here, rfl, rfl⟩
  · refine matched_quiet run' rep ?_ rfl rfl ?_
    · rw [here]
      exact iff_of_false nofun nofun
    · rw [here]
      rfl
  · refine matched_stutter run' (observe_server _)
      (rep.serves ?_ rfl rfl (fun d => ?_) fun d => ?_)
    · rw [here]
      exact iff_of_false nofun nofun
    · simp [unread]
    · rw [here]
      rcases eq_or_ne c d with rfl | other
      · simp [postedTo, ServerPc.todo, sentTo]
      · simp [postedTo, ServerPc.todo, sentTo, other]

/-- A request that is handled. -/
theorem matched_parse (run : (system N).Run (orderly P Q) trace s)
    (run' : (protocol N).Run (asking P Q) shown cfg) (rep : StandsFor trace s cfg)
    {addr : UInt64} {rkey : UInt32} (met : orderly P Q trace s (.parse addr rkey))
    (next : s.nextServer (.parse addr rkey) = some (s', events)) :
    Matched P Q trace s' events shown := by
  obtain ⟨server, own, went, rfl, rfl⟩ := SystemState.nextServer_cases next
  change s.server.parse addr rkey = some (server, own) at went
  obtain ⟨c, here, rfl, -, -⟩ := ServerState.parse_cases went
  have intact := intact_of_run (server_of_run run)
  have kept := met.1
  rw [bufferKept, here] at kept
  obtain ⟨message, one, -⟩ := (intact.held c).resolve_left kept
  have cut := intact.text_eq here one
  have noNul : (0 : UInt8) ∉ message := cut ▸ text_noNul _
  have running : s.server.pc ≠ .crashed := by
    intro crashed
    rw [here] at crashed
    cases crashed
  obtain rfl := rep.config_eq running
  have allowed : asking P Q shown (s.config trace) (.serve c addr rkey) := met.2 c here
  have queue : ((s.config trace).clients c).requests =
      onWire message :: (s.requests c ++ (s.client c).requests) := by
    simp [SystemState.config, one]
  simp only [ServerState.parse, here] at went
  split at went
  next => cases went
  next free =>
    have runs : ¬ ((s.config trace).up = false ∨ ((s.config trace).mem.block addr).isSome) := by
      simpa [SystemState.config, here] using free
    cases handled : parseData (.reliable N addr rkey) ⟨s.server.db, s.server.mem, []⟩
        (s.server.conns c).buf c with
    | none =>
        have handles : parseData (.reliable N addr rkey) ⟨(s.config trace).db,
            (s.config trace).mem, []⟩ (onWire message) c = none :=
          (parseData_text noNul cut).trans handled
        have crashes : (s.config trace).next (.serve c addr rkey) =
            some ({ s.config trace with up := false }, []) := by
          simp only [Config.next, queue, if_neg runs, handles]
        simp only [handled] at went
        cases went
        refine matched_step run' allowed crashes (observe_server _).symm ?_
        refine ⟨by simp [SystemState.config], rfl, rfl, fun d => ?_⟩
        refine ⟨if d = c then [onWire message] else [], fun up => absurd rfl up, ?_⟩
        rw [List.map_singleton, config_parsed one]
        rcases eq_or_ne d c with rfl | other
        · simp [SystemState.config, Client.behind, one, here, ServerPc.todo]
        · simp [SystemState.config, Client.behind, other, here, ServerPc.todo]
    | some result =>
        obtain ⟨ret, w⟩ := result
        have handles : parseData (.reliable N addr rkey) ⟨(s.config trace).db,
            (s.config trace).mem, []⟩ (onWire message) c = some (ret, w) :=
          (parseData_text noNul cut).trans handled
        have serves : (s.config trace).next (.serve c addr rkey) =
            some ({ s.config trace with
              clients := (s.config trace).deliver c (s.requests c ++ (s.client c).requests) w.sent
              db := w.db
              mem := w.mem }, (s.config trace).wokenEvents c w.sent) := by
          simp only [Config.next, queue, if_neg runs, handles]
        simp only [handled] at went
        cases went
        refine matched_step run' allowed serves ?_ ?_
        · rw [observe_server]
          exact observe_woken ..
        · refine ⟨by simp [SystemState.config, here], rfl, rfl, fun d => ⟨[], fun _ => rfl, ?_⟩⟩
          rw [List.map_singleton, config_parsed one]
          rcases eq_or_ne d c with rfl | other
          · simp [SystemState.config, Config.deliver, Client.behind, here, ServerPc.todo, sentTo]
          · simp [SystemState.config, Config.deliver, Client.behind, other, here, ServerPc.todo,
              sentTo]

end Server

/-! ## The refinement -/

theorem system_simulates [NeZero N] (P : Call → Prop) (Q : Config N → Fin N → Prop) :
    (system N).Simulation (orderly P Q) SystemEvent.visible (protocol N) (asking P Q)
      Event.visible fun trace s _ cfg => StandsFor trace s cfg where
  init := ⟨rfl, rfl, rfl, fun _ => ⟨[], fun _ => rfl, rfl⟩⟩
  step {trace s action s' events shown cfg} run run' rep met next := by
    cases action with
    | invoke c call => exact matched_invoke run run' rep met next
    | step c =>
        obtain ⟨cl, own, ready, went, moved, rfl⟩ := SystemState.step_cases next
        unfold ClientState.step at went
        split at went
        next request here =>
          cases went
          refine matched_post run run' rep (by rw [here]; exact ⟨nofun, nofun⟩) ?_ moved
          rfl
        next here =>
          cases went
          refine matched_post run run' rep (by rw [here]; exact ⟨nofun, nofun⟩) ?_ moved
          rfl
        next here => exact matched_finish run run' rep ready here went moved
        next => cases went
    | pollClient c n =>
        obtain ⟨cl, own, went, rfl, rfl⟩ := SystemState.nextClient_cases next
        obtain ⟨waits, ⟨rfl, rfl⟩ | ⟨batch, conn, -, -, rfl, rfl⟩⟩ := ClientState.poll_cases went
        · exact matched_wait run' rep rfl rfl
        · refine matched_wait run' rep ?_ rfl
          rcases waits with here | here
          · rw [ClientState.client, ClientState.client, here]
            simp only
            split <;> rfl
          · rw [ClientState.client, ClientState.client, here]
            rfl
    | completeClient c wc =>
        obtain ⟨cl, own, went, rfl, rfl⟩ := SystemState.nextClient_cases next
        obtain ⟨conn, -, same⟩ := Option.map_eq_some_iff.mp went
        cases same
        exact matched_wait run' rep rfl rfl
    | transfer c => exact matched_transfer run run' rep next
    | landReply c => exact matched_landReply run run' rep next
    | landRequest c => exact matched_landRequest run run' rep next
    | completeServer c wc => exact matched_complete run' rep next
    | pollServer n => exact matched_poll run' rep next
    | parse addr rkey => exact matched_parse run run' rep met next
    | send => exact matched_send run' rep next

/-- While no library call fails and `malloc` returns zeroed memory, and as long as requests and
replies stay whole in their buffers, the bytes implement the messages: what the system shows of its
calls is what a run of the protocol shows, for the same conditions on the calls and on what is
handled. While the server is up, the state that is reached there is the one that the system stands
for. -/
theorem system_refines [NeZero N] {P : Call → Prop} {Q : Config N → Fin N → Prop}
    {trace : List (SystemEvent N)} {s : SystemState N}
    (run : (system N).Run (orderly P Q) trace s) :
    ∃ trace' cfg, (protocol N).Run (asking P Q) trace' cfg ∧
      observe Event.visible trace' = observe SystemEvent.visible trace ∧
      (s.server.pc ≠ .crashed → cfg = s.config trace) := by
  obtain ⟨trace', cfg, run', same, rep⟩ := run.simulated (system_simulates P Q)
  exact ⟨trace', cfg, run', same, rep.config_eq⟩

/-- A request of client 0 and its reply. -/
def exchange : List (SystemAction numClients) :=
  [.landRequest 0, .completeServer 0 .recv, .pollServer 0, .pollServer 1, .parse 0 0, .send,
    .completeServer 0 .send, .pollServer 1, .send, .completeClient 0 .send, .pollClient 0 1,
    .landReply 0, .completeClient 0 .recv, .pollClient 0 1]

/-- A set whose messages go through the buffers. -/
theorem system_refines_set : ∃ trace cfg,
    (protocol numClients).Run (asking (fun _ => True) fun _ _ => True) trace cfg ∧
      observe Event.visible trace =
        [(0, .kvSet keyK valueV, none), (0, .kvSet keyK valueV, some .stored)] := by
  obtain ⟨trace, s, run, ends⟩ := Machine.Run.of_exec (system numClients)
    (orderly (fun _ => True) fun _ _ => True)
    ([.invoke 0 (.kvSet keyK valueV), .step 0] ++ exchange ++ [.step 0, .step 0] ++ exchange ++
      [.step 0])
    (fun trace _ => decide (observe SystemEvent.visible trace =
      [(0, .kvSet keyK valueV, none), (0, .kvSet keyK valueV, some .stored)])) (by decide +kernel)
  obtain ⟨trace', cfg, run', same, -⟩ := system_refines run
  exact ⟨trace', cfg, run', same.trans (of_decide_eq_true ends)⟩

end RdmaWiki
