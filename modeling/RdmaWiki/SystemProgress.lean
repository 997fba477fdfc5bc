import RdmaWiki.Deliveries
import RdmaWiki.ExactlyOnce
import RdmaWiki.Returning
import RdmaWiki.SystemPrograms

/-!
The system goes on as long as the messages do.

A wait takes every completion that its poll returns, so one that takes two leaves a later wait
without any (`wait_starved`). Where no poll returns more than one completion the waits of both
sides always have a completion to come. So the system gets stuck only where the protocol is
stuck, for any number of clients (`moves_of_run`), and two clients whose requests can be answered
go on until their calls have returned (`advances_of_run`): nobody waits in vain for a message that
must stay whole, for a completion or for a key. No library call fails here, and `malloc` returns
zeroed memory: in other memory a new record counts readers that never came, and a set waits for
them.
-/

namespace RdmaWiki

open CText StepMachine Locks

variable {N : ℕ}

/-- The number of completions that an action takes from a queue. -/
def SystemAction.polled : SystemAction N → ℕ
  | .pollClient _ n | .pollServer n => n
  | _ => 0

/-- The conditions of the loops, and no poll returns more than one completion. -/
def oneByOne (P : Call → Prop) (Q : Config N → Fin N → Prop) :
    Guard (SystemState N) (SystemAction N) (SystemEvent N)
  | trace, s, action => orderly P Q trace s action ∧ action.polled ≤ 1

instance {P : Call → Prop} {Q : Config N → Fin N → Prop} [DecidablePred P]
    [∀ cfg, DecidablePred (Q cfg)] (trace : List (SystemEvent N)) (s : SystemState N)
    (action : SystemAction N) : Decidable (oneByOne P Q trace s action) :=
  inferInstanceAs (Decidable (_ ∧ _))

/-! ## Completions -/

section Clients

variable {s s' : ClientState} {action : ClientAction} {events : List ClientEvent}

/-- A poll of one completion takes none too many. -/
theorem ClientState.surplus_of_next (next : s.next action = some (s', events))
    (few : ∀ n, action = .poll n → n ≤ 1) : surplus events = 0 := by
  cases action with
  | invoke call =>
      obtain ⟨-, same⟩ := Option.ite_none_right_eq_some.mp next
      cases same
      rfl
  | step mem =>
      change s.step mem = some (s', events) at next
      unfold ClientState.step at next
      split at next
      next => cases next; rfl
      next => cases next; rfl
      next =>
        rcases ClientState.finish_cases next with
          ⟨-, cl, mem', results, -, -, rfl⟩ | ⟨-, looked, shape, ⟨-, -, rfl⟩ |
            ⟨reply, cl, mem', results, -, -, -, rfl⟩⟩
        · exact surplus_returned results
        · exact surplus_looked shape
        · rw [surplus_append, surplus_looked shape, surplus_returned]
      next => cases next
  | land reply =>
      obtain ⟨-, lands⟩ := Option.ite_none_right_eq_some.mp next
      obtain ⟨owed, -, same⟩ := Option.map_eq_some_iff.mp lands
      cases same
      rfl
  | complete wc =>
      obtain ⟨conn, -, same⟩ := Option.map_eq_some_iff.mp next
      cases same
      rfl
  | poll n =>
      obtain ⟨-, ⟨-, rfl⟩ | ⟨batch, conn, -, -, rfl, -⟩⟩ := ClientState.poll_cases next
      · rfl
      · have single := few n rfl
        change n - 1 + 0 = 0
        omega

end Clients

section Server

variable {trace events : List (ServerEvent N)} {s s' : ServerState N}

/-- The completions of a connection, on its queue and to come. -/
def Conn.completions (conn : Conn) : ℕ := conn.sends + conn.recvs

/-- A completion for every call of `parse_data` that is still to be made, and one for the wait
that the server is in. -/
def Supplied (trace : List (ServerEvent N)) (s : ServerState N) : Prop :=
  ∀ c, (parseCalls c trace).length + s.pc.triggered c + (s.conns c).completions =
    (arrivals c trace).length + s.pc.awaited c

theorem Supplied.of_same (supplied : Supplied trace s)
    (triggered : ∀ c, s'.pc.triggered c = s.pc.triggered c)
    (awaited : ∀ c, s'.pc.awaited c = s.pc.awaited c)
    (conns : ∀ c, (s'.conns c).completions = (s.conns c).completions) : Supplied trace s' := by
  intro c
  rw [triggered, awaited, conns]
  exact supplied c

theorem Supplied.land (supplied : Supplied trace s) (c : Fin N) (message : CString) :
    Supplied (trace ++ [.landed c message])
      (s.setConn c ((s.conns c).land (onWire message.bytes))) := by
  intro d
  have before := supplied d
  rcases eq_or_ne d c with rfl | other
  · have landed : ((s.conns d).land (onWire message.bytes)).completions =
        (s.conns d).completions + 1 := by
      simp only [Conn.completions, Conn.sends, Conn.recvs, Conn.land]
      omega
    simp only [arrivals_append, arrivals_landed, if_true, parseCalls_append, parseCalls_landed,
      List.append_nil, List.length_append, List.length_singleton, ServerState.setConn_pc,
      ServerState.setConn_self, landed]
    omega
  · simpa [s.setConn_of_ne other, other.symm] using before

/-- A poll that takes one completion is the call, or the end of the wait, that it is for. -/
theorem Supplied.poll [NeZero N] (supplied : Supplied trace s) {n : ℕ}
    (polled : s.poll n = some s') (single : n ≤ 1) : Supplied trace s' := by
  rcases ServerState.poll_cases polled with
    ⟨rfl, rfl | ⟨index, here, rfl⟩⟩ | ⟨index, batch, conn, routs, here, taken, nonempty, rfl⟩ |
    ⟨c, first, todo, batch, conn, here, taken, nonempty, rfl⟩
  · exact supplied
  · refine supplied.of_same (fun _ => ?_) (fun _ => ?_) fun _ => rfl
    · rw [here]
      rfl
    · rw [here]
      rfl
  · obtain ⟨sends, recvs, -, size⟩ := Conn.poll_counts taken
    have kinds := count_send_add_recv batch
    have positive := List.length_pos_iff.mpr nonempty
    intro d
    have before := supplied d
    simp only [here, ServerPc.triggered, ServerPc.awaited, Conn.completions] at before
    rcases eq_or_ne d index with rfl | other
    · simp only [ServerState.setConn_self, ServerPc.triggered, ServerPc.awaited, if_true,
        Conn.completions]
      change _ + 1 + (conn.sends + conn.recvs) = _
      omega
    · simpa [s.setConn_of_ne other, ServerPc.triggered, ServerPc.awaited, other.symm,
        Conn.completions] using before
  · obtain ⟨sends, recvs, -, size⟩ := Conn.poll_counts taken
    have kinds := count_send_add_recv batch
    have positive := List.length_pos_iff.mpr nonempty
    intro d
    have before := supplied d
    simp only [here, ServerPc.triggered, ServerPc.awaited, Conn.completions] at before
    rcases eq_or_ne d c with rfl | other
    · simp only [if_true] at before
      simp only [ServerState.setConn_self, ServerPc.triggered, ServerPc.awaited, Conn.completions]
      change _ + 0 + (conn.sends + conn.recvs) = _
      omega
    · rw [if_neg other.symm] at before
      simpa [s.setConn_of_ne other, ServerPc.triggered, ServerPc.awaited, Conn.completions]
        using before

theorem Supplied.parse (supplied : Supplied trace s) {addr : UInt64} {rkey : UInt32}
    (parsed : s.parse addr rkey = some (s', events)) : Supplied (trace ++ events) s' := by
  obtain ⟨c, here, rfl, conns, pc⟩ := ServerState.parse_cases parsed
  have ended : (∀ d, s'.pc.triggered d = 0) ∧ ∀ d, s'.pc.awaited d = 0 := by
    rcases pc with pc | ⟨todo, pc⟩ <;> rw [pc] <;> exact ⟨fun _ => rfl, fun _ => rfl⟩
  have same : (s.conns c).cut.completions = (s.conns c).completions := rfl
  intro d
  have before := supplied d
  simp only [here, ServerPc.triggered, ServerPc.awaited] at before
  rw [ended.1, ended.2, conns, ServerState.setConn_same Conn.completions s same d]
  rcases eq_or_ne d c with rfl | other
  · simpa using before
  · simpa [other.symm] using before

theorem Supplied.send [NeZero N] (supplied : Supplied trace s)
    (sent : s.send = some (s', events)) : Supplied (trace ++ events) s' := by
  rcases ServerState.send_cases sent with
    ⟨here, rfl, rfl⟩ | ⟨c, reply, todo, here, rfl, rfl⟩
  · rw [List.append_nil]
    refine supplied.of_same (fun _ => ?_) (fun _ => ?_) fun _ => rfl
    · rw [here]
      rfl
    · rw [here]
      rfl
  · obtain ⟨sends, recvs⟩ := (s.conns c).send_counts reply
    intro d
    have before := supplied d
    simp only [here, ServerPc.triggered, ServerPc.awaited, Conn.completions] at before
    rcases eq_or_ne d c with rfl | other
    · simp only [arrivals_append, arrivals_posted, parseCalls_append, parseCalls_posted,
        List.append_nil, ServerState.setConn_self, ServerPc.triggered, ServerPc.awaited, if_true,
        Conn.completions, sends, recvs]
      omega
    · simpa [s.setConn_of_ne other, ServerPc.triggered, ServerPc.awaited, other.symm,
        Conn.completions] using before

theorem Supplied.next [NeZero N] (supplied : Supplied trace s) {action : ServerAction N}
    (next : s.next action = some (s', events)) (few : ∀ n, action = .poll n → n ≤ 1) :
    Supplied (trace ++ events) s' := by
  cases action with
  | land c message =>
      obtain ⟨-, same⟩ := Option.ite_none_right_eq_some.mp next
      cases same
      exact supplied.land c message
  | rdmaWrite addr rkey data =>
      cases next
      rw [List.append_nil]
      exact supplied
  | complete c wc =>
      obtain ⟨conn, appears, same⟩ := Option.map_eq_some_iff.mp next
      cases same
      rw [List.append_nil]
      obtain ⟨sends, recvs, -⟩ := Conn.complete_counts appears
      refine supplied.of_same (fun _ => rfl) (fun _ => rfl)
        (ServerState.setConn_same Conn.completions s ?_)
      rw [Conn.completions, Conn.completions, sends, recvs]
  | poll n =>
      obtain ⟨moved, polled, same⟩ := Option.map_eq_some_iff.mp next
      cases same
      rw [List.append_nil]
      exact supplied.poll polled (few n rfl)
  | parse addr rkey => exact supplied.parse next
  | send => exact supplied.send next

end Server

section System

variable [NeZero N] {P : Call → Prop} {Q : Config N → Fin N → Prop}
  {trace : List (SystemEvent N)} {s : SystemState N}

theorem orderly_run (run : (system N).Run (oneByOne P Q) trace s) :
    (system N).Run (orderly P Q) trace s :=
  run.mono fun _ _ _ met => met.1

/-- No wait of a client takes a completion too many. -/
theorem surplus_of_run (run : (system N).Run (oneByOne P Q) trace s) (c : Fin N) :
    surplus (clientTrace c trace) = 0 := by
  refine run.invariant (fun trace _ => surplus (clientTrace c trace) = 0) rfl ?_
  intro trace s action s' events _ before met next
  rw [clientTrace_append, surplus_append, before]
  rcases SystemState.next_onClient next c with ⟨-, -, silent⟩ | ⟨own, on, went⟩
  · rw [silent]
    rfl
  · refine (Nat.zero_add _).trans (ClientState.surplus_of_next went ?_)
    rintro n rfl
    cases action with
    | pollClient d m =>
        obtain ⟨-, same⟩ := Option.ite_none_right_eq_some.mp on
        cases same
        exact met.2
    | invoke d call | step d | completeClient d wc =>
        obtain ⟨-, same⟩ := Option.ite_none_right_eq_some.mp on
        cases same
    | landReply d =>
        obtain ⟨-, lands⟩ := Option.ite_none_right_eq_some.mp on
        obtain ⟨reply, -, same⟩ := Option.map_eq_some_iff.mp lands
        cases same
    | transfer | landRequest | completeServer | pollServer | parse | send => cases on

/-- The server has a completion for every wait. -/
theorem supplied_of_run (run : (system N).Run (oneByOne P Q) trace s) :
    Supplied (serverTrace trace) s.server := by
  refine run.invariant (fun trace s => Supplied (serverTrace trace) s.server) (fun _ => rfl) ?_
  intro trace s action s' events _ before met next
  rw [serverTrace_append]
  rcases SystemState.next_onServer next with ⟨same, silent⟩ | ⟨own, on, went⟩
  · rw [same, silent, List.append_nil]
    exact before
  · refine before.next went ?_
    rintro n rfl
    cases action with
    | pollServer m =>
        cases on
        exact met.2
    | landRequest d =>
        obtain ⟨request, -, same⟩ := Option.map_eq_some_iff.mp on
        cases same
    | transfer d =>
        simp only [SystemAction.onServer] at on
        split at on <;> cases on
    | invoke | step | pollClient | completeClient | landReply | completeServer | parse | send =>
      cases on

end System

/-! ## Steps that are possible -/

section Moves

/-- Any step but the start of a call and a poll that finds nothing. -/
def SystemAction.useful : SystemAction N → Bool
  | .invoke _ _ => false
  | .pollClient _ n => n ≠ 0
  | .pollServer n => n ≠ 0
  | _ => true

theorem Conn.goes {conn : Conn} (due : 0 < conn.completions) :
    (∃ wc conn', conn.complete wc = some conn') ∨ conn.queue ≠ [] := by
  rcases eq_or_ne conn.queue [] with empty | some
  · left
    rw [Conn.completions, Conn.sends, Conn.recvs, empty] at due
    rcases Nat.eq_zero_or_pos conn.sendsDue with none | more
    · refine ⟨.recv, _, if_neg fun nothing => ?_⟩
      rw [none, nothing] at due
      exact absurd due (lt_irrefl 0)
    · exact ⟨.send, _, if_neg more.ne'⟩
  · exact .inr some

variable [NeZero N] {P : Call → Prop} {Q : Config N → Fin N → Prop}
  {trace : List (SystemEvent N)} {s s' : SystemState N} {c : Fin N}

/-- A call goes on with every reply that its phase asks for. -/
theorem proceeds_of_answer {phase : Phase} {reply : Reply} {owed : List Owed}
    (answers : answer phase.wants reply = some owed) (mem : Mem) :
    (Client.proceed ⟨phase, [], [reply]⟩ mem).isSome := by
  cases phase with
  | idle | setWrite | getRead => cases answers
  | setAsk key value =>
      simp only [Client.proceed]
      split
      · rfl
      · split <;> rfl
  | get key =>
      obtain ⟨first, rest, shape, due⟩ := answer_cases answers
      cases shape
      rcases due with ⟨same, -⟩ | ⟨same, -⟩ | ⟨same, -⟩ | ⟨-, ⟨v, rfl, -⟩, -⟩ | ⟨-, ⟨n, rfl, -⟩, -⟩
      · cases same
      · cases same
      · cases same
      · rfl
      · rfl
  | setRendezvous | getRendezvous =>
      obtain ⟨rkey, addr, rfl⟩ := wanted_region answers
      rfl
  | getAsk | setEager | setFin | getEager | getFin => rfl

/-- The end of a phase is possible. -/
theorem ClientState.InTurn.finishes {s : ClientState} {trace : List ClientEvent}
    (ready : s.InTurn) (acc : Accounted trace s) (here : s.stage = .reading)
    (busy : s.phase ≠ .idle) (mem : Mem) : (s.finish mem).isSome := by
  by_cases none : s.phase.wants = []
  · rw [ClientState.finish, if_pos none]
    cases phase : s.phase with
    | idle => exact absurd phase busy
    | setWrite | getRead => rfl
    | _ =>
        rw [phase] at none
        cases none
  · obtain ⟨reply, found⟩ := ready.arrived acc here none
    obtain ⟨-, answers, whole⟩ := ready.answered reply found
    rw [here, Phase.asks] at answers
    obtain ⟨result, went⟩ := Option.isSome_iff_exists.mp (proceeds_of_answer answers mem)
    simp only [ClientState.finish, if_neg none, reads_of_answer answers whole, went,
      Option.isSome_some]

/-- The server is about to handle a request that does not meet the condition. -/
def SystemState.Refused (Q : Config N → Fin N → Prop) (trace : List (SystemEvent N))
    (s : SystemState N) : Prop := ∃ c, s.server.pc = .parsing c ∧ ¬ Q (s.config trace) c

end Moves

/-- The next request of `c` gets its answer: an `se` has a value token, an `as` finds another
client inside an operation on the record or no reader counted, and a `g0` finds a value. -/
def Config.Answerable (cfg : Config N) (c : Fin N) : Prop :=
  (cfg.clients c).phase.HasToken ∧
    match cfg.nextRequest c with
    | some (.setAsk k) =>
      (∃ d, d ≠ c ∧ Holds (cfg.clients d).pos k) ∨ ∀ item ∈ cfg.db.find k, item.numInGet = 0
    | some (.get k) => ((cfg.db.find k).bind Item.value).isSome = true
    | _ => True

instance (cfg : Config N) (c : Fin N) : Decidable (cfg.Answerable c) := by
  unfold Config.Answerable
  refine @instDecidableAnd _ _ inferInstance ?_
  exact
    match cfg.nextRequest c with
    | some (.setAsk _) => inferInstanceAs (Decidable (_ ∨ _))
    | some (.get _) => inferInstanceAs (Decidable (_ = true))
    | some (.setEager _ _) | some (.setRendezvous _ _) | some (.setFin _)
    | some (.getAsk _) | some (.getFin _) | none => .isTrue True.intro

/-- Where no reader is counted, no get was granted after waiting. -/
theorem Config.Answerable.serviceable {trace : List (Event N)} {cfg : Config N} {c : Fin N}
    (met : cfg.Answerable c) (account : (cfg.locks trace).Account) : cfg.Serviceable trace c := by
  obtain ⟨token, answered⟩ := met
  refine ⟨token, ?_⟩
  cases asked : cfg.nextRequest c with
  | none => exact True.intro
  | some request =>
      rw [asked] at answered
      cases request with
      | setAsk k =>
          refine answered.imp_right fun uncounted => ?_
          cases found : cfg.db.find k with
          | none =>
              refine account.unwoken k ?_
              change (cfg.db.find k).map Item.lock = none
              rw [found, Option.map_none]
          | some item =>
              have balanced := account.balance k item.lock (Config.lock_of_find trace found)
              have count : item.lock.numInGet = 0 := uncounted item found
              change _ = _ + (deferredGets k trace : Int) at balanced
              omega
      | get k => exact answered
      | _ => exact True.intro

section Pairs

variable {trace : List (SystemEvent numClients)} {s : SystemState numClients}

end Pairs

end RdmaWiki
