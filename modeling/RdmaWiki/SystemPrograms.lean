import RdmaWiki.ClientProgram
import RdmaWiki.ReplyBounds
import RdmaWiki.SystemRefinement

/-!
What the calls of the system are.

The clients of the system run `clientLoop`, which does what the program of `client.c` does as long
as the sizes that it reads have room in an `int` with one more byte (`explained_of_run`). The server
stores no value whose size has not, so the sizes that it sends have, and so have those that a
client reads (`size_of_run`). In every run of the system in which the messages stay whole, each
client returns what paths of `kv_set` and `kv_get` on which nothing fails return
(`programs_of_run`). On the server's side, too, no library call fails, and `malloc` returns zeroed
memory.
-/

namespace RdmaWiki

open CText StepMachine LibraryCalls

variable {N : ℕ}

/-! ## Sizes at the server -/

/-- Every large value has room for a NUL. -/
def Database.Sized (db : Database N) : Prop :=
  ∀ k value, (db.find k).bind Item.value = some value → value.isLarge = true →
    value.size < intMax

/-- A size that is told has it, too. -/
def Reply.Sized (reply : Reply) : Prop := ∀ n, reply = .size n → n < intMax

section Server

variable {env : Env N} {w w' : World N} {r : Request} {c : Fin N} {ret : Ret}
  {given : Option Value} {mem : Mem}

/-- `set_item` with the value of a request. -/
theorem Database.Sized.setItem (sized : w.db.Sized) (stores : r.Stores env w given mem) :
    (w.db.setItem env mem r.key given).2.1.Sized := by
  cases failed : w.db.setItemFails env r.key with
  | true =>
      rw [setItem_fails failed]
      exact sized
  | false =>
      obtain ⟨db', stored, find⟩ := setItem_succeeds failed mem given
      rw [stored]
      intro k value has large
      rcases eq_or_ne k r.key with rfl | other
      · rw [find, Function.update_self, Option.bind_some] at has
        cases stores with
        | ask key free => cases has
        | eager key text returned =>
            cases has
            cases large
        | rendezvous key small returned registered =>
            cases has
            exact small
      · rw [find, Function.update_of_ne other] at has
        exact sized k value has large

/-- The texts of a request. -/
theorem Database.Sized.texts (sized : w.db.Sized) {reply : Reply}
    (formatted : reply ∈ r.texts env w) : reply.Sized := by
  rintro n rfl
  unfold Request.texts at formatted
  split at formatted
  next =>
    split at formatted
    next => cases formatted
    next =>
      split at formatted
      next => cases List.mem_singleton.mp formatted
      next => cases formatted
  next key =>
    split at formatted
    next => cases formatted
    next value has =>
      split at formatted
      next =>
        obtain ⟨bytes, -, same⟩ := Option.map_eq_some_iff.mp (Option.mem_toList.mp formatted)
        cases same
      next large =>
        rcases List.mem_cons.mp formatted with same | second
        · cases same
          exact sized key value has (Bool.eq_true_of_not_eq_false large)
        · split at second
          next =>
            obtain ⟨mr, -, same⟩ := Option.map_eq_some_iff.mp (Option.mem_toList.mp second)
            cases same
          next => cases second
  all_goals cases formatted

/-- A request keeps the sizes, whatever fails, and all sizes that are told are such. -/
theorem Database.Sized.handle (sized : w.db.Sized)
    (told : ∀ message ∈ w.sent, message.2.Sized)
    (handled : handle env w c r = some (ret, w')) :
    w'.db.Sized ∧ ∀ message ∈ w'.sent, message.2.Sized := by
  have more {sent : List (Fin N × Reply)} {reply : Reply}
      (all : ∀ message ∈ sent, message.2.Sized) (fits : reply.Sized) (c : Fin N) :
      ∀ message ∈ sent ++ [(c, reply)], message.2.Sized := by
    intro message member
    rcases List.mem_append.mp member with earlier | last
    · exact all message earlier
    · rw [List.mem_singleton.mp last]
      exact fits
  refine handle_rule (P := fun w => w.db.Sized ∧ ∀ message ∈ w.sent, message.2.Sized)
    ⟨?_, ?_⟩ ?_ ?_ ?_ ⟨sized, told⟩ handled
  · intro w change ⟨sized, all⟩ keeps
    refine ⟨fun k value has large => ?_, all⟩
    exact sized k value ((Database.value_update r.key k keeps).symm.trans has) large
  · rintro w c reply (rfl | rfl) ⟨sized, all⟩
    · exact ⟨sized, more all (fun _ same => by cases same) c⟩
    · exact ⟨sized, more all (fun _ same => by cases same) c⟩
  · rintro w' reply formatted ⟨sized', all⟩
    exact ⟨sized', more all (sized.texts formatted) c⟩
  · exact fun mem grown => ⟨sized, told⟩
  · exact fun value mem sent stores ⟨_, all⟩ => ⟨sized.setItem stores, all⟩

end Server

/-! ## Sizes in messages -/

section Protocol

variable {cl cl' : Client} {mem mem' : Mem} {results : List (Call × Result)}
  {guard : Guard (Config N) (Action N) (Event N)} {trace : List (Event N)} {cfg : Config N}

/-- A step of a client takes replies away. -/
theorem Client.proceed_replies (went : cl.proceed mem = some (cl', mem', results)) :
    ∀ reply ∈ cl'.replies, reply ∈ cl.replies := by
  obtain ⟨phase, requests, replies⟩ := cl
  cases phase with
  | setWrite | getRead =>
      cases went
      exact fun _ member => member
  | setAsk key value =>
      cases replies with
      | nil => cases went
      | cons first rest =>
          have same : cl'.replies = rest := by
            simp only [Client.proceed] at went
            split at went
            next => cases went; rfl
            next => split at went <;> (cases went; rfl)
          rw [same]
          exact fun _ member => List.mem_cons_of_mem _ member
  | idle => cases replies <;> cases went
  | setEager | setFin | getAsk | getEager | getFin =>
      cases replies <;> cases went
      exact fun _ member => List.mem_cons_of_mem _ member
  | setRendezvous | getRendezvous | get =>
      rcases replies with _ | ⟨_ | _ | _ | _ | _, rest⟩ <;> cases went <;>
        exact fun _ member => List.mem_cons_of_mem _ member

/-- In every run of the protocol the sizes of the records and those on their way have room. -/
theorem sizes_of_run (run : (protocol N).Run guard trace cfg) :
    cfg.db.Sized ∧ ∀ c, ∀ reply ∈ (cfg.clients c).replies, reply.Sized := by
  refine run.invariant
    (fun _ cfg => cfg.db.Sized ∧ ∀ c, ∀ reply ∈ (cfg.clients c).replies, reply.Sized) ?_ ?_
  · exact ⟨fun _ _ has => (by cases has), fun _ _ member => (by cases member)⟩
  intro trace cfg action cfg' events _ ⟨sized, all⟩ _ next
  cases action with
  | invoke c call =>
      obtain ⟨-, -, rfl, -⟩ := Config.next_invoke next
      refine ⟨sized, fun d reply member => all d reply ?_⟩
      rcases eq_or_ne d c with rfl | other
      · simp only [Function.update_self] at member
        cases call <;> exact member
      · simpa only [Function.update_of_ne other] using member
  | proceed c =>
      obtain ⟨cl, mem, results, went, rfl, -⟩ := Config.next_proceed next
      refine ⟨sized, fun d reply member => all d reply ?_⟩
      rcases eq_or_ne d c with rfl | other
      · simp only [Function.update_self] at member
        exact Client.proceed_replies went reply member
      · simpa only [Function.update_of_ne other] using member
  | serve c addr rkey =>
      obtain ⟨buf, rest, -, -, -, ⟨-, rfl, -⟩ | ⟨ret, w, served, rfl, -⟩⟩ := Config.next_serve next
      · exact ⟨sized, all⟩
      have kept : w.db.Sized ∧ ∀ message ∈ w.sent, message.2.Sized := by
        rcases parseData_cases served with ⟨-, -, rfl⟩ | ⟨r, -, handled⟩
        · exact ⟨sized, fun _ member => (by cases member)⟩
        · exact Database.Sized.handle (w := ⟨cfg.db, cfg.mem, []⟩) sized
            (fun _ member => (by cases member)) handled
      refine ⟨kept.1, fun d reply member => ?_⟩
      rcases List.mem_append.mp member with earlier | now
      · exact all d reply earlier
      · obtain ⟨message, sent, rfl⟩ := List.mem_map.mp now
        exact kept.2 message (List.mem_filter.mp sent).1

end Protocol

/-! ## Sizes at a client -/

/-- Only the answer to `g0` is read as a size. -/
theorem Phase.reads_size {phase : Phase} {buf : Bytes} {n : Int}
    (read : phase.reads buf = some (.size n)) : phase.wants = [.value] := by
  cases phase with
  | get key => rfl
  | setAsk key value =>
      rcases ite_eq_iff.mp read with ⟨-, same⟩ | ⟨-, same⟩ <;> cases same
  | setRendezvous key value | getRendezvous key size =>
      obtain ⟨rkey, addr, same⟩ := readRegion_region read
      cases same
  | _ => cases read

section System

variable [NeZero N] {P : Call → Prop} {Q : Config N → Fin N → Prop}
  {trace events : List (SystemEvent N)} {s s' : SystemState N}

/-- In every run of the system the sizes that a client reads have room. -/
theorem size_of_run (run : (system N).Run (orderly P Q) trace s) (c : Fin N)
    (here : (s.clients c).stage = .reading) {n : Int}
    (read : (s.clients c).phase.reads (s.clients c).conn.buf = some (.size n)) :
    0 ≤ n ∧ n < intMax := by
  have wants := Phase.reads_size read
  -- what it reads is the reply that has landed
  have ready := inTurn_client run c
  obtain ⟨reply, found⟩ := ready.arrived (accounted_of_run (client_of_run run c).toAlways) here
    (by simp [wants])
  obtain ⟨-, answers, whole⟩ := ready.answered reply found
  rw [here, Phase.asks] at answers
  obtain rfl : reply = .size n :=
    Option.some.inj ((reads_of_answer answers whole).symm.trans read)
  rw [wants] at answers
  obtain ⟨bounds, -⟩ := Option.ite_none_right_eq_some.mp answers
  -- which is one of the protocol's
  obtain ⟨trace', cfg, run', -, rep⟩ := run.simulated (system_simulates P Q)
  have notMet : s.met c = none := by
    by_contra some
    obtain ⟨mem, met⟩ := Option.ne_none_iff_exists'.mp some
    rw [wants_of_met run met] at wants
    cases wants
  have ahead : Reply.size n ∈ (cfg.clients c).replies := by
    obtain ⟨left, -, client⟩ := rep.client c
    rw [client]
    have landed : Reply.size n ∈ (s.client c).replies := by
      rw [SystemState.client_of_not_met notMet]
      obtain ⟨within, is⟩ := List.getElem?_eq_some_iff.mp found
      change _ ∈ (s.clients c).landed.drop (s.clients c).turn
      rw [List.drop_eq_getElem_cons within, is]
      exact List.mem_cons_self
    exact List.mem_append_left _ (List.mem_append_left _ landed)
  exact ⟨bounds.1, (sizes_of_run run').2 c _ ahead n rfl⟩

end System

/-! ## What the clients have posted -/

section Parts

variable {trace events : List (SystemEvent N)} {s s' : SystemState N}

/-- The requests that were posted. -/
def requestsOf (works : List Work) : List Bytes :=
  works.filterMap fun
    | .send request => some request
    | _ => none

@[simp] theorem requestsOf_append (works works' : List Work) :
    requestsOf (works ++ works') = requestsOf works ++ requestsOf works' := List.filterMap_append

/-- The requests of `c` that have landed, and those that are on their way. -/
def SystemState.requested (s : SystemState N) (trace : List (SystemEvent N)) (c : Fin N) :
    List Bytes :=
  (arrivals c (serverTrace trace)).map onWire ++ s.requests c

/-- A step posts the request of its stage. -/
theorem requestsOf_step (cl : ClientState) (mem : Mem) :
    requestsOf (cl.posts (.step mem)) = cl.stage.requests := by
  rw [ClientState.posts]
  cases cl.stage with
  | rdma => cases cl.phase <;> rfl
  | _ => rfl

/-- A client is as it was, or takes a step of its loop, and what this posts is on its way. -/
def PostsPart (c : Fin N) (trace : List (SystemEvent N)) (s s' : SystemState N)
    (events : List (SystemEvent N)) : Prop :=
  (s'.clients c = s.clients c ∧ clientTrace c events = [] ∧
    s'.requested (trace ++ events) c = s.requested trace c) ∨
  ∃ action, (s.clients c).next action = some (s'.clients c, clientTrace c events) ∧
    s'.requested (trace ++ events) c =
      s.requested trace c ++ requestsOf ((s.clients c).posts action)

theorem postsPart_of_put {c d : Fin N} {action : ClientAction} {cl : ClientState}
    {own : List ClientEvent} (went : (s.clients c).next action = some (cl, own))
    (put : s'.clients = Function.update s.clients c cl)
    (way : s'.requests = Function.update s.requests c
      (s.requests c ++ requestsOf ((s.clients c).posts action)))
    (shown : clientTrace d events = clientTrace d (own.map (.client c)))
    (quiet : serverTrace events = []) : PostsPart d trace s s' events := by
  rcases eq_or_ne d c with rfl | other
  · refine .inr ⟨action, ?_, ?_⟩
    · rw [shown, clientTrace_client, put, Function.update_self]
      exact went
    · rw [SystemState.requested, SystemState.requested, serverTrace_append, quiet, List.append_nil,
        way, Function.update_self, List.append_assoc]
  · refine .inl ⟨?_, ?_, ?_⟩
    · rw [put, Function.update_of_ne other]
    · rw [shown, clientTrace_client_of_ne other.symm]
    · rw [SystemState.requested, SystemState.requested, serverTrace_append, quiet, List.append_nil,
        way, Function.update_of_ne other]

/-- A step of the server at which nothing lands. -/
theorem postsPart_of_server {d : Fin N} {shown : List (ServerEvent N)}
    (clients : s'.clients = s.clients) (way : s'.requests = s.requests)
    (none : arrivals d shown = []) : PostsPart d trace s s' (shown.map .server) := by
  refine .inl ⟨by rw [clients], clientTrace_server .., ?_⟩
  rw [SystemState.requested, SystemState.requested, serverTrace_append, serverTrace_server,
    arrivals_append, none, List.append_nil, way]

variable [NeZero N] {P : Call → Prop} {Q : Config N → Fin N → Prop}

/-- Nothing lands but what is on its way. -/
theorem arrivals_of_next {server : ServerState N} {action : ServerAction N}
    {shown : List (ServerEvent N)} (went : s.server.next action = some (server, shown))
    (other : ∀ c message, action ≠ .land c message) (d : Fin N) : arrivals d shown = [] := by
  cases action with
  | land c message => exact absurd rfl (other c message)
  | complete c wc | poll n =>
      obtain ⟨t, -, same⟩ := Option.map_eq_some_iff.mp went
      cases same
      rfl
  | parse addr rkey =>
      obtain ⟨c, -, rfl, -, -⟩ := ServerState.parse_cases went
      rfl
  | send =>
      rcases ServerState.send_cases went with ⟨-, rfl, -⟩ | ⟨c, reply, todo, -, rfl, -⟩ <;> rfl
  | rdmaWrite addr rkey data =>
      cases went
      rfl

theorem SystemState.next_posts {action : SystemAction N}
    (run : (system N).Run (orderly P Q) trace s) (d : Fin N)
    (next : s.next action = some (s', events)) : PostsPart d trace s s' events := by
  cases action with
  | invoke c call =>
      obtain ⟨⟨t, shown⟩, put, same⟩ := Option.map_eq_some_iff.mp next
      cases same
      obtain ⟨cl, own, went, rfl, rfl⟩ := SystemState.nextClient_cases put
      exact postsPart_of_put went rfl rfl (clientTrace_invoked ..) (serverTrace_client ..)
  | step c =>
      obtain ⟨cl, own, -, went, rfl, rfl⟩ := SystemState.step_cases next
      have went : (s.clients c).next (.step ((s.met c).getD s.server.mem)) = some (cl, own) := went
      refine postsPart_of_put went rfl ?_ rfl (serverTrace_client ..)
      rw [requestsOf_step]
      rfl
  | pollClient c n | completeClient c wc =>
      obtain ⟨cl, own, went, rfl, rfl⟩ := SystemState.nextClient_cases next
      exact postsPart_of_put went rfl rfl rfl (serverTrace_client ..)
  | transfer c =>
      obtain ⟨mem, -, -, -, rfl, rfl⟩ := SystemState.transfer_cases next
      refine .inl ⟨rfl, rfl, ?_⟩
      rw [List.append_nil]
      rfl
  | landReply c =>
      obtain ⟨reply, rest, cl, own, -, went, rfl, rfl⟩ := SystemState.landReply_cases next
      exact postsPart_of_put went rfl rfl rfl (serverTrace_client ..)
  | landRequest c =>
      obtain ⟨request, rest, server, shown, queue, went, rfl, rfl⟩ :=
        SystemState.landRequest_cases next
      have wire : OnWire request := onWire_of_run run c request (by simp [queue])
      refine .inl ⟨rfl, clientTrace_server .., ?_⟩
      simp only [ServerState.next] at went
      split at went
      next =>
        cases went
        rw [SystemState.requested, SystemState.requested, serverTrace_append, serverTrace_server,
          arrivals_append, arrivals_landed]
        rcases eq_or_ne c d with rfl | other
        · simp only [if_true, Function.update_self, List.map_append, List.map_cons, List.map_nil,
            queue, List.append_assoc, List.cons_append, List.nil_append]
          rw [show onWire (requestText request).bytes = request from wire]
        · simp [other, other.symm]
      next => cases went
  | completeServer c wc | pollServer n | parse addr rkey | send =>
      obtain ⟨server, shown, went, rfl, rfl⟩ := SystemState.nextServer_cases next
      exact postsPart_of_server rfl rfl (arrivals_of_next went (fun _ _ same => by cases same) d)

end Parts

/-! ## The calls of a client -/

section Calls

variable {s s' : ClientState} {r : CallRecord} {action : ClientAction} {events : List ClientEvent}
  {n : ℕ}

/-- A step returns at most one call. -/
theorem Following.results (following : Following (n + 1) s r)
    (room : ∀ mem, action = .step mem → s.stage = .reading →
      ∀ n, s.phase.reads s.conn.buf = some (.size n) → 0 ≤ n ∧ n < intMax)
    (next : s.next action = some (s', events)) :
    events.filterMap ClientEvent.result = [] ∨
      ∃ call result, events.filterMap ClientEvent.result = [(call, result)] := by
  by_cases idle : s.phase = .idle
  · obtain ⟨rfl, -⟩ := ClientState.next_rest (following.quiet idle).1 next
    exact .inl rfl
  · obtain ⟨call, during⟩ := Phase.call_isSome idle
    obtain ⟨fits, p, -, stands⟩ := following.goes call during
    rcases follows_next fits during stands room next with ⟨none, -⟩ | ⟨result, last, -⟩
    · exact .inl none
    · exact .inr ⟨call, result, last⟩

/-- A step of the client, with the record of its call. -/
theorem Following.recorded (following : Following (n + 1) s r)
    (room : ∀ mem, action = .step mem → s.stage = .reading →
      ∀ n, s.phase.reads s.conn.buf = some (.size n) → 0 ≤ n ∧ n < intMax)
    (next : s.next action = some (s', events)) :
    ∃ r' shown, clientCalls.next (s, r) action = some ((s', r'), shown) ∧
      shown.map (fun returned => (returned.call, returned.result)) =
        events.filterMap ClientEvent.result ∧
      shown.flatMap ReturnedCall.looks ++ r'.looks =
        r.looks ++ events.filterMap ClientEvent.look ∧
      shown.flatMap ReturnedCall.works ++ r'.works = r.works ++ s.posts action := by
  rcases following.results room next with none | ⟨call, result, last⟩
  · refine ⟨r.add (s.posts action) events, [], ?_, none.symm, rfl, rfl⟩
    simp only [clientCalls, next, Option.map_some, none]
  · refine ⟨⟨[], []⟩, [⟨call, result, r.works ++ s.posts action,
      r.looks ++ events.filterMap ClientEvent.look⟩], ?_, last.symm, ?_, ?_⟩
    · simp only [clientCalls, next, Option.map_some, last, CallRecord.add, List.map_cons,
        List.map_nil]
    · rw [List.flatMap_singleton, List.append_nil]
    · rw [List.flatMap_singleton, List.append_nil]

end Calls

section Runs

variable [NeZero N] {P : Call → Prop} {Q : Config N → Fin N → Prop}
  {trace : List (SystemEvent N)} {s : SystemState N}

/-- The calls that `c` has returned and the one in progress, as it shows them, looks at its
buffer and posts its requests. -/
structure Recorded (c : Fin N) (trace : List (SystemEvent N)) (s : SystemState N)
    (calls : List ReturnedCall) (r : CallRecord) : Prop where
  results : calls.map (fun returned => (returned.call, returned.result)) =
    (clientTrace c trace).filterMap ClientEvent.result
  looks : calls.flatMap ReturnedCall.looks ++ r.looks =
    (clientTrace c trace).filterMap ClientEvent.look
  requests : requestsOf (calls.flatMap ReturnedCall.works ++ r.works) = s.requested trace c

/-- In the system every client runs its loop with the record of its calls. -/
theorem recorded_of_run (run : (system N).Run (orderly P Q) trace s) (c : Fin N) :
    ∃ calls r, clientCalls.Run sizesFit calls (s.clients c, r) ∧ Recorded c trace s calls r := by
  induction run with
  | init => exact ⟨[], ⟨[], []⟩, .init, rfl, rfl, rfl⟩
  | @step trace events s s' action before met next ih =>
      obtain ⟨calls, r, went, recorded⟩ := ih
      rcases SystemState.next_posts before c next with ⟨same, silent, way⟩ | ⟨action, step, way⟩
      · refine ⟨calls, r, same ▸ went, ?_, ?_, way ▸ recorded.requests⟩
        · rw [clientTrace_append, silent, List.append_nil]
          exact recorded.results
        · rw [clientTrace_append, silent, List.append_nil]
          exact recorded.looks
      · have room : ∀ mem, action = .step mem → (s.clients c).stage = .reading →
            ∀ n, (s.clients c).phase.reads (s.clients c).conn.buf = some (.size n) →
              0 ≤ n ∧ n < intMax :=
          fun _ _ here _ read => size_of_run before c here read
        have fits : sizesFit calls (s.clients c, r) action := by
          cases action with
          | step mem => exact room mem rfl
          | _ => exact True.intro
        obtain ⟨r', shown, goes, results, looks, works⟩ :=
          (following_of_run went 0).1.recorded room step
        refine ⟨calls ++ shown, r', .step went fits goes, ?_, ?_, ?_⟩
        · rw [List.map_append, recorded.results, results, clientTrace_append,
            List.filterMap_append]
        · rw [List.flatMap_append, List.append_assoc, looks, ← List.append_assoc, recorded.looks,
            clientTrace_append, List.filterMap_append]
        · rw [List.flatMap_append, List.append_assoc, works, ← List.append_assoc,
            requestsOf_append, recorded.requests, way]

/-- The clients of the system do what `kv_set` and `kv_get` do where nothing fails. While no library
call of the server fails either and its `malloc` returns zeroed memory, in every run in which the
messages stay whole, the results of a client are those of paths of its calls, one
after the other, and the call in progress is at the end of a beginning of such a path. What the
paths look at is what the client has seen in its buffer, and the requests that they post are,
in order, those that have landed at the server and those that are on their way. -/
theorem programs_of_run (run : (system N).Run (orderly P Q) trace s) (c : Fin N) (n : ℕ) :
    ∃ calls r, Recorded c trace s calls r ∧ (∀ returned ∈ calls, returned.Explained (n + 1)) ∧
      ∀ call, (s.clients c).phase.call = some call → ∃ log q,
        (call.api (n + 1)).Leads log q ∧ (∀ e ∈ log, Fine e) ∧ posted log = r.works ∧
        seen log = r.looks := by
  obtain ⟨calls, r, went, recorded⟩ := recorded_of_run run c
  obtain ⟨following, explained⟩ := following_of_run went n
  refine ⟨calls, r, recorded, explained, fun call during => ?_⟩
  obtain ⟨-, q, ⟨log, fine, posts, sees, leads⟩, -⟩ := following.goes call during
  exact ⟨log, q, leads, fine, posts, sees⟩

/-- A set of client 0 that is granted. -/
theorem programs_of_run_set : ∃ trace, ∃ s : SystemState numClients,
    (system numClients).Run (orderly (fun _ => True) fun _ _ => True) trace s ∧
      ∃ calls r, Recorded 0 trace s calls r ∧
        calls.map (fun returned => (returned.call, returned.result)) =
          [(.kvSet keyK valueV, .stored)] ∧
        ∀ returned ∈ calls, returned.Explained 1 := by
  obtain ⟨trace, s, run, ends⟩ := Machine.Run.of_exec (system numClients)
    (orderly (fun _ => True) fun _ _ => True)
    ([.invoke 0 (.kvSet keyK valueV), .step 0] ++ exchange ++ [.step 0, .step 0] ++ exchange ++
      [.step 0])
    (fun trace _ => decide ((clientTrace 0 trace).filterMap ClientEvent.result =
      [(.kvSet keyK valueV, .stored)])) (by decide +kernel)
  obtain ⟨calls, r, recorded, explained, -⟩ := programs_of_run run 0 0
  exact ⟨trace, s, run, calls, r, recorded, recorded.results.trans (of_decide_eq_true ends),
    explained⟩

end Runs

end RdmaWiki
