import RdmaWiki.Register
import RdmaWiki.Progress

/-!
One client alone.

While all other clients stay idle, nothing that a client asks for is deferred or refused,
and its calls are carried out one after the other. Every call returns, whatever address
`malloc` picks, and a get returns the value of the last set of its key (`solo_of_run`),
whichever way the values went before.
-/

namespace RdmaWiki

open CText StepMachine Locks AtomicObject

variable {N : ℕ}

/-- The value of the last set of the key that was carried out. -/
def lastSet (key : CString) (trace : List (Event N)) : Option CString :=
  trace.foldl (fun last event =>
    match event with
    | .res _ (.kvSet key' value) .stored => if key' = key then some value else last
    | _ => last) none

/-- A get is of a key that was set before. -/
def Call.SetBefore (trace : List (Event N)) : Call → Prop
  | .kvSet _ _ => True
  | .kvGet key => (lastSet key trace).isSome = true

instance (trace : List (Event N)) (call : Call) : Decidable (call.SetBefore trace) :=
  match call with
  | .kvSet _ _ => .isTrue True.intro
  | .kvGet key => inferInstanceAs (Decidable ((lastSet key trace).isSome = true))

/-- Only client `c` calls, about words, and it gets what was set before. -/
def solo (c : Fin N) : Guard (Config N) (Action N) (Event N)
  | trace, _, .invoke d call => d = c ∧ call.Words ∧ call.SetBefore trace
  | _, _, _ => True

instance (c : Fin N) (trace : List (Event N)) (cfg : Config N) (action : Action N) :
    Decidable (solo c trace cfg action) :=
  match action with
  | .invoke d call => inferInstanceAs (Decidable (d = c ∧ call.Words ∧ call.SetBefore trace))
  | .proceed _ => .isTrue True.intro
  | .serve _ _ _ => .isTrue True.intro

/-! ## Records stay -/

section Present

variable {env : Env N} {w w' : World N} {c : Fin N} {ret : Ret} {r : Request} {k : Bytes}

/-- A handler removes no record. -/
theorem handle_present (present : w.db.find k ≠ none)
    (handled : handle env w c r = some (ret, w')) : w'.db.find k ≠ none := by
  rcases eq_or_ne k r.key with rfl | other
  · refine handle_keeps (P := fun w => w.db.find r.key ≠ none) ⟨⟨?_, ?_⟩, ?_, ?_⟩ present handled
    · intro w change present keeps
      obtain ⟨item, found⟩ := Option.ne_none_iff_exists'.mp present
      rw [(Database.find_update (fun item => (keeps item).1) found).2, Function.update_self]
      exact Option.some_ne_none _
    · exact fun _ present => present
    · exact fun _ present => present
    · intro w value present
      cases fails : w.db.setItemFails env r.key with
      | true =>
          rw [setItem_fails fails]
          exact present
      | false =>
          obtain ⟨db', stored, find⟩ := setItem_succeeds fails w.mem value
          rw [stored]
          change db'.find r.key ≠ none
          rw [find, Function.update_self]
          exact Option.some_ne_none _
  · rw [handle_elsewhere other handled]
    exact present

/-- No step removes a record. -/
theorem Config.next_present {cfg cfg' : Config N} {action : Action N} {events : List (Event N)}
    (present : cfg.db.find k ≠ none) (next : cfg.next action = some (cfg', events)) :
    cfg'.db.find k ≠ none := by
  cases action with
  | invoke d call =>
      obtain ⟨-, -, rfl, -⟩ := Config.next_invoke next
      exact present
  | proceed d =>
      obtain ⟨cl, mem, results, -, rfl, -⟩ := Config.next_proceed next
      exact present
  | serve d addr rkey =>
      obtain ⟨buf, rest, -, -, -, ⟨-, rfl, -⟩ | ⟨ret, w, served, rfl, -⟩⟩ :=
        Config.next_serve next
      · exact present
      · unfold parseData at served
        split at served
        next => cases served
        next =>
          cases served
          exact present
        next => exact handle_present (w := ⟨cfg.db, cfg.mem, []⟩) present served

/-- What a client returns is the result of its call, whose last answer is there. -/
theorem Client.Shape.proceed_results {cl cl' : Client} {mem mem' : Mem}
    {results : List (Call × Result)} {call : Call} {result : Result} (shape : cl.Shape)
    (next : cl.proceed mem = some (cl', mem', results)) (returned : (call, result) ∈ results) :
    results = [(call, result)] ∧ cl.phase.call = some call ∧ cl.requests = [] := by
  cases shape.goes next with
  | refuse | storeEager | storeLarge | loadEager | loadLarge =>
      cases List.mem_singleton.mp returned
      exact ⟨rfl, rfl, rfl⟩
  | setEager | setSize | setWrite | setFin | get | getEager | getSize | getRead | getFin =>
      cases returned

/-- A client that goes on does not ask again, and it returns `F` only when it was told so. -/
theorem Client.Shape.proceed_refused {cl cl' : Client} {mem mem' : Mem}
    {results : List (Call × Result)} (shape : cl.Shape)
    (next : cl.proceed mem = some (cl', mem', results)) :
    (∀ key value, cl'.phase ≠ .setAsk key value) ∧
      ∀ call, (call, .refused) ∈ results → ∃ key value, cl = ⟨.setAsk key value, [], [.nack]⟩ := by
  cases shape.goes next with
  | refuse => exact ⟨fun _ _ same => (by cases same), fun _ _ => ⟨_, _, rfl⟩⟩
  | storeEager | storeLarge | loadEager | loadLarge =>
      refine ⟨fun _ _ same => (by cases same), fun call returned => ?_⟩
      cases List.mem_singleton.mp returned
  | setEager | setSize | setWrite | setFin | get | getEager | getSize | getRead | getFin =>
      exact ⟨fun _ _ same => (by cases same), fun _ bad => (by cases bad)⟩

/-- How many replies and RDMA operations a call has before it, counted generously. -/
def Phase.rank : Phase → ℕ
  | .idle => 0
  | .setAsk _ _ => 4
  | .setEager _ _ => 1
  | .setRendezvous _ _ => 3
  | .setWrite _ _ _ _ => 2
  | .setFin _ _ => 1
  | .getAsk _ => 5
  | .get _ => 4
  | .getEager _ _ => 1
  | .getRendezvous _ _ => 3
  | .getRead _ _ _ _ => 2
  | .getFin _ _ => 1

/-- The distance of a client from the end of its call. -/
def Client.distance (cl : Client) : ℕ := 2 * cl.phase.rank + cl.requests.length

/-- A client that goes on comes nearer to the end of its call. -/
theorem Client.Shape.proceed_nearer {cl cl' : Client} {mem mem' : Mem}
    {results : List (Call × Result)} (shape : cl.Shape)
    (next : cl.proceed mem = some (cl', mem', results)) : cl'.distance < cl.distance := by
  cases shape.goes next <;> simp [Client.distance, Phase.rank]

end Present

/-! ## The other clients -/

section Solo

variable {trace events : List (Event N)} {cfg cfg' : Config N} {c d : Fin N} {action : Action N}
  {addr : UInt64} {rkey : UInt32}

/-- The other clients have never called. -/
def Config.Alone (cfg : Config N) (c : Fin N) : Prop :=
  ∀ d, d ≠ c → cfg.clients d = ⟨.idle, [], []⟩

theorem Config.Alone.pos (alone : cfg.Alone c) (other : d ≠ c) : (cfg.clients d).pos = .out := by
  rw [alone d other]
  rfl

/-- Every step is one of client `c`. -/
theorem Config.Alone.client (alone : cfg.Alone c) (met : solo c trace cfg action)
    (next : cfg.next action = some (cfg', events)) : action.client = c := by
  by_contra other
  have idle := alone action.client other
  cases action with
  | invoke d call => exact other met.1
  | proceed d =>
      obtain ⟨cl, mem, results, own, -⟩ := Config.next_proceed next
      rw [show cfg.clients d = _ from idle] at own
      cases own
  | serve d addr rkey =>
      obtain ⟨buf, rest, queue, -⟩ := Config.next_serve next
      rw [show cfg.clients d = _ from idle] at queue
      cases queue

theorem alone_of_run (run : (protocol N).Run (solo c) trace cfg) : cfg.Alone c := by
  refine run.invariant (fun _ cfg => cfg.Alone c) (fun _ _ => rfl) ?_
  intro trace cfg action cfg' events before alone met next d other
  have own := alone.client met next
  cases action with
  | invoke e call =>
      have apart : d ≠ e := fun same => other (same.trans own)
      obtain ⟨-, -, rfl, -⟩ := Config.next_invoke next
      change Function.update cfg.clients e _ d = _
      rw [Function.update_of_ne apart]
      exact alone d other
  | proceed e =>
      have apart : d ≠ e := fun same => other (same.trans own)
      obtain ⟨cl, mem, results, -, rfl, -⟩ := Config.next_proceed next
      change Function.update cfg.clients e _ d = _
      rw [Function.update_of_ne apart]
      exact alone d other
  | serve e addr rkey =>
      have apart : d ≠ e := fun same => other (same.trans own)
      obtain ⟨buf, rest, queue, -, -, ⟨-, rfl, -⟩ | ⟨ret, w, served, rfl, -⟩⟩ :=
        Config.next_serve next
      · exact alone d other
      · have linked := linked_of_run before
        obtain ⟨rfl, r, -, -, effect, -⟩ := linked.serve queue served
        rcases linked.serve_other effect apart with same | ⟨key, value, phase⟩ | ⟨key, phase⟩
        · exact same.trans (alone d other)
        · rw [alone d other] at phase
          cases phase
        · rw [alone d other] at phase
          cases phase

/-- No get is granted after waiting. -/
theorem unwoken_of_run (run : (protocol N).Run (solo c) trace cfg) (k : Bytes) :
    deferredGets k trace = 0 := by
  refine run.invariant (fun trace _ => deferredGets k trace = 0) rfl ?_
  intro trace cfg action cfg' events before unwoken met next
  have alone := alone_of_run before
  have own := alone.client met next
  rw [deferredGets_append, unwoken, Nat.zero_add]
  cases action with
  | invoke d call =>
      obtain ⟨-, -, -, rfl⟩ := Config.next_invoke next
      rfl
  | proceed d =>
      obtain ⟨cl, mem, results, -, -, rfl⟩ := Config.next_proceed next
      rw [deferredGets, List.countP_map]
      exact List.countP_eq_zero.mpr fun x _ => by simp [Event.wakes]
  | serve d addr rkey =>
      obtain ⟨buf, rest, queue, -, -, ⟨-, -, rfl⟩ | ⟨ret, w, served, -, rfl⟩⟩ :=
        Config.next_serve next
      · rfl
      · have nobody : cfg.wokenEvents d w.sent = [] := by
          rw [Config.wokenEvents, List.filterMap_eq_nil_iff]
          intro message member
          split
          next => rfl
          next other =>
            rw [alone message.1 fun same => other (same.trans own.symm)]
        rw [nobody]
        rfl

/-- At most client `c` is inside a set. -/
theorem exclusive_of_solo (run : (protocol N).Run (solo c) trace cfg) :
    (cfg.locks trace).Exclusive := by
  refine run.invariant (fun trace cfg => (cfg.locks trace).Exclusive) ?_ ?_
  · exact ⟨fun _ _ _ inside => (by cases inside), fun _ _ found => (by cases found)⟩
  · intro trace cfg action cfg' events before exclusive met next
    have alone := alone_of_run before
    have own := alone.client met next
    have linked := linked_of_run before
    obtain ⟨⟨a, step, -⟩, -⟩ := linked.next next
    refine exclusive.step linked.account (fun k _ _ d other inside => ?_) step
    rw [own] at other
    rw [show (cfg.locks trace).pos d = .out from alone.pos other] at inside
    cases inside

theorem ready_of_solo (run : (protocol N).Run (solo c) trace cfg) : cfg.Ready trace where
  linked := linked_of_run run
  heap := heap_of_run run
  exclusive := exclusive_of_solo run
  calls := calls_of_run (fun _ _ _ _ met => met.2.1.key) run

theorem Config.Alone.readApart (alone : cfg.Alone c) : (cfg.locks trace).ReadApart := by
  intro k d d' inside reads
  have first : d = c := by
    by_contra other
    rw [show (cfg.locks trace).pos d = .out from alone.pos other] at inside
    cases inside
  have second : d' = c := by
    by_contra other
    rw [show (cfg.locks trace).pos d' = .out from alone.pos other] at reads
    cases reads
  rw [first] at inside
  rw [second, inside] at reads
  cases reads

theorem contents_of_solo (run : (protocol N).Run (solo c) trace cfg) : Contents trace cfg :=
  run.invariant Contents .start fun before contents _ next =>
    contents.next (ready_of_solo before) (alone_of_run before).readApart
      (invoked_of_run before) next

theorem words_of_solo (run : (protocol N).Run (solo c) trace cfg) (d : Fin N) (call : Call)
    (during : (cfg.clients d).phase.call = some call) : call.Words :=
  (calls_of_run (fun _ _ _ _ met => met.2.1) run d call during).2

/-- The register of every key simulates the run. -/
theorem simulates_of_solo (run : (protocol N).Run (solo c) trace cfg) (k : Bytes) :
    ∃ s, Simulates k trace cfg s := by
  refine run.invariant (fun trace cfg => ∃ s, Simulates k trace cfg s) ⟨none, .start k⟩ ?_
  intro trace cfg action cfg' events before simulated met next
  obtain ⟨s, sim⟩ := simulated
  have alone := alone_of_run before
  have own := alone.client met next
  refine sim.next (contents_of_solo before) (ready_of_solo before) alone.readApart ?_
    (words_of_solo before) next
  intro d addr rkey same
  subst same
  unfold Config.QuietGet
  split
  next k asked =>
    intro e other inside
    rw [alone.pos fun same => other (same.trans own.symm)] at inside
    cases inside
  next => exact True.intro

/-! ## Every request is granted -/

/-- The record of a set that is past its ask is there. -/
theorem past_ask_of_run (run : (protocol N).Run (solo c) trace cfg) {key value : CString}
    (during : (cfg.clients c).phase.call = some (.kvSet key value))
    (past : (cfg.clients c).requests = [] ∨ (cfg.clients c).phase ≠ .setAsk key value) :
    cfg.db.find key.bytes ≠ none := by
  refine run.invariant (fun _ cfg => ∀ key value,
    (cfg.clients c).phase.call = some (.kvSet key value) →
    ((cfg.clients c).requests = [] ∨ (cfg.clients c).phase ≠ .setAsk key value) →
    cfg.db.find key.bytes ≠ none) (fun _ _ during => by cases during) ?_ key value during past
  intro trace cfg action cfg' events before ih met next key value during past
  have own := (alone_of_run before).client met next
  have ready := ready_of_solo before
  cases action with
  | invoke d call =>
      change d = c at own
      subst own
      obtain ⟨idle, -, rfl, -⟩ := Config.next_invoke next
      change (Function.update cfg.clients d _ d).phase.call = _ at during
      change (Function.update cfg.clients d _ d).requests = [] ∨
        (Function.update cfg.clients d _ d).phase ≠ _ at past
      rw [Function.update_self] at during past
      cases call with
      | kvGet key => cases during
      | kvSet key value =>
          cases during
          rcases past with handled | elsewhere
          · simp [Client.invoke] at handled
          · exact absurd rfl elsewhere
  | proceed d =>
      change d = c at own
      subst own
      obtain ⟨cl, mem, results, moved, rfl, -⟩ := Config.next_proceed next
      change (Function.update cfg.clients d _ d).phase.call = _ at during
      rw [Function.update_self] at during
      refine ih key value (Client.proceed_call moved during) ?_
      by_contra not_past
      rw [not_or, not_not] at not_past
      obtain ⟨buf, rest, queue⟩ := List.exists_cons_of_ne_nil not_past.1
      rw [((ready.linked.shape d).awaits_of_queue queue).2 cfg.mem] at moved
      cases moved
  | serve d addr rkey =>
      change d = c at own
      subst own
      obtain ⟨buf, rest, queue, -, -, ⟨-, rfl, -⟩ | ⟨ret, w, served, rfl, -⟩⟩ :=
        Config.next_serve next
      · exact ih key value during past
      · obtain ⟨rfl, r, parsed, -, effect, -⟩ := ready.linked.serve queue served
        rw [parseData, parsed] at served
        change (cfg.clients d).phase.call = _ at during
        by_cases asks : (cfg.clients d).phase = .setAsk key value
        · have wanted := ready.request_eq queue parsed
          rw [asks] at wanted
          cases wanted
          cases effect with
          | grantSet valid becomes =>
              change w.db.find key.bytes ≠ none
              rw [becomes.find_self]
              exact Option.some_ne_none _
          | deferSet found invalid becomes =>
              change w.db.find key.bytes ≠ none
              rw [becomes.find_self]
              exact Option.some_ne_none _
        · exact handle_present (w := ⟨cfg.db, cfg.mem, []⟩) (ih key value during (.inr asks)) served

/-- The record of a set that has returned is there. -/
theorem record_of_return (run : (protocol N).Run (solo c) trace cfg) {key value : CString}
    {result : Result} (returned : .res d (.kvSet key value) result ∈ trace) :
    cfg.db.find key.bytes ≠ none := by
  refine run.invariant (fun trace cfg => ∀ d key value result,
    .res d (.kvSet key value) result ∈ trace → cfg.db.find key.bytes ≠ none)
    (fun _ _ _ _ bad => by cases bad) ?_ d key value result returned
  intro trace cfg action cfg' events before ih met next d key value result returned
  rcases List.mem_append.mp returned with old | new
  · exact Config.next_present (ih d key value result old) next
  · refine Config.next_present ?_ next
    have own := (alone_of_run before).client met next
    cases action with
    | invoke e call =>
        obtain ⟨-, -, -, rfl⟩ := Config.next_invoke next
        cases List.mem_singleton.mp new
    | proceed e =>
        change e = c at own
        subst own
        obtain ⟨cl, mem, results, moved, -, rfl⟩ := Config.next_proceed next
        obtain ⟨⟨call, result'⟩, member, same⟩ := List.mem_map.mp new
        cases same
        obtain ⟨-, during, handled⟩ :=
          ((linked_of_run before).shape _).proceed_results moved member
        exact past_ask_of_run before during (.inl handled)
    | serve e addr rkey =>
        obtain ⟨buf, rest, -, -, -, ⟨-, -, rfl⟩ | ⟨ret, w, -, -, rfl⟩⟩ :=
          Config.next_serve next
        · cases new
        · obtain ⟨message, -, woken⟩ := List.mem_filterMap.mp new
          split at woken
          next => cases woken
          next => split at woken <;> cases woken

theorem lastSet_append (key : CString) (trace events : List (Event N)) :
    lastSet key (trace ++ events) = events.foldl (fun last event =>
      match event with
      | .res _ (.kvSet key' value) .stored => if key' = key then some value else last
      | _ => last) (lastSet key trace) :=
  List.foldl_append

/-- A value that was set before was the value of a set that has returned. -/
theorem lastSet_returned {key value : CString} (before : lastSet key trace = some value) :
    ∃ d, .res d (.kvSet key value) .stored ∈ trace := by
  induction trace using List.reverseRecOn with
  | nil => cases before
  | append_singleton trace event ih =>
      rw [lastSet_append] at before
      simp only [List.foldl_cons, List.foldl_nil] at before
      split at before
      next d key' value' =>
        split at before
        next same =>
          cases before
          subst same
          exact ⟨d, List.mem_append_right _ List.mem_cons_self⟩
        next =>
          obtain ⟨e, member⟩ := ih before
          exact ⟨e, List.mem_append_left _ member⟩
      next =>
        obtain ⟨e, member⟩ := ih before
        exact ⟨e, List.mem_append_left _ member⟩

/-- What was set before stays set. -/
theorem lastSet_mono {key : CString} (before : (lastSet key trace).isSome = true)
    (events : List (Event N)) : (lastSet key (trace ++ events)).isSome = true := by
  induction events using List.reverseRecOn with
  | nil => rwa [List.append_nil]
  | append_singleton events event ih =>
      rw [← List.append_assoc, lastSet_append]
      simp only [List.foldl_cons, List.foldl_nil]
      split
      next => split <;> first | rfl | exact ih
      next => exact ih

/-- The key of a get in progress was set before. -/
theorem setBefore_of_run (run : (protocol N).Run (solo c) trace cfg) {key : CString}
    (during : (cfg.clients c).phase.call = some (.kvGet key)) :
    (lastSet key trace).isSome = true := by
  refine run.invariant (fun trace cfg => ∀ key,
    (cfg.clients c).phase.call = some (.kvGet key) → (lastSet key trace).isSome = true)
    (fun _ during => by cases during) ?_ key during
  intro trace cfg action cfg' events before ih met next key during
  apply lastSet_mono
  rcases Config.call_next next during with earlier | ⟨rfl, -, -⟩
  · exact ih key earlier
  · exact met.2.2

/-- Every request can be answered. -/
theorem serviceable_of_solo (run : (protocol N).Run (solo c) trace cfg) :
    cfg.Serviceable trace c := by
  have ready := ready_of_solo run
  refine ⟨?_, ?_⟩
  · -- a value that is a word has a token
    unfold Phase.HasToken
    split
    next key value phase =>
      have words : (Call.kvSet key value).Words := words_of_solo run c _ (by rw [phase]; rfl)
      obtain ⟨nonempty, clean⟩ := words.2
      obtain ⟨b, rest, bytes⟩ := List.exists_cons_of_ne_nil nonempty
      refine ⟨b, by rw [bytes]; exact List.mem_cons_self, fun same => clean ?_⟩
      rw [bytes, same]
      exact List.mem_cons_self
    next => exact True.intro
  · split
    next k asked => exact .inr (unwoken_of_run run k)
    next k asked =>
      -- the key was set before, so its record is there and holds a text
      obtain ⟨buf, rest, queue, parsed⟩ := Config.nextRequest_elim asked
      have wanted := ready.request_eq queue parsed
      have sends := ready.linked.sends asked
      obtain ⟨key, phase, about⟩ : ∃ key, (cfg.clients c).phase = .get key ∧ key.bytes = k := by
        generalize cfg.clients c = cl at sends wanted
        cases sends with
        | get named =>
            cases wanted
            exact ⟨_, rfl, rfl⟩
      have entered : (cfg.clients c).pos = .granted k := by
        generalize cfg.clients c = cl at sends
        cases sends with
        | get named => exact Client.pos_eq named rfl rfl
      have during : (cfg.clients c).phase.call = some (.kvGet key) := by
        rw [phase]
        rfl
      obtain ⟨value, before⟩ := Option.isSome_iff_exists.mp (setBefore_of_run run during)
      obtain ⟨d, returned⟩ := lastSet_returned before
      have present := record_of_return run returned
      rw [about] at present
      obtain ⟨item, found⟩ := Option.ne_none_iff_exists'.mp present
      have nobody : ∀ d, (cfg.clients d).pos ≠ .inSet k := by
        intro d inside
        rcases eq_or_ne d c with rfl | other
        · cases inside.symm.trans entered
        · cases inside.symm.trans ((alone_of_run run).pos other)
      obtain ⟨body, ⟨stored, owns, -⟩, -⟩ := (contents_of_solo run).stable k item found nobody
      rw [show (cfg.db.find k).bind Item.value = some stored from owns]
      rfl
    next => exact True.intro

/-- The server stays up and nobody is left waiting. -/
theorem settled_of_solo (run : (protocol N).Run (solo c) trace cfg) :
    cfg.up = true ∧ ∀ d, (cfg.locks trace).Settled d := by
  refine run.invariant (fun trace cfg => cfg.up = true ∧ ∀ d, (cfg.locks trace).Settled d)
    ⟨rfl, fun d => .of_pos nofun fun k => ⟨nofun, nofun⟩⟩ ?_
  intro trace cfg action cfg' events before settled met next
  refine (ready_of_solo before).settled_next settled.1 settled.2 (fun d addr rkey same => ?_) next
  subst same
  have own : d = c := (alone_of_run before).client met next
  subst own
  exact serviceable_of_solo before

/-- Client `c` is not made to wait, and its gets are not lost. -/
theorem not_waiting_of_solo (run : (protocol N).Run (solo c) trace cfg) (k : Bytes) :
    (cfg.clients c).pos ≠ .waitSet k ∧ (cfg.clients c).pos ≠ .waitGet k ∧
      (cfg.clients c).pos ≠ .lost k := by
  obtain ⟨notLost, held⟩ := (settled_of_solo run).2 c
  have nobody (d : Fin N) (other : d ≠ c) : ¬ Holds ((cfg.locks trace).pos d) k := by
    rw [show (cfg.locks trace).pos d = .out from (alone_of_run run).pos other]
    rintro (bad | bad | bad) <;> cases bad
  refine ⟨fun waits => ?_, fun waits => ?_, notLost k⟩
  · obtain ⟨d, other, holds⟩ := held k (.inl waits)
    exact nobody d other holds
  · obtain ⟨d, other, holds⟩ := held k (.inr waits)
    exact nobody d other holds

/-! ## What is returned -/

/-- No set is told `F`. -/
theorem granted_of_solo (run : (protocol N).Run (solo c) trace cfg) (key value : CString) :
    cfg.clients c ≠ ⟨.setAsk key value, [], [.nack]⟩ := by
  refine run.invariant (fun _ cfg => ∀ key value, cfg.clients c ≠ ⟨.setAsk key value, [], [.nack]⟩)
    (fun _ _ same => by cases same) ?_ key value
  intro trace cfg action cfg' events before ih met next key value refused
  have own := (alone_of_run before).client met next
  have ready := ready_of_solo before
  cases action with
  | invoke d call =>
      change d = c at own
      subst own
      obtain ⟨-, -, rfl, -⟩ := Config.next_invoke next
      change Function.update cfg.clients d _ d = _ at refused
      rw [Function.update_self] at refused
      have none : ((cfg.clients d).invoke call).requests = [] := by rw [refused]
      cases call <;> simp [Client.invoke] at none
  | proceed d =>
      change d = c at own
      subst own
      obtain ⟨cl, mem, results, moved, rfl, -⟩ := Config.next_proceed next
      change Function.update cfg.clients d _ d = _ at refused
      rw [Function.update_self] at refused
      exact ((ready.linked.shape d).proceed_refused moved).1 key value (by rw [refused])
  | serve d addr rkey =>
      change d = c at own
      subst own
      obtain ⟨buf, rest, queue, -, -, ⟨-, rfl, -⟩ | ⟨ret, w, served, rfl, -⟩⟩ :=
        Config.next_serve next
      · exact ih key value refused
      · obtain ⟨rfl, r, parsed, sends, effect, outcome⟩ := ready.linked.serve queue served
        have phase : (cfg.clients d).phase = .setAsk key value := congrArg Client.phase refused
        have wanted := ready.request_eq queue parsed
        rw [phase] at wanted
        cases wanted
        -- whoever was told `F` is outside, but an `as` is granted or deferred
        have outside : ((cfg.afterServe d [] w).clients d).pos = .out := by
          rw [refused, Client.pos]
          split <;> rfl
        rcases Step.asked outcome.step with inside | waits
        · cases outside.symm.trans inside
        · cases outside.symm.trans waits

/-- Everything visible is a call, a return or a wake-up of client `c`, and no set is
refused. -/
theorem events_of_solo (run : (protocol N).Run (solo c) trace cfg) :
    (∀ k, ∀ e ∈ history k trace, e.client = c) ∧ ∀ d call, .res d call .refused ∉ trace := by
  refine run.invariant (fun trace _ => (∀ k, ∀ e ∈ history k trace, e.client = c) ∧
    ∀ d call, .res d call .refused ∉ trace) ⟨fun _ _ bad => (by cases bad), fun _ _ bad => (by cases bad)⟩ ?_
  intro trace cfg action cfg' events before ih met next
  have own := (alone_of_run before).client met next
  have ready := ready_of_solo before
  suffices new : (∀ k, ∀ e ∈ history k events, e.client = c) ∧
      ∀ d call, .res d call .refused ∉ events by
    constructor
    · intro k e member
      rw [history_append] at member
      exact (List.mem_append.mp member).elim (ih.1 k e) (new.1 k e)
    · intro d call member
      exact (List.mem_append.mp member).elim (ih.2 d call) (new.2 d call)
  cases action with
  | invoke d call =>
      change d = c at own
      subst own
      obtain ⟨-, -, -, rfl⟩ := Config.next_invoke next
      refine ⟨fun k e member => ?_, fun e call' bad => by cases List.mem_singleton.mp bad⟩
      rcases eq_or_ne call.key.bytes k with about | other
      · rw [history_inv about] at member
        cases List.mem_singleton.mp member
        rfl
      · rw [history_inv_other other] at member
        cases member
  | proceed d =>
      change d = c at own
      subst own
      obtain ⟨cl, mem, results, moved, -, rfl⟩ := Config.next_proceed next
      have shape := ready.linked.shape d
      constructor
      · intro k e member
        obtain ⟨event, returned, about⟩ := List.mem_filterMap.mp member
        obtain ⟨⟨call, result⟩, -, rfl⟩ := List.mem_map.mp returned
        simp only [Event.about] at about
        split at about <;> cases about
        rfl
      · intro e call member
        obtain ⟨⟨call', result⟩, returned, same⟩ := List.mem_map.mp member
        cases same
        obtain ⟨key, value, refused⟩ := (shape.proceed_refused moved).2 _ returned
        exact granted_of_solo before key value refused
  | serve d addr rkey =>
      obtain ⟨buf, rest, -, -, -, ⟨-, -, rfl⟩ | ⟨ret, w, -, -, rfl⟩⟩ := Config.next_serve next
      · exact ⟨fun _ _ bad => (by cases bad), fun _ _ bad => (by cases bad)⟩
      · refine ⟨fun k e member => ?_, fun e call member => ?_⟩
        · rw [history_woken] at member
          cases member
        · obtain ⟨message, -, woken⟩ := List.mem_filterMap.mp member
          split at woken
          next => cases woken
          next => split at woken <;> cases woken

/-- After the calls of a history the register holds the last value set. -/
theorem after_lastSet {key : CString} {s : Option Bytes}
    (after : After register (history key.bytes trace) s) :
    s = (lastSet key trace).map CString.bytes := by
  induction trace using List.reverseRecOn generalizing s with
  | nil =>
      generalize shown : history key.bytes ([] : List (Event N)) = h at after
      cases after with
      | init => rfl
      | call before => exact absurd shown.symm (by simp [history])
      | ret before acted => exact absurd shown.symm (by simp [history])
  | append_singleton trace event ih =>
      rw [history_append] at after
      rw [lastSet_append]
      simp only [List.foldl_cons, List.foldl_nil]
      cases event with
      | inv d call =>
          rcases eq_or_ne call.key.bytes key.bytes with about | other
          · rw [history_inv about, After.call_iff] at after
            exact ih after
          · rw [history_inv_other other, List.append_nil] at after
            exact ih after
      | wokenGet d key' =>
          rw [show history key.bytes [Event.wokenGet d key'] = [] from rfl, List.append_nil] at after
          exact ih after
      | res d call result =>
          rcases eq_or_ne call.key.bytes key.bytes with about | other
          · rw [history_res about, After.ret_iff] at after
            obtain ⟨s₀, before, acted⟩ := after
            have last := ih before
            cases call with
            | kvGet key' =>
                cases result with
                | value v => exact acted.2.trans last
                | stored | refused => exact acted.elim
            | kvSet key' value =>
                have same : key' = key := CString.eq_of_bytes about
                subst same
                cases result with
                | stored =>
                    simp only [if_true, Option.map_some]
                    exact acted
                | refused => exact (show s = s₀ from acted).trans last
                | value v => exact acted.elim
          · rw [history_res_other other, List.append_nil] at after
            rw [ih after]
            cases call with
            | kvGet key' => rfl
            | kvSet key' value =>
                have different : key' ≠ key := fun same => other (congrArg CString.bytes same)
                cases result with
                | stored => simp only [if_neg different]
                | refused | value => rfl

/-- A get returns the value of the last set of its key. -/
theorem returned_of_solo (run : (protocol N).Run (solo c) trace cfg)
    {before after : List (Event N)} {key : CString} {result : Result}
    (returned : trace = before ++ .res d (.kvGet key) result :: after) :
    ∃ value, lastSet key before = some value ∧ result = .value value.bytes := by
  obtain ⟨s, sim⟩ := simulates_of_solo run key.bytes
  obtain ⟨s₀, done, -⟩ := sim.atomic.alone ((events_of_solo run).1 key.bytes)
  have event : history key.bytes [Event.res d (.kvGet key) result] =
      [.ret d (.kvGet key) result] := history_res rfl
  have shown : history key.bytes trace =
      history key.bytes before ++ .ret d (.kvGet key) result :: history key.bytes after := by
    rw [returned, ← List.singleton_append, history_append, history_append, event,
      List.singleton_append]
  rw [shown] at done
  obtain ⟨s₁, s₂, passed, acted⟩ := done.answered
  have last := after_lastSet passed
  cases result with
  | value v =>
      obtain ⟨holds, -⟩ := acted
      rw [holds] at last
      obtain ⟨value, set, same⟩ := Option.map_eq_some_iff.mp last.symm
      exact ⟨value, set, by rw [same]⟩
  | stored | refused => exact acted.elim

/-! ## Every call returns -/

/-- `malloc` finds no address. -/
def Mem.Full (mem : Mem) : Prop := ∀ addr, (mem.block addr).isSome = true

theorem Config.next_of_proceed (goes : ((cfg.clients c).proceed cfg.mem).isSome = true) :
    ∃ cfg' events, cfg.next (.proceed c) = some (cfg', events) := by
  obtain ⟨⟨cl, mem, results⟩, moved⟩ := Option.isSome_iff_exists.mp goes
  simp only [Config.next, moved]
  exact ⟨_, _, rfl⟩

/-- The call of client `c` returns unless memory runs out. -/
theorem returns_of_solo (run : (protocol N).Run (solo c) trace cfg) :
    (protocol N).Inevitable (solo c)
      (fun _ cfg => (cfg.clients c).phase = .idle ∨ cfg.mem.Full) trace cfg := by
  refine run.inevitable (fun cfg => (cfg.clients c).distance) ?_ ?_
  · intro trace cfg run busy
    rw [not_or] at busy
    obtain ⟨active, room⟩ := busy
    have ready := ready_of_solo run
    have shape := ready.linked.shape c
    -- a request is handled, or the client goes on
    cases queue : (cfg.clients c).requests with
    | cons buf rest =>
        rw [Mem.Full, not_forall] at room
        obtain ⟨addr, free⟩ := room
        have runs : ¬ (cfg.up = false ∨ (cfg.mem.block addr).isSome = true) := by
          rw [(settled_of_solo run).1]
          simp [free]
        cases served : parseData (.reliable N addr 0) ⟨cfg.db, cfg.mem, []⟩ buf c with
        | none =>
            refine ⟨.serve c addr 0, { cfg with up := false }, [], True.intro, ?_⟩
            simp only [protocol, Config.next, queue, if_neg runs, served]
        | some done =>
            obtain ⟨ret, w⟩ := done
            refine ⟨.serve c addr 0, cfg.afterServe c rest w, cfg.wokenEvents c w.sent,
              True.intro, ?_⟩
            simp only [protocol, Config.next, queue, if_neg runs, served]
            rfl
    | nil =>
        have goes : ((cfg.clients c).proceed cfg.mem).isSome = true := by
          cases awaits : (cfg.clients c).phase.awaits with
          | true =>
              rcases shape.ready queue awaits with ⟨-, proceeds⟩ | ⟨-, k, -, point⟩
              · exact proceeds cfg.mem
              · obtain ⟨noSet, noGet, notLost⟩ := not_waiting_of_solo run k
                rcases point with waits | waits | lost
                · exact absurd waits noSet
                · exact absurd waits noGet
                · exact absurd lost notLost
          | false =>
              generalize cfg.clients c = cl at shape active awaits
              cases shape with
              | setWrite | getRead => rfl
              | idle => exact absurd rfl active
              | _ => cases awaits
        obtain ⟨cfg', events, moved⟩ := Config.next_of_proceed goes
        exact ⟨.proceed c, cfg', events, True.intro, moved⟩
  · intro trace cfg action cfg' events run busy met next
    rw [not_or] at busy
    have own := (alone_of_run run).client met next
    cases action with
    | invoke d call =>
        change d = c at own
        subst own
        obtain ⟨idle, -⟩ := Config.next_invoke next
        exact absurd idle busy.1
    | proceed d =>
        change d = c at own
        subst own
        obtain ⟨cl, mem, results, moved, rfl, -⟩ := Config.next_proceed next
        change (Function.update cfg.clients d cl d).distance < _
        rw [Function.update_self]
        exact ((linked_of_run run).shape d).proceed_nearer moved
    | serve d addr rkey =>
        change d = c at own
        subst own
        have ready := ready_of_solo run
        rcases ready.serve next with ⟨-, crashed⟩ | ⟨-, handled, phase, -⟩
        · exact absurd (serviceable_of_solo run) crashed
        · obtain ⟨buf, rest, queue, -⟩ := Config.next_serve next
          simp only [Client.distance, handled, phase, queue, List.length_cons, List.length_nil]
          omega

/-- One client alone sees a map. While the others are idle, the server stays up, every get
of a key that was set before returns the value of the last set of it, no set is refused,
and every call returns unless memory runs out. -/
theorem solo_of_run (run : (protocol N).Run (solo c) trace cfg) :
    cfg.up = true ∧
      (∀ before after d key result, trace = before ++ .res d (.kvGet key) result :: after →
        ∃ value, lastSet key before = some value ∧ result = .value value.bytes) ∧
      (∀ d call, .res d call .refused ∉ trace) ∧
      (protocol N).Inevitable (solo c)
        (fun _ cfg => (cfg.clients c).phase = .idle ∨ cfg.mem.Full) trace cfg :=
  ⟨(settled_of_solo run).1, fun _ _ _ _ _ returned => returned_of_solo run returned,
    (events_of_solo run).2, returns_of_solo run⟩

end Solo

/-- Client 1 of three sets a key the rendezvous way, then the eager way, and gets it. -/
theorem solo_after_both_modes : ∃ trace, ∃ cfg : Config 3,
    (protocol 3).Run (solo 1) trace cfg ∧ ∃ before after,
      trace = before ++ .res 1 (.kvGet keyK) (.value valueV.bytes) :: after ∧
        ∃ value, lastSet keyK before = some value ∧
          Result.value valueV.bytes = .value value.bytes := by
  obtain ⟨trace, cfg, run, ends⟩ := Machine.Run.of_exec (protocol 3) (solo 1)
    [.invoke 1 (.kvSet keyK valueLarge), .serve 1 0 0, .proceed 1, .serve 1 0 7, .proceed 1,
      .proceed 1, .serve 1 1 0, .proceed 1,
      .invoke 1 (.kvSet keyK valueV), .serve 1 1 0, .proceed 1, .serve 1 1 0, .proceed 1,
      .invoke 1 (.kvGet keyK), .serve 1 0 0, .proceed 1, .serve 1 0 0, .proceed 1, .proceed 1]
    (fun trace _ => decide (.res 1 (.kvGet keyK) (.value valueV.bytes) ∈ trace))
    (by decide +kernel)
  obtain ⟨before, after, split⟩ := List.append_of_mem (of_decide_eq_true ends)
  exact ⟨trace, cfg, run, before, after, split,
    (solo_of_run run).2.1 before after 1 keyK _ split⟩

end RdmaWiki
