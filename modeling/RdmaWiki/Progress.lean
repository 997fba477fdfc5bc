import RdmaWiki.Ready

/-!
Whether every request is answered.

A request settles its client when the client can go on afterwards, or when it is
recorded as waiting for a record that another client holds. Three requests do
not: an `se` whose value has no byte other than `':'`, a `g0` whose record is
absent or has no value, and an `as` that is deferred because of an earlier get
of the record that had to wait. Without them nobody is ever stuck
(`progress_of_run`). A get of a key that was never set gets stuck
(`get_absent_stuck`).
-/

namespace RdmaWiki

open CText StepMachine Locks

variable {N : ℕ}

/-- In this phase the client waits for a reply. -/
def Phase.awaits : Phase → Bool
  | .idle => false
  | .setWrite _ _ _ _ => false
  | .getRead _ _ _ _ => false
  | _ => true

/-- Something is under way for client `c`: its request, a reply, or the granted
operation of another client on its record. -/
def Config.Moving (cfg : Config N) (c : Fin N) : Prop :=
  (cfg.up = true ∧ (cfg.clients c).requests ≠ []) ∨ (cfg.clients c).replies ≠ [] ∨
    ∃ k, (cfg.clients c).record = some k ∧ ∃ d, d ≠ c ∧ Holds (cfg.clients d).pos k

def Config.NobodyStuck (cfg : Config N) : Prop :=
  ∀ c, (cfg.clients c).phase.awaits = true → cfg.Moving c

/-- Client `c` can consume the reply it waits for, or it is recorded as waiting for a
record that another client holds. -/
def Config.Settled (cfg : Config N) (c : Fin N) : Prop :=
  ((cfg.clients c).proceed cfg.mem).isSome = true ∨
    ∃ k item, cfg.db.find k = some item ∧ (item.clientSet c = true ∨ item.clientGet c = true) ∧
      ∃ d, d ≠ c ∧ Holds (cfg.clients d).pos k

/-- The value that is on its way in an `se` has a byte other than `':'`. -/
def Phase.HasToken : Phase → Prop
  | .setEager _ value => ∃ b ∈ value.bytes, b ≠ colon
  | _ => True

instance (phase : Phase) : Decidable phase.HasToken := by
  unfold Phase.HasToken
  cases phase <;> infer_instance

/-- The next request of `c` settles it: an `se` has a value token, an `as` finds
another client inside a granted operation on the record or no get of it was granted
after waiting, and a `g0` finds a value. -/
def Config.Serviceable (trace : List (Event N)) (cfg : Config N) (c : Fin N) : Prop :=
  (cfg.clients c).phase.HasToken ∧
    match cfg.nextRequest c with
    | some (.setAsk k) =>
      (∃ d, d ≠ c ∧ Holds (cfg.clients d).pos k) ∨ deferredGets k trace = 0
    | some (.get k) => ((cfg.db.find k).bind Item.value).isSome = true
    | _ => True

instance (trace : List (Event N)) (cfg : Config N) (c : Fin N) :
    Decidable (cfg.Serviceable trace c) := by
  unfold Config.Serviceable
  refine @instDecidableAnd _ _ inferInstance ?_
  exact
    match cfg.nextRequest c with
    | some (.setAsk _) => inferInstanceAs (Decidable (_ ∨ _))
    | some (.get _) => inferInstanceAs (Decidable (_ = true))
    | some (.setEager _ _) | some (.setRendezvous _ _) | some (.setFin _)
    | some (.getAsk _) | some (.getFin _) | none => .isTrue True.intro

/-- Calls are about words, and every handled request settles its client. -/
def serviceable : Guard (Config N) (Action N) (Event N)
  | _, _, .invoke _ call => IsWord call.key.bytes
  | _, _, .proceed _ => True
  | trace, cfg, .serve c _ _ => cfg.Serviceable trace c

instance (trace : List (Event N)) (cfg : Config N) (action : Action N) :
    Decidable (serviceable trace cfg action) :=
  match action with
  | .invoke _ call => inferInstanceAs (Decidable (IsWord call.key.bytes))
  | .proceed _ => .isTrue True.intro
  | .serve c _ _ => inferInstanceAs (Decidable (cfg.Serviceable trace c))

/-! ## Points of the protocol where a reply is missing -/

/-- A client that waits for a reply, its request being handled: either the reply is
there, or it waits for a record or its `g0` was lost. -/
theorem Client.Shape.ready {cl : Client} (shape : cl.Shape) (handled : cl.requests = [])
    (awaits : cl.phase.awaits = true) :
    (cl.replies ≠ [] ∧ ∀ mem, (cl.proceed mem).isSome = true) ∨
      ((∀ mem, cl.proceed mem = none) ∧
        ∃ k, cl.record = some k ∧
          (cl.pos = .waitSet k ∨ cl.pos = .waitGet k ∨ cl.pos = .lost k)) := by
  cases shape with
  | setGranted named =>
      left
      refine ⟨by simp, fun mem => ?_⟩
      have granted : Reply.ack.bytes.head? ≠ some 'F'.toUInt8 := by decide
      simp only [Client.proceed, if_neg granted]
      split <;> rfl
  | setRefused named =>
      left
      refine ⟨by simp, fun mem => ?_⟩
      have refused : Reply.nack.bytes.head? = some 'F'.toUInt8 := by decide
      simp only [Client.proceed, if_pos refused]
      rfl
  | setWait named =>
      exact .inr ⟨fun _ => rfl, _, named, .inl (Client.pos_eq named rfl rfl)⟩
  | getWait named =>
      exact .inr ⟨fun _ => rfl, _, named, .inr (.inl (Client.pos_eq named rfl rfl))⟩
  | getLost named =>
      exact .inr ⟨fun _ => rfl, _, named, .inr (.inr (Client.pos_eq named rfl rfl))⟩
  | setEagerDone | setRegion | setDone | getGranted | getEagerSent | getEager | getSizeSent |
    getRegion | getDone => exact .inl ⟨by simp, fun _ => rfl⟩
  | setAsk | setEager | setSize | setFin | getAsk | get | getFin => cases handled
  | idle | setWrite | getRead => cases awaits

/-- A client whose `g0` was lost has no reply. -/
theorem Client.Shape.not_lost {cl : Client} {k : Bytes} (shape : cl.Shape)
    (replied : cl.replies ≠ []) : cl.pos ≠ .lost k := by
  intro lost
  have elsewhere : ∀ {p : Pos Bytes}, cl.pos = p → p ≠ .lost k → False := by
    intro p point other
    exact other (point.symm.trans lost)
  cases shape with
  | setGranted named => exact elsewhere (pos_eq named rfl rfl) nofun
  | setRefused named => exact elsewhere (pos_eq named rfl rfl) nofun
  | setEagerDone named _ => exact elsewhere (pos_eq named rfl rfl) nofun
  | setRegion named _ => exact elsewhere (pos_eq named rfl rfl) nofun
  | setDone named _ => exact elsewhere (pos_eq named rfl rfl) nofun
  | getGranted named => exact elsewhere (pos_eq named rfl rfl) nofun
  | getEagerSent named => exact elsewhere (pos_eq named rfl rfl) nofun
  | getEager named => exact elsewhere (pos_eq named rfl rfl) nofun
  | getSizeSent named => exact elsewhere (pos_eq named rfl rfl) nofun
  | getRegion named => exact elsewhere (pos_eq named rfl rfl) nofun
  | getDone named => exact elsewhere (pos_eq named rfl rfl) nofun
  | idle | setWrite | getRead => exact replied rfl
  | setAsk | setEager | setSize | setFin | setWait => exact replied rfl
  | getAsk | get | getFin | getWait | getLost => exact replied rfl

/-- A request about a word is missing only when its value has no token. -/
theorem Client.Shape.request_of_queue {cl : Client} {buf : Bytes} {rest : List Bytes}
    (shape : cl.Shape) (queue : cl.requests = buf :: rest) :
    cl.phase.request ≠ none ↔ cl.phase.HasToken := by
  cases shape with
  | setEager named eager =>
      rw [Phase.request, Ne, Option.map_eq_none_iff, strtok_eq_none_iff, Phase.HasToken]
      simp
  | setAsk | setSize | setFin | getAsk | get | getFin =>
      exact iff_of_true (Option.some_ne_none _) True.intro
  | _ => cases queue

/-- A client with a request under way waits for its reply. -/
theorem Client.Shape.awaits_of_queue {cl : Client} {buf : Bytes} {rest : List Bytes}
    (shape : cl.Shape) (queue : cl.requests = buf :: rest) :
    cl.phase.awaits = true ∧ ∀ mem, cl.proceed mem = none := by
  cases shape with
  | setAsk | setEager | setSize | setFin | getAsk | get | getFin => exact ⟨rfl, fun _ => rfl⟩
  | _ => cases queue

/-! ## Requests that do not crash -/

section Returns

variable {cfg : Config N} {c : Fin N} {addr : UInt64} {rkey : UInt32} {r : Request}

/-- A handler returns when the size it is told is natural, the record of a FIN is
there and the record of a `g0` is absent or has a value. -/
theorem handle_returns (heap : Heap cfg.db.find cfg.mem)
    (size : ∀ k n, r = .setRendezvous k n → 0 ≤ n ∧ n < intMax)
    (fin : ∀ k, r = .setFin k ∨ r = .getFin k → ∃ item, cfg.db.find k = some item)
    (get : ∀ k item, r = .get k → cfg.db.find k = some item → item.value ≠ none) :
    ∃ ret w, handle (.reliable N addr rkey) ⟨cfg.db, cfg.mem, []⟩ c r = some (ret, w) := by
  cases r with
  | setAsk k =>
      cases valid : cfg.db.validSet k with
      | true =>
          obtain ⟨w, handled, -⟩ := handle_setAsk_grant addr rkey (c := c)
            (w := ⟨cfg.db, cfg.mem, []⟩) valid
          exact ⟨_, w, handled⟩
      | false =>
          cases found : cfg.db.find k with
          | none => simp [Database.validSet, found] at valid
          | some item =>
              obtain ⟨w, handled, -⟩ := handle_setAsk_defer addr rkey (c := c)
                (w := ⟨cfg.db, cfg.mem, []⟩) found valid
              exact ⟨_, w, handled⟩
  | setEager k value =>
      obtain ⟨w, handled, -⟩ := handle_setEager addr rkey ⟨cfg.db, cfg.mem, []⟩ c k value
      exact ⟨_, w, handled⟩
  | setRendezvous k n =>
      obtain ⟨natural, bounded⟩ := size k n rfl
      lift n to ℕ using natural
      obtain ⟨w, handled, -⟩ := handle_setRendezvous addr rkey ⟨cfg.db, cfg.mem, []⟩ c k bounded
      exact ⟨_, w, handled⟩
  | setFin k =>
      obtain ⟨item, found⟩ := fin k (.inl rfl)
      obtain ⟨w, handled, -⟩ := serverSetFin_reliable addr rkey (c := c)
        (w := ⟨cfg.db, cfg.mem, []⟩) found
      exact ⟨_, w, handled⟩
  | getAsk k =>
      cases valid : cfg.db.validGet k with
      | true => exact ⟨_, _, handle_getAsk_grant addr rkey (w := ⟨cfg.db, cfg.mem, []⟩) valid⟩
      | false =>
          cases found : cfg.db.find k with
          | none => simp [Database.validGet, found] at valid
          | some item =>
              have locked : item.isSet = true := by
                simpa [Database.validGet, found] using valid
              obtain ⟨w, handled, -⟩ := handle_getAsk_defer addr rkey (c := c)
                (w := ⟨cfg.db, cfg.mem, []⟩) found locked
              exact ⟨_, w, handled⟩
  | get k =>
      cases found : cfg.db.find k with
      | none => exact ⟨_, _, handle_get_absent addr rkey (w := ⟨cfg.db, cfg.mem, []⟩) found⟩
      | some item =>
          cases stored : item.value with
          | none => exact absurd stored (get k item rfl found)
          | some value =>
              have held := heap.held k item value found stored
              cases large : value.isLarge with
              | false =>
                  obtain ⟨bytes, block⟩ := held.block
                  obtain ⟨w, handled, -⟩ := handle_get_eager addr rkey (c := c)
                    (w := ⟨cfg.db, cfg.mem, []⟩) found stored large block
                  exact ⟨_, w, handled⟩
              | true =>
                  obtain ⟨rkey', n, body, mr, -⟩ := held.large large
                  obtain ⟨w, handled, -⟩ := handle_get_rendezvous addr rkey (c := c)
                    (w := ⟨cfg.db, cfg.mem, []⟩) found stored large mr
                  exact ⟨_, w, handled⟩
  | getFin k =>
      obtain ⟨item, found⟩ := fin k (.inr rfl)
      obtain ⟨w, handled, -⟩ := serverGetFin_reliable addr rkey (c := c)
        (w := ⟨cfg.db, cfg.mem, []⟩) found
      exact ⟨_, w, handled⟩

/-- A request about a word with a value token is parsed, and its handler returns
unless it is a `g0` on a record without a value. -/
theorem Linked.serve_returns (addr : UInt64) (rkey : UInt32) {trace : List (Event N)}
    (linked : Linked trace cfg)
    (heap : Heap cfg.db.find cfg.mem)
    (calls : ∀ call, (cfg.clients c).phase.call = some call →
      call.fits = true ∧ IsWord call.key.bytes)
    {buf : Bytes} {rest : List Bytes} (queue : (cfg.clients c).requests = buf :: rest)
    (token : (cfg.clients c).phase.HasToken) :
    ∃ r, cfg.nextRequest c = some r ∧
      ((∀ k item, r = .get k → cfg.db.find k = some item → item.value ≠ none) →
        ∃ ret w, parseData (.reliable N addr rkey) ⟨cfg.db, cfg.mem, []⟩ buf c =
          some (ret, w)) := by
  obtain ⟨call, during⟩ := (linked.shape c).call_of_queue queue
  obtain ⟨fits, word⟩ := calls call during
  have parses := (linked.shape c).reads_word queue during word fits
  obtain ⟨-, crash | ⟨r, parsed, sends⟩⟩ := (linked.shape c).reads queue
  · have wanted := ((linked.shape c).request_of_queue queue).mpr token
    rw [crash] at parses
    split at parses
    next missing => exact absurd missing wanted
    next => cases parses
  · refine ⟨r, Config.nextRequest_eq queue parsed, fun valued => ?_⟩
    rw [parseData, parsed]
    refine handle_returns heap ?_ ?_ valued
    · intro k n same
      subst same
      rw [parsed] at parses
      generalize cfg.clients c = cl at sends parses during
      cases sends with
      | setRendezvous named large =>
          cases parses
          cases during
          have short := Call.size_fits fits large
          unfold intMax
          omega
    · intro k fin
      -- whoever sends a FIN is inside the record
      have inside : needs ((cfg.locks trace).pos c) = some k := by
        rcases fin with rfl | rfl
        · generalize own : cfg.clients c = cl at sends
          cases sends with
          | setFin named large =>
              rw [Config.pos_own trace own (Client.pos_eq named rfl rfl)]
              rfl
        · generalize own : cfg.clients c = cl at sends
          cases sends with
          | getFin named =>
              rw [Config.pos_own trace own (Client.pos_eq named rfl rfl)]
              rfl
      obtain ⟨item, found, -⟩ := Option.map_eq_some_iff.mp (linked.record_lock inside)
      exact ⟨item, found⟩

end Returns

/-! ## Settled requests -/

section Settled

variable {trace : List (Event N)} {cfg cfg' : Config N} {c : Fin N} {k : Bytes}

/-- After its request was handled, a client is settled unless its `g0` was lost or it
waits for a record that nobody else holds. -/
theorem Linked.settled_iff (linked : Linked trace cfg)
    (handled : (cfg.clients c).requests = []) (awaits : (cfg.clients c).phase.awaits = true) :
    cfg.Settled c ↔ (cfg.locks trace).Settled c := by
  change cfg.Settled c ↔ (∀ k, (cfg.clients c).pos ≠ .lost k) ∧
    ∀ k, (cfg.clients c).pos = .waitSet k ∨ (cfg.clients c).pos = .waitGet k →
      ∃ d, d ≠ c ∧ Holds (cfg.clients d).pos k
  -- the flags of the records say where the client waits
  have flags : ∀ k, (∃ item, cfg.db.find k = some item ∧
      (item.clientSet c = true ∨ item.clientGet c = true)) ↔
        (cfg.clients c).pos = .waitSet k ∨ (cfg.clients c).pos = .waitGet k := by
    intro k
    constructor
    · intro waits
      rcases waits with ⟨item, found, set | get⟩
      · exact .inl ((linked.flags.set k item found c).mp set)
      · exact .inr ((linked.flags.get k item found c).mp get)
    · intro waits
      have needed : needs ((cfg.locks trace).pos c) = some k := by
        change needs (cfg.clients c).pos = some k
        rcases waits with point | point <;> rw [point] <;> rfl
      obtain ⟨item, found, -⟩ := Option.map_eq_some_iff.mp (linked.record_lock needed)
      refine ⟨item, found, waits.imp ?_ ?_⟩
      · exact (linked.flags.set k item found c).mpr
      · exact (linked.flags.get k item found c).mpr
  rcases (linked.shape c).ready handled awaits with ⟨replied, proceeds⟩ | ⟨blocked, k, -, point⟩
  · have moves : ∀ k, (cfg.clients c).pos ≠ .waitSet k ∧ (cfg.clients c).pos ≠ .waitGet k ∧
        (cfg.clients c).pos ≠ .lost k := by
      intro k
      refine ⟨fun waits => ?_, fun waits => ?_, fun lost => ?_⟩
      · obtain ⟨key, value, -, own⟩ := (linked.shape c).waitSet waits
        rw [own] at replied
        exact replied rfl
      · obtain ⟨key, -, own⟩ := (linked.shape c).waitGet waits
        rw [own] at replied
        exact replied rfl
      · exact (linked.shape c).not_lost replied lost
    refine iff_of_true (.inl (proceeds cfg.mem)) ⟨fun k => (moves k).2.2, ?_⟩
    intro k waits
    rcases waits with waits | waits
    · exact absurd waits (moves k).1
    · exact absurd waits (moves k).2.1
  · constructor
    · intro moving
      rcases moving with proceeds | ⟨k', item, found, flagged, holder⟩
      · rw [blocked cfg.mem] at proceeds
        cases proceeds
      · have waits := (flags k').mp ⟨item, found, flagged⟩
        refine ⟨fun k₁ lost => ?_, fun k₁ waits₁ => ?_⟩
        · rw [lost] at waits
          rcases waits with bad | bad <;> cases bad
        · have same : k₁ = k' := by
            rcases waits with at_k | at_k <;> rw [at_k] at waits₁ <;>
              rcases waits₁ with bad | bad <;> cases bad <;> rfl
          rw [same]
          exact holder
    · intro ⟨notLost, held⟩
      rcases point with waits | waits | lost
      · obtain ⟨item, found, flagged⟩ := (flags k).mpr (.inl waits)
        exact .inr ⟨k, item, found, flagged, held k (.inl waits)⟩
      · obtain ⟨item, found, flagged⟩ := (flags k).mpr (.inr waits)
        exact .inr ⟨k, item, found, flagged, held k (.inr waits)⟩
      · exact absurd lost (notLost k)

/-- A client with a request under way is not recorded as waiting. -/
theorem Linked.not_waiting (linked : Linked trace cfg) {buf : Bytes} {rest : List Bytes}
    (queue : (cfg.clients c).requests = buf :: rest) {item : Item N}
    (found : cfg.db.find k = some item) :
    ¬ (item.clientSet c = true ∨ item.clientGet c = true) := by
  intro flagged
  rcases flagged with set | get
  · obtain ⟨key, value, -, own⟩ :=
      (linked.shape c).waitSet ((linked.flags.set k item found c).mp set)
    rw [own] at queue
    cases queue
  · obtain ⟨key, -, own⟩ := (linked.shape c).waitGet ((linked.flags.get k item found c).mp get)
    rw [own] at queue
    cases queue

/-- A request that is parsed and whose handler returns settles its client in the lock
discipline exactly when it does in the protocol. -/
theorem Config.serviceable_iff {r : Request} (asked : cfg.nextRequest c = some r)
    (token : (cfg.clients c).phase.HasToken)
    (valued : ∀ k item, r = .get k → cfg.db.find k = some item → item.value ≠ none) :
    cfg.Serviceable trace c ↔ (cfg.locks trace).Serviceable c (cfg.askOf r) := by
  rw [Config.Serviceable, and_iff_right token, asked]
  cases r with
  | setAsk k => exact Iff.rfl
  | setEager | setRendezvous | setFin | getAsk | getFin => exact Iff.rfl
  | get k =>
      have present : (cfg.locks trace).lock k ≠ none ↔ cfg.db.find k ≠ none := by
        change (cfg.db.find k).map Item.lock ≠ none ↔ _
        rw [Ne, Option.map_eq_none_iff]
      cases found : cfg.db.find k with
      | none =>
          have asks : cfg.askOf (.get k) = .get k := by
            simp only [Config.askOf, found, Option.bind_none]
          rw [asks, Locks.Serviceable, present, found]
          simp [found]
      | some item =>
          cases stored : item.value with
          | none => exact absurd stored (valued k item rfl found)
          | some value =>
              have served : (cfg.locks trace).Serviceable c (cfg.askOf (.get k)) := by
                simp only [Config.askOf, found, Option.bind_some, stored]
                split
                next => exact True.intro
                next =>
                  rw [Locks.Serviceable, present, found]
                  exact Option.some_ne_none item
              simp [found, stored, served]

/-- A serviceable `g0` finds a value in the record. -/
theorem Config.Serviceable.valued {r : Request} (met : cfg.Serviceable trace c)
    (asked : cfg.nextRequest c = some r) (k : Bytes) (item : Item N) (getting : r = .get k)
    (found : cfg.db.find k = some item) : item.value ≠ none := by
  intro missing
  have valued := met.2
  rw [asked, getting] at valued
  simp [found, missing] at valued

end Settled

section Serve

variable {trace events : List (Event N)} {cfg cfg' : Config N} {c : Fin N} {addr : UInt64}
  {rkey : UInt32}

theorem askOf_ne_quiet (r : Request) : cfg.askOf r ≠ .quiet := by
  cases r with
  | get k =>
      simp only [Config.askOf]
      split
      next => simp
      next => split <;> simp
  | setAsk | setEager | setRendezvous | setFin | getAsk | getFin => simp [Config.askOf]

/-- A request is handled, and settles its client in the lock discipline exactly when
it is serviceable, or else it crashes the server and is not. -/
theorem Config.Ready.serve (ready : cfg.Ready trace)
    (next : cfg.next (.serve c addr rkey) = some (cfg', events)) :
    (cfg' = { cfg with up := false } ∧ ¬ cfg.Serviceable trace c) ∨
      (cfg'.up = true ∧ (cfg'.clients c).requests = [] ∧
        (cfg'.clients c).phase = (cfg.clients c).phase ∧
        ((cfg'.locks (trace ++ events)).Settled c ↔ cfg.Serviceable trace c)) := by
  obtain ⟨buf, rest, queue, up, -, ⟨crash, rfl, -⟩ | ⟨ret, w, served, rfl, rfl⟩⟩ :=
    Config.next_serve next
  · refine .inl ⟨rfl, fun met => ?_⟩
    obtain ⟨r, asked, returns⟩ := ready.linked.serve_returns addr rkey ready.heap (ready.calls c)
      queue met.1
    obtain ⟨ret, w, served⟩ := returns (met.valued asked)
    rw [crash] at served
    cases served
  · right
    obtain ⟨rfl, r, parsed, sends, effect, outcome⟩ := ready.linked.serve queue served
    have asked : cfg.nextRequest c = some r := Config.nextRequest_eq queue parsed
    have token : (cfg.clients c).phase.HasToken := by
      rw [← (ready.linked.shape c).request_of_queue queue, ready.request_eq queue parsed]
      exact Option.some_ne_none r
    have valued : ∀ k item, r = .get k → cfg.db.find k = some item → item.value ≠ none := by
      intro k item same found missing
      subst same
      cases effect with
      | lose absent =>
          rw [show cfg.db.find k = none from absent] at found
          cases found
      | getEager found' stored small block becomes =>
          rw [show cfg.db.find k = _ from found', Option.some.injEq] at found
          rw [← found, stored] at missing
          cases missing
      | getRendezvous found' stored large registered becomes =>
          rw [show cfg.db.find k = _ from found', Option.some.injEq] at found
          rw [← found, stored] at missing
          cases missing
    refine ⟨up, ?_, rfl, ?_⟩
    · change (if c = c then [] else (cfg.clients c).requests) = []
      exact if_pos rfl
    · rw [Config.serviceable_iff asked token valued]
      exact outcome.step.settled_iff ready.linked.account ready.exclusive (askOf_ne_quiet r)

/-- A step whose request is serviceable keeps the server up and everybody settled. -/
theorem Config.Ready.settled_next {action : Action N} (ready : cfg.Ready trace)
    (up : cfg.up = true) (settled : ∀ d, (cfg.locks trace).Settled d)
    (met : ∀ c addr rkey, action = .serve c addr rkey → cfg.Serviceable trace c)
    (next : cfg.next action = some (cfg', events)) :
    cfg'.up = true ∧ ∀ d, (cfg'.locks (trace ++ events)).Settled d := by
  obtain ⟨⟨a, step, asks⟩, -⟩ := ready.linked.next next
  have answered : (cfg.locks trace).Serviceable action.client a := by
    rcases asks with rfl | rfl
    · exact True.intro
    · cases action with
      | invoke c call => exact True.intro
      | proceed c => exact True.intro
      | serve c addr rkey =>
          have met := met c addr rkey rfl
          rw [Config.ask]
          split
          next r asked =>
            exact (Config.serviceable_iff asked met.1 (Config.Serviceable.valued met asked)).mp met
          next => exact True.intro
  refine ⟨?_, Settled.step settled ready.linked.account ready.exclusive answered step⟩
  cases action with
  | invoke c call =>
      obtain ⟨-, -, rfl, -⟩ := Config.next_invoke next
      exact up
  | proceed c =>
      obtain ⟨cl, mem, results, -, rfl, -⟩ := Config.next_proceed next
      exact up
  | serve c addr rkey =>
      rcases ready.serve next with ⟨-, crashed⟩ | ⟨stays, -⟩
      · exact absurd (met c addr rkey rfl) crashed
      · exact stays

end Serve

/-! ## Runs -/

section Runs

variable {trace : List (Event numClients)} {cfg : Config numClients}

/-- In a run without unserviceable requests everybody is settled. -/
theorem settled_of_run (run : (protocol numClients).Run serviceable trace cfg) :
    cfg.up = true ∧ ∀ d, (cfg.locks trace).Settled d := by
  refine run.invariant (fun trace cfg => cfg.up = true ∧ ∀ d, (cfg.locks trace).Settled d)
    ⟨rfl, fun d => .of_pos nofun fun k => ⟨nofun, nofun⟩⟩ ?_
  intro trace cfg action cfg' events before settled met next
  have ready := ready_of_run (fun _ _ _ _ met => met) before
  refine ready.settled_next settled.1 settled.2 (fun c addr rkey same => ?_) next
  subst same
  exact met

/-- Where everybody is settled nobody is stuck. -/
theorem Config.Ready.nobodyStuck (ready : cfg.Ready trace) (up : cfg.up = true)
    (settled : ∀ d, (cfg.locks trace).Settled d) : cfg.NobodyStuck := by
  intro c awaits
  cases queue : (cfg.clients c).requests with
  | cons buf rest => exact .inl ⟨up, by rw [queue]; exact List.cons_ne_nil buf rest⟩
  | nil =>
      rcases (ready.linked.shape c).ready queue awaits with ⟨replied, -⟩ | ⟨-, k, about, point⟩
      · exact .inr (.inl replied)
      · refine .inr (.inr ⟨k, about, ?_⟩)
        rcases point with waits | waits | lost
        · exact (settled c).2 k (.inl waits)
        · exact (settled c).2 k (.inr waits)
        · exact absurd lost ((settled c).1 k)

/-- No request is left unanswered. In every run whose requests are serviceable the
server is up and nobody is stuck, and the next request settles its client exactly
when it is serviceable. -/
theorem progress_of_run (run : (protocol numClients).Run serviceable trace cfg) :
    cfg.up = true ∧ cfg.NobodyStuck ∧
      ∀ c addr rkey cfg' events, cfg.next (.serve c addr rkey) = some (cfg', events) →
        (cfg'.Settled c ↔ cfg.Serviceable trace c) := by
  have ready := ready_of_run (fun _ _ _ _ met => met) run
  obtain ⟨up, settled⟩ := settled_of_run run
  refine ⟨up, ready.nobodyStuck up settled, fun c addr rkey cfg' events next => ?_⟩
  have linked' := (ready.linked.next next).2
  obtain ⟨buf, rest, queue, -⟩ := Config.next_serve next
  obtain ⟨awaits, blocked⟩ := (ready.linked.shape c).awaits_of_queue queue
  rcases ready.serve next with ⟨rfl, crashed⟩ | ⟨-, handled, phase, settles⟩
  · -- the request stays in its queue
    refine iff_of_false (fun stays => ?_) crashed
    rcases stays with proceeds | ⟨k, item, found, flagged, -⟩
    · rw [show (cfg.clients c).proceed cfg.mem = none from blocked cfg.mem] at proceeds
      cases proceeds
    · exact (ready.linked.not_waiting queue found) flagged
  · rw [linked'.settled_iff handled (by rw [phase]; exact awaits), settles]

end Runs

/-- A client waits for the other's set, and for its own value afterwards. -/
theorem progress_of_run_waiting : ∃ trace, ∃ cfg : Config numClients,
    (protocol numClients).Run serviceable trace cfg ∧ cfg.NobodyStuck ∧
      (cfg.clients 1).pos = .waitGet keyK.bytes := by
  obtain ⟨trace, cfg, run, ends⟩ := Machine.Run.of_exec (protocol numClients) serviceable
    [.invoke 0 (.kvSet keyK valueV), .serve 0 0 0, .invoke 1 (.kvGet keyK), .serve 1 0 0]
    (fun _ cfg => decide ((cfg.clients 1).pos = .waitGet keyK.bytes)) (by decide +kernel)
  exact ⟨trace, cfg, run, (progress_of_run run).2.1, of_decide_eq_true ends⟩

/-- A get of a key that was never set is never answered. -/
theorem get_absent_stuck : ¬ ∀ trace, ∀ cfg : Config numClients,
    (protocol numClients).Run wordKeys trace cfg → cfg.NobodyStuck := by
  intro nobodyStuck
  obtain ⟨trace, cfg, run, ends⟩ := Machine.Run.of_exec (protocol numClients) wordKeys
    [.invoke 0 (.kvGet keyK), .serve 0 0 0, .proceed 0, .serve 0 0 0]
    (fun _ cfg => decide ((cfg.clients 0).phase.awaits = true ∧
      (cfg.clients 0).requests = [] ∧ (cfg.clients 0).replies = [] ∧
        (cfg.clients 1).pos = .out)) (by decide +kernel)
  obtain ⟨awaits, handled, silent, outside⟩ := of_decide_eq_true ends
  rcases nobodyStuck trace cfg run 0 awaits with ⟨-, asked⟩ | replied | ⟨k, -, d, other, holds⟩
  · exact asked handled
  · exact replied silent
  · have second : d = 1 := no_third other (by decide)
    rw [second, outside] at holds
    rcases holds with bad | bad | bad <;> cases bad

end RdmaWiki
