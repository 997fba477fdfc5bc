import RdmaWiki.Contents

/-!
Writers and readers with two clients.

A granted get is counted on the record only when its `g0` is handled, so an `as`
that is handled before it is granted too (`set_and_get_granted`). As long as
that does not happen, no client is inside a set of a record while another is
inside a get of it, and every `g0` finds a whole value (`excluded_of_run`).
-/

namespace RdmaWiki

open CText StepMachine Locks

variable {N : ℕ}

/-- No client is inside a granted set of a record while another is inside a granted
get of it. -/
def Config.Excluded (cfg : Config N) : Prop :=
  ∀ k d d', (cfg.clients d).pos = .inSet k →
    (cfg.clients d').pos ≠ .granted k ∧ (cfg.clients d').pos ≠ .reading k ∧
      (cfg.clients d').pos ≠ .lost k

/-- If the next request of `c` is an `as` that will be granted, then no other client
is inside a get that was granted and not counted. -/
def Config.GrantsApart (cfg : Config N) (c : Fin N) : Prop :=
  match cfg.nextRequest c with
  | some (.setAsk k) => cfg.db.validSet k = true →
    ∀ d, d ≠ c → (cfg.clients d).pos ≠ .granted k ∧ (cfg.clients d).pos ≠ .lost k
  | _ => True

instance (cfg : Config N) (c : Fin N) : Decidable (cfg.GrantsApart c) := by
  unfold Config.GrantsApart
  exact
    match cfg.nextRequest c with
    | some (.setAsk _) => inferInstance
    | some (.get _) | some (.setEager _ _) | some (.setRendezvous _ _) | some (.setFin _)
    | some (.getAsk _) | some (.getFin _) | none => .isTrue True.intro

/-- Calls are about words, and sets are granted apart from gets. -/
def grantsApart : Guard (Config N) (Action N) (Event N)
  | _, _, .invoke _ call => IsWord call.key.bytes
  | _, _, .proceed _ => True
  | _, cfg, .serve c _ _ => cfg.GrantsApart c

instance (trace : List (Event N)) (cfg : Config N) (action : Action N) :
    Decidable (grantsApart trace cfg action) :=
  match action with
  | .invoke _ call => inferInstanceAs (Decidable (IsWord call.key.bytes))
  | .proceed _ => .isTrue True.intro
  | .serve c _ _ => inferInstanceAs (Decidable (cfg.GrantsApart c))

/-- The record of `k` has a value, whose bytes are a whole text that some set of it
stores. -/
def Config.Complete (trace : List (Event N)) (cfg : Config N) (k : Bytes) : Prop :=
  ∃ value body, cfg.value k = some value ∧
    cfg.mem.block value.value = some (body ++ [0]) ∧ (0 : UInt8) ∉ body ∧
      Written trace k body

section Runs

variable {trace events : List (Event numClients)} {cfg cfg' : Config numClients}
  {c : Fin numClients} {addr : UInt64} {rkey : UInt32} {k : Bytes} {item : Item numClients}

theorem apart_of_run (run : (protocol numClients).Run grantsApart trace cfg) :
    (cfg.locks trace).Apart := by
  refine run.invariant (fun trace cfg => (cfg.locks trace).Apart)
    (fun _ _ _ inside => by cases inside) ?_
  intro trace cfg action cfg' events before apart met next
  have linked := linked_of_run before
  obtain ⟨⟨a, step, asks⟩, -⟩ := linked.next next
  refine apart.step linked.account (exclusive_of_run before) ?_ step
  intro k same free d other
  subst same
  -- the request is the `as`, and it finds the record valid
  obtain ⟨c, addr, rkey, r, rfl, request, moves⟩ := Config.served_of_ask (by simp) asks
  rw [askOf_setAsk moves] at request
  have apart : cfg.GrantsApart c := met
  rw [Config.GrantsApart, request] at apart
  exact apart (validSet_iff_free.mpr free) d other

theorem readApart_of_run (run : (protocol numClients).Run grantsApart trace cfg) :
    (cfg.locks trace).ReadApart :=
  fun k d d' inside => (apart_of_run run k d d' inside).2.1

/-- A granted get finds a whole value. -/
theorem complete_of_granted (run : (protocol numClients).Run grantsApart trace cfg)
    (asked : cfg.nextRequest c = some (.get k)) (found : cfg.db.find k = some item) :
    cfg.Complete trace k := by
  have contents := contents_of_run (fun _ _ _ _ met => met) readApart_of_run run
  have entered : (cfg.clients c).pos = .granted k := by
    have sends := (linked_of_run run).sends asked
    generalize cfg.clients c = cl at sends
    cases sends with
    | get named => exact Client.pos_eq named rfl rfl
  have nobody : ∀ d, (cfg.clients d).pos ≠ .inSet k :=
    fun d inside => (apart_of_run run k d c inside).1 entered
  obtain ⟨body, ⟨value, owns, block, noNul⟩, written⟩ := contents.stable k item found nobody
  exact ⟨value, body, owns, block, noNul, written⟩

/-- The next request keeps writers and readers apart exactly when it grants no set
beside a get. -/
theorem excluded_iff (run : (protocol numClients).Run grantsApart trace cfg)
    (next : cfg.next (.serve c addr rkey) = some (cfg', events)) :
    cfg'.Excluded ↔ cfg.GrantsApart c := by
  constructor
  · intro excluded
    rw [Config.GrantsApart]
    split
    next k asked =>
      intro valid d other
      obtain ⟨buf, rest, queue, parsed⟩ := Config.nextRequest_elim asked
      obtain ⟨buf', rest', queue', -, -, ⟨crash, -⟩ | ⟨ret, w, served, rfl, rfl⟩⟩ :=
        Config.next_serve next
      · -- an `as` that is granted does not crash
        cases queue.symm.trans queue'
        obtain ⟨w, handled, -⟩ := handle_setAsk_grant addr rkey (c := c)
          (w := ⟨cfg.db, cfg.mem, []⟩) valid
        rw [parseData, parsed] at crash
        cases handled.symm.trans crash
      · cases queue.symm.trans queue'
        obtain ⟨rfl, r, parsed', -, -, outcome⟩ := (linked_of_run run).serve queue served
        cases parsed.symm.trans parsed'
        have inside := outcome.step.granted (validSet_iff_free.mp valid)
        have same := outcome.step.asked_others other
        have excluded := excluded k c d inside
        change ((cfg.locks trace).pos d) ≠ _ ∧ ((cfg.locks trace).pos d) ≠ _
        rw [← same]
        exact ⟨excluded.1, excluded.2.2⟩
    next => exact True.intro
  · intro met
    have kept : grantsApart trace cfg (.serve c addr rkey) := met
    exact apart_of_run (run.step kept next)

/-- Writers and readers exclude each other. In every run that grants no set beside a
get, no client is inside a granted set of a record while another is inside a granted
get of it, every `g0` on an existing record finds a whole value, and the next request
keeps the exclusion exactly when it grants no set beside a get. -/
theorem excluded_of_run (run : (protocol numClients).Run grantsApart trace cfg) :
    cfg.Excluded ∧
      (∀ c k item, cfg.nextRequest c = some (.get k) → cfg.db.find k = some item →
        cfg.Complete trace k) ∧
      ∀ c addr rkey cfg' events, cfg.next (.serve c addr rkey) = some (cfg', events) →
        (cfg'.Excluded ↔ cfg.GrantsApart c) :=
  ⟨apart_of_run run, fun _ _ _ asked found => complete_of_granted run asked found,
    fun _ _ _ _ _ next => excluded_iff run next⟩

end Runs

/-- A set and then a get: the `g0` is about to be handled. -/
theorem excluded_after_set : ∃ trace, ∃ cfg : Config numClients,
    (protocol numClients).Run grantsApart trace cfg ∧ cfg.Excluded ∧
      cfg.Complete trace keyK.bytes := by
  obtain ⟨trace, cfg, run, ends⟩ := Machine.Run.of_exec (protocol numClients) grantsApart
    [.invoke 0 (.kvSet keyK valueV), .serve 0 0 0, .proceed 0, .serve 0 1 0, .proceed 0,
      .invoke 1 (.kvGet keyK), .serve 1 0 0, .proceed 1]
    (fun _ cfg => cfg.nextRequest 1 == some (.get keyK.bytes) &&
      (cfg.db.find keyK.bytes).isSome) (by decide +kernel)
  rw [Bool.and_eq_true, beq_iff_eq, Option.isSome_iff_exists] at ends
  obtain ⟨asked, item, found⟩ := ends
  obtain ⟨excluded, complete, -⟩ := excluded_of_run run
  exact ⟨trace, cfg, run, excluded, complete 1 keyK.bytes item asked found⟩

/-- A get and then a set are granted on one key. -/
theorem set_and_get_granted : ¬ ∀ trace, ∀ cfg : Config numClients,
    (protocol numClients).Run wordKeys trace cfg → cfg.Excluded := by
  intro excluded
  obtain ⟨trace, cfg, run, ends⟩ := Machine.Run.of_exec (protocol numClients) wordKeys
    [.invoke 1 (.kvGet keyK), .serve 1 0 0, .invoke 0 (.kvSet keyK valueV), .serve 0 0 0]
    (fun _ cfg => decide ((cfg.clients 0).pos = .inSet keyK.bytes ∧
      (cfg.clients 1).pos = .granted keyK.bytes)) (by decide +kernel)
  obtain ⟨inside, entered⟩ := of_decide_eq_true ends
  exact (excluded trace cfg run keyK.bytes 0 1 inside).1 entered

end RdmaWiki
