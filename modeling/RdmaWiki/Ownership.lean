import RdmaWiki.Contents
import RdmaWiki.Progress

/-!
Who owns the flags of a record.

With two clients the lock flag of a record is up exactly while one client is inside a
granted set of it (`owner_of_run`). With any number of clients the waiting arrays name
exactly the clients that are blocked on the record, so no client is flagged twice, and
whoever is answered was waiting for the answer (`waiting_of_run`).
-/

namespace RdmaWiki

open CText StepMachine Locks

variable {N : ℕ}

/-! ## The lock flag -/

/-- The lock flag of a key is up if and only if exactly one client is inside a granted
set of it, and never are two. -/
theorem owner_of_run {trace : List (Event numClients)} {cfg : Config numClients}
    (run : (protocol numClients).Run wordKeys trace cfg) (k : Bytes) :
    (cfg.db.getInSet k = true ↔ ∃! d, (cfg.clients d).pos = .inSet k) ∧
      ∀ d d', (cfg.clients d).pos = .inSet k → (cfg.clients d').pos = .inSet k → d = d' := by
  have linked := linked_of_run run
  have exclusive := exclusive_of_run run
  refine ⟨?_, exclusive.one k⟩
  -- one client inside is one at most
  have alone : (∃! d, (cfg.clients d).pos = .inSet k) ↔ ∃ d, (cfg.clients d).pos = .inSet k := by
    constructor
    · intro ⟨d, inside, _⟩
      exact ⟨d, inside⟩
    · intro ⟨d, inside⟩
      exact ⟨d, inside, fun d' inside' => exclusive.one k d' d inside' inside⟩
  rw [alone]
  cases found : cfg.db.find k with
  | some item =>
      have locked := exclusive.locked k item.lock (Config.lock_of_find trace found)
      rw [Database.getInSet, found]
      exact locked
  | none =>
      -- whoever is inside relies on the record
      rw [Database.getInSet, found]
      refine ⟨fun bad => (by cases bad), fun ⟨d, inside⟩ => ?_⟩
      have needed : needs ((cfg.locks trace).pos d) = some k := by
        change needs (cfg.clients d).pos = some k
        rw [inside, needs]
      have present := linked.account.present d k needed
      change (cfg.db.find k).map Item.lock ≠ none at present
      rw [found] at present
      exact absurd rfl present

/-- Client 1 asks to set while client 0 is inside a set of the same key. -/
theorem owner_while_waiting : ∃ trace, ∃ cfg : Config numClients,
    (protocol numClients).Run wordKeys trace cfg ∧
      (cfg.db.getInSet keyK.bytes = true ↔ ∃! d, (cfg.clients d).pos = .inSet keyK.bytes) := by
  obtain ⟨trace, cfg, run, -⟩ := Machine.Run.of_exec (protocol numClients) wordKeys
    [.invoke 0 (.kvSet keyK valueV), .serve 0 0 0, .invoke 1 (.kvSet keyK valueV),
      .serve 1 0 0]
    (fun _ cfg => cfg.db.getInSet keyK.bytes) (by decide +kernel)
  exact ⟨trace, cfg, run, (owner_of_run run keyK.bytes).1⟩

/-! ## The waiting arrays -/

/-- The client is inside `kv_set` of `k`, its `as` is handled, and no answer to it was
sent. -/
def Client.BlockedInSet (cl : Client) (k : Bytes) : Prop :=
  ∃ key value, key.bytes = k ∧ cl = ⟨.setAsk key value, [], []⟩

/-- The client is inside `kv_get` of `k`, its `ag` is handled, and no answer to it was
sent. -/
def Client.BlockedInGet (cl : Client) (k : Bytes) : Prop :=
  ∃ key, key.bytes = k ∧ cl = ⟨.getAsk key, [], []⟩

section Waiting

variable {trace events : List (Event N)} {cfg cfg' : Config N} {c d : Fin N} {cl : Client}
  {k : Bytes}

/-- A client calls about words. -/
def Client.Words (cl : Client) : Prop :=
  ∀ call, cl.phase.call = some call → IsWord call.key.bytes

theorem Client.Shape.waitSet_iff (shape : cl.Shape) (words : cl.Words) :
    cl.pos = .waitSet k ↔ cl.BlockedInSet k := by
  constructor
  · intro waits
    obtain ⟨key, value, named, rfl⟩ := shape.waitSet waits
    have word : IsWord key.bytes := words (.kvSet key value) rfl
    rw [serverKey_isWord word, Option.some.injEq] at named
    exact ⟨key, value, named, rfl⟩
  · intro ⟨key, value, about, own⟩
    subst own about
    exact Client.pos_eq (serverKey_isWord (words _ rfl)) rfl rfl

theorem Client.Shape.waitGet_iff (shape : cl.Shape) (words : cl.Words) :
    cl.pos = .waitGet k ↔ cl.BlockedInGet k := by
  constructor
  · intro waits
    obtain ⟨key, named, rfl⟩ := shape.waitGet waits
    have word : IsWord key.bytes := words (.kvGet key) rfl
    rw [serverKey_isWord word, Option.some.injEq] at named
    exact ⟨key, named, rfl⟩
  · intro ⟨key, about, own⟩
    subst own about
    exact Client.pos_eq (serverKey_isWord (words _ rfl)) rfl rfl

/-- In every reachable state no two nodes carry the same key. -/
theorem distinct_of_run {guard : Guard (Config N) (Action N) (Event N)}
    (run : (protocol N).Run guard trace cfg) : cfg.db.Distinct := by
  refine run.invariant (fun _ cfg => cfg.db.Distinct) List.nodup_nil ?_
  intro trace cfg action cfg' events before distinct met next
  cases action with
  | invoke c call =>
      obtain ⟨-, -, rfl, -⟩ := Config.next_invoke next
      exact distinct
  | proceed c =>
      obtain ⟨cl, mem, results, -, rfl, -⟩ := Config.next_proceed next
      exact distinct
  | serve c addr rkey =>
      obtain ⟨buf, rest, -, -, -, ⟨-, rfl, -⟩ | ⟨ret, w, served, rfl, -⟩⟩ :=
        Config.next_serve next
      · exact distinct
      · unfold parseData at served
        split at served
        next => cases served
        next =>
          cases served
          exact distinct
        next => exact handle_distinct (w := ⟨cfg.db, cfg.mem, []⟩) distinct served

theorem words_of_run (run : (protocol N).Run wordKeys trace cfg) (d : Fin N) :
    (cfg.clients d).Words :=
  fun call during => (calls_of_run (fun _ _ _ _ met => met) run d call during).2

/-- The waiting arrays of every node name the clients blocked on its key. -/
theorem flags_of_run (run : (protocol N).Run wordKeys trace cfg) {item : Item N}
    (member : item ∈ cfg.db) (d : Fin N) :
    (item.clientSet d = true ↔ (cfg.clients d).BlockedInSet item.key) ∧
      (item.clientGet d = true ↔ (cfg.clients d).BlockedInGet item.key) := by
  have linked := linked_of_run run
  have found := (distinct_of_run run).find_of_mem member
  have words := words_of_run run d
  constructor
  · rw [linked.flags.set item.key item found d]
    exact (linked.shape d).waitSet_iff words
  · rw [linked.flags.get item.key item found d]
    exact (linked.shape d).waitGet_iff words

/-- A client that waits for a record is flagged in it. -/
theorem present_of_run (run : (protocol N).Run wordKeys trace cfg)
    (blocked : (cfg.clients d).BlockedInSet k ∨ (cfg.clients d).BlockedInGet k) :
    ∃ item ∈ cfg.db, item.key = k := by
  have linked := linked_of_run run
  have shape := linked.shape d
  have words := words_of_run run d
  have needed : needs ((cfg.locks trace).pos d) = some k := by
    change needs (cfg.clients d).pos = some k
    rcases blocked with inSet | inGet
    · rw [(shape.waitSet_iff words).mpr inSet, needs]
    · rw [(shape.waitGet_iff words).mpr inGet, needs]
  have present := linked.account.present d k needed
  change (cfg.db.find k).map Item.lock ≠ none at present
  cases found : cfg.db.find k with
  | none =>
      rw [found] at present
      exact absurd rfl present
  | some item => exact ⟨item, FirstMatch.mem_of_find found, Database.key_of_find found⟩

/-- A client is flagged in one entry of the database at most. -/
theorem flagged_once (run : (protocol N).Run wordKeys trace cfg) (d : Fin N) :
    cfg.db.countP (fun item => item.clientSet d) +
      cfg.db.countP (fun item => item.clientGet d) ≤ 1 := by
  have distinct := distinct_of_run run
  have sets : cfg.db.countP (fun item => item.clientSet d) ≤ 1 := by
    refine FirstMatch.countP_le_one distinct fun x memberX y memberY flaggedX flaggedY => ?_
    obtain ⟨key, value, about, own⟩ := (flags_of_run run memberX d).1.mp flaggedX
    obtain ⟨key', value', about', own'⟩ := (flags_of_run run memberY d).1.mp flaggedY
    cases own.symm.trans own'
    rw [← about, about']
  have gets : cfg.db.countP (fun item => item.clientGet d) ≤ 1 := by
    refine FirstMatch.countP_le_one distinct fun x memberX y memberY flaggedX flaggedY => ?_
    obtain ⟨key, about, own⟩ := (flags_of_run run memberX d).2.mp flaggedX
    obtain ⟨key', about', own'⟩ := (flags_of_run run memberY d).2.mp flaggedY
    cases own.symm.trans own'
    rw [← about, about']
  -- a client that is blocked in a set is not blocked in a get
  by_cases someSet : ∃ x ∈ cfg.db, x.clientSet d = true
  · obtain ⟨x, memberX, flaggedX⟩ := someSet
    obtain ⟨key, value, -, own⟩ := (flags_of_run run memberX d).1.mp flaggedX
    have noGet : cfg.db.countP (fun item => item.clientGet d) = 0 := by
      rw [List.countP_eq_zero]
      intro y memberY flaggedY
      obtain ⟨key', -, own'⟩ := (flags_of_run run memberY d).2.mp flaggedY
      cases own.symm.trans own'
    omega
  · have noSet : cfg.db.countP (fun item => item.clientSet d) = 0 := by
      rw [List.countP_eq_zero]
      exact fun x memberX flaggedX => someSet ⟨x, memberX, flaggedX⟩
    omega

/-- Whoever is answered waits for an answer and has none yet: the request is its own, or
it is blocked on the key of the request. -/
theorem answered_waits (run : (protocol N).Run wordKeys trace cfg) {addr : UInt64}
    {rkey : UInt32} (next : cfg.next (.serve c addr rkey) = some (cfg', events))
    (answered : (cfg'.clients d).replies ≠ (cfg.clients d).replies) :
    (cfg.clients d).phase.awaits = true ∧ (cfg.clients d).replies = [] ∧
      ∃ r, cfg.nextRequest c = some r ∧ (d = c ∨ (cfg.clients d).BlockedInSet r.key ∨
        (cfg.clients d).BlockedInGet r.key) := by
  have linked := linked_of_run run
  have shape := linked.shape d
  have words := words_of_run run d
  obtain ⟨buf, rest, queue, -, -, ⟨-, rfl, -⟩ | ⟨ret, w, served, rfl, -⟩⟩ :=
    Config.next_serve next
  · exact absurd rfl answered
  · obtain ⟨rfl, r, parsed, -⟩ := linked.serve queue served
    have asked := Config.nextRequest_eq queue parsed
    rcases eq_or_ne d c with rfl | other
    · -- its own request was under way
      have sends := linked.sends asked
      refine ⟨(shape.awaits_of_queue queue).1, ?_, r, asked, .inl rfl⟩
      generalize cfg.clients d = cl at sends
      cases sends <;> rfl
    · rw [parseData, parsed] at served
      have sent := linked.sent_other (handle_effect addr rkey served) other
      have reached : sentTo d w.sent ≠ [] := by
        intro nothing
        change (cfg.clients d).replies ++ sentTo d w.sent ≠ _ at answered
        rw [nothing, List.append_nil] at answered
        exact answered rfl
      rcases sent.resolve_left reached with inSet | inGet
      · obtain ⟨key, value, -, own⟩ := shape.waitSet inSet
        exact ⟨by rw [own]; rfl, by rw [own], r, asked,
          .inr (.inl ((shape.waitSet_iff words).mp inSet))⟩
      · obtain ⟨key, -, own⟩ := shape.waitGet inGet
        exact ⟨by rw [own]; rfl, by rw [own], r, asked,
          .inr (.inr ((shape.waitGet_iff words).mp inGet))⟩

/-- The waiting arrays are exact. In every reachable state a client is flagged in a node
if and only if it is blocked on the key of the node, and it is flagged once at most. A
handled request answers its own client and the clients that are blocked on its key, all
of which wait for an answer and have none yet. -/
theorem waiting_of_run (run : (protocol N).Run wordKeys trace cfg) :
    (∀ item ∈ cfg.db, ∀ d, (item.clientSet d = true ↔ (cfg.clients d).BlockedInSet item.key) ∧
        (item.clientGet d = true ↔ (cfg.clients d).BlockedInGet item.key)) ∧
      (∀ d k, (cfg.clients d).BlockedInSet k ∨ (cfg.clients d).BlockedInGet k →
        ∃ item ∈ cfg.db, item.key = k) ∧
      (∀ d, cfg.db.countP (fun item => item.clientSet d) +
        cfg.db.countP (fun item => item.clientGet d) ≤ 1) ∧
      ∀ c addr rkey cfg' events d, cfg.next (.serve c addr rkey) = some (cfg', events) →
        (cfg'.clients d).replies ≠ (cfg.clients d).replies →
        (cfg.clients d).phase.awaits = true ∧ (cfg.clients d).replies = [] ∧
          ∃ r, cfg.nextRequest c = some r ∧ (d = c ∨ (cfg.clients d).BlockedInSet r.key ∨
            (cfg.clients d).BlockedInGet r.key) :=
  ⟨fun _ member d => flags_of_run run member d, fun _ _ blocked => present_of_run run blocked,
    flagged_once run, fun _ _ _ _ _ _ next answered => answered_waits run next answered⟩

end Waiting

/-- Client 0 is inside a set; client 1 waits to set the same key and client 2 to get it. -/
theorem waiting_beside_set : ∃ trace, ∃ cfg : Config 3, (protocol 3).Run wordKeys trace cfg ∧
    ∃ item ∈ cfg.db, (cfg.clients 1).BlockedInSet item.key ∧
      (cfg.clients 2).BlockedInGet item.key := by
  obtain ⟨trace, cfg, run, ends⟩ := Machine.Run.of_exec (protocol 3) wordKeys
    [.invoke 0 (.kvSet keyK valueV), .serve 0 0 0, .invoke 1 (.kvSet keyK valueV),
      .invoke 2 (.kvGet keyK), .serve 1 0 0, .serve 2 0 0]
    (fun _ cfg => cfg.db.any fun item => item.clientSet 1 && item.clientGet 2)
    (by decide +kernel)
  obtain ⟨item, member, flagged⟩ := List.any_eq_true.mp ends
  rw [Bool.and_eq_true] at flagged
  have exact := (waiting_of_run run).1 item member
  exact ⟨trace, cfg, run, item, member, (exact 1).1.mp flagged.1, (exact 2).2.mp flagged.2⟩

end RdmaWiki
