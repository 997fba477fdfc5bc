import RdmaWiki.Failures

/-!
The two places where the server grants: `server_pending` to clients that wait, and
`server_set_Ask` to a client that asks.

`server_pending` answers a client that waits once, and nobody else
(`serverPending_answers`). An `as` that is granted locks the record in passing, by a
`set_item` whose result is not looked at, so the lock is taken exactly when no library call
fails there (`setAsk_locks_iff`); it stays until a request that ends a set of the key.
-/

namespace RdmaWiki

open CText

variable {N : ℕ}

/-! ## `server_pending` -/

section Pending

variable {env : Env N} {w : World N} {key : Bytes} {item : Item N} {d : Fin N}

theorem Item.mem_waitingSetters : d ∈ item.waitingSetters ↔ item.clientSet d = true := by
  simp [Item.waitingSetters]

theorem Item.mem_waitingGetters : d ∈ item.waitingGetters ↔ item.clientGet d = true := by
  simp [Item.waitingGetters]

theorem Item.waitingSetters_nodup (item : Item N) : item.waitingSetters.Nodup :=
  (List.nodup_finRange N).filter _

theorem Item.waitingGetters_nodup (item : Item N) : item.waitingGetters.Nodup :=
  (List.nodup_finRange N).filter _

theorem Item.nobody_waits_iff : item.waitingSetters = [] ↔ ∀ d, item.clientSet d = false := by
  rw [List.eq_nil_iff_forall_not_mem]
  simp only [Item.mem_waitingSetters, Bool.not_eq_true]

theorem Item.length_waitingGetters (item : Item N) :
    item.waitingGetters.length = (Finset.univ.filter fun d => item.clientGet d = true).card := by
  rw [← List.toFinset_card_of_nodup item.waitingGetters_nodup]
  congr 1
  ext d
  simp [Item.mem_waitingGetters]

/-- The client that is granted a set is the first of those that wait. -/
theorem Item.lowest_of_head {first : Fin N} {rest : List (Fin N)}
    (waiting : item.waitingSetters = first :: rest) :
    item.clientSet first = true ∧ ∀ d < first, item.clientSet d = false := by
  have sorted : item.waitingSetters.Pairwise (· < ·) :=
    (List.pairwise_lt_finRange N).filter _
  rw [waiting, List.pairwise_cons] at sorted
  constructor
  · rw [← Item.mem_waitingSetters, waiting]
    exact List.mem_cons_self
  · intro d before
    rw [← Bool.not_eq_true, ← Item.mem_waitingSetters, waiting, List.mem_cons]
    rintro (rfl | later)
    · exact lt_irrefl _ before
    · exact lt_asymm before (sorted.1 d later)

/-- `server_pending` when all sends succeed. Waiting setters are answered once each, the first
one with an ACK and the others with a NACK, and the getters go on waiting; where no setter
waits, the waiting getters are counted and answered with an ACK. The count is that of C as long
as it has room in an `int`. -/
theorem serverPending_answers (found : w.db.find key = some item)
    (posts : ∀ i, env.postSend i = true) :
    ∃ w' replies, serverPending env w key = some (.exitSuccess, w') ∧
      w'.sent = w.sent ++ replies ∧ w'.mem = w.mem ∧
      (∀ k, k ≠ key → w'.db.find k = w.db.find k) ∧
      ((∃ d, item.clientSet d = true) → ∃ first, item.clientSet first = true ∧
        (∀ d < first, item.clientSet d = false) ∧
        (∀ d, sentTo d replies =
          if d = first then [.ack] else if item.clientSet d = true then [.nack] else []) ∧
        w'.db.find key = some { item with isSet := true, clientSet := fun _ => false }) ∧
      ((∀ d, item.clientSet d = false) →
        (∀ d, sentTo d replies = if item.clientGet d = true then [.ack] else []) ∧
        w'.db.find key = some { item with
          numInGet := item.numInGet + (Finset.univ.filter fun d => item.clientGet d = true).card
          clientGet := fun _ => false }) := by
  obtain ⟨ret, w', pending, sends⟩ := serverPending_spec env found
  obtain ⟨rfl, becomes⟩ := sends.of_posts fun _ _ => posts _
  refine ⟨w', item.wakeReplies, pending, becomes.sent, becomes.mem, ?_, ?_, ?_⟩
  · intro k other
    rw [becomes.find, Function.update_of_ne other]
  · intro someone
    have waits : item.waitingSetters ≠ [] := by
      rw [ne_eq, Item.nobody_waits_iff, not_forall]
      simpa using someone
    cases waiting : item.waitingSetters with
    | nil => exact absurd waiting waits
    | cons first rest =>
        obtain ⟨set, lowest⟩ := Item.lowest_of_head waiting
        refine ⟨first, set, lowest, fun d => ?_, ?_⟩
        · rw [Item.wakeReplies, if_neg waits, sentTo_setterReplies item.waitingSetters_nodup,
            waiting, List.head?_cons, ← waiting]
          simp only [Option.some.injEq, Item.mem_waitingSetters, eq_comm]
        · rw [becomes.find_self, Item.woken, if_neg waits]
  · intro nobody
    have waits : item.waitingSetters = [] := Item.nobody_waits_iff.mpr nobody
    constructor
    · intro d
      rw [Item.wakeReplies, if_pos waits, sentTo_map item.waitingGetters_nodup]
      simp only [Item.mem_waitingGetters]
    · rw [becomes.find_self, Item.woken, if_pos waits, Item.length_waitingGetters]

/-- Of three clients, 1 and 2 wait to set and 0 waits to get. -/
theorem pending_grants_first_of_two : ∃ w' replies,
    serverPending (.reliable 3 0 0)
        ⟨[⟨[107], none, false, 0, fun d => d ≠ 0, fun d => d = 0⟩],
          ⟨fun _ => none, fun _ => none⟩, []⟩ [107] = some (.exitSuccess, w') ∧
      w'.sent = replies ∧ sentTo 1 replies = [.ack] ∧ sentTo 2 replies = [.nack] ∧
      sentTo 0 replies = [] := by
  obtain ⟨w', replies, pending, sent, -, -, setters, -⟩ :=
    @serverPending_answers 3 (.reliable 3 0 0)
      ⟨[⟨[107], none, false, 0, fun d => d ≠ 0, fun d => d = 0⟩],
        ⟨fun _ => none, fun _ => none⟩, []⟩ [107]
      ⟨[107], none, false, 0, fun d => d ≠ 0, fun d => d = 0⟩ rfl (fun _ => rfl)
  obtain ⟨first, set, lowest, answers, -⟩ := setters ⟨1, rfl⟩
  have one : first = 1 := by
    have notZero : first ≠ 0 := by
      rintro rfl
      simp at set
    have notTwo : first ≠ 2 := by
      rintro rfl
      simpa using lowest 1 (by decide)
    omega
  subst one
  exact ⟨w', replies, pending, sent, by simp [answers], by simp [answers], by simp [answers]⟩

end Pending

/-! ## `server_set_Ask` -/

/-- The request ends a set of `key`. -/
def Request.finishes (key : Bytes) : Request → Bool
  | .setFin k => k == key
  | .setEager k _ => k == key
  | _ => false

/-- A text is handled that does not end a set of `key`. -/
inductive HandledBeforeFin (key : Bytes) (w : World N) : World N → Prop
  | intro {env : Env N} {buf : Bytes} {c : Fin N} {ret : Ret} {w' : World N}
      (unfinished : ∀ r, parseRequest buf = .request r → r.finishes key = false)
      (served : parseData env w buf c = some (ret, w')) : HandledBeforeFin key w w'

section SetAsk

variable {env : Env N} {db : Database N} {w w' : World N} {key : Bytes} {item item' : Item N}
  {c : Fin N} {ret : Ret} {mem : Mem}

theorem Database.getInSet_of_find (found : db.find key = some item) :
    db.getInSet key = item.isSet := by
  simp only [Database.getInSet, found]

/-- Only a record is locked. -/
theorem Database.find_of_getInSet (locked : db.getInSet key = true) :
    ∃ item, db.find key = some item ∧ item.isSet = true := by
  cases found : db.find key with
  | none => simp [Database.getInSet, found] at locked
  | some item =>
      rw [Database.getInSet_of_find found] at locked
      exact ⟨item, rfl, locked⟩

theorem Database.invalid_of_getInSet (locked : db.getInSet key = true) :
    db.validSet key = false ∧ db.validGet key = false := by
  obtain ⟨item, found, set⟩ := Database.find_of_getInSet locked
  simp [Database.validSet, Database.validGet, found, set]

theorem World.Becomes.getInSet {replies : List (Fin N × Reply)}
    (becomes : w.Becomes w' key item mem replies) : w'.db.getInSet key = item.isSet :=
  Database.getInSet_of_find becomes.find_self

/-- A writer that keeps the lock. -/
theorem Database.getInSet_update {change : Item N → Item N}
    (keeps : ∀ item, (change item).key = item.key ∧ (change item).isSet = item.isSet)
    (locked : db.getInSet key = true) : (db.update key change).2.getInSet key = true := by
  obtain ⟨item, found, set⟩ := Database.find_of_getInSet locked
  have find := (Database.find_update (fun item => (keeps item).1) found).2
  have changed : (db.update key change).2.find key = some (change item) := by
    rw [find, Function.update_self]
  rw [Database.getInSet_of_find changed, (keeps item).2, set]

theorem Item.woken_isSet (locked : item.isSet = true) : item.woken.isSet = true := by
  unfold Item.woken
  split
  next => exact locked
  next => rfl

theorem Item.interrupted_isSet (locked : item.isSet = true) (j : ℕ) :
    (item.interrupted j).isSet = true := by
  unfold Item.interrupted
  split
  next => exact locked
  next => rfl

/-- An ACK changes neither the database nor the heap. -/
theorem sendAck_heap (env : Env N) (w : World N) (c : Fin N) :
    (sendAck env w c).2.db = w.db ∧ (sendAck env w c).2.mem = w.mem := by
  unfold sendAck
  split
  next => exact ⟨rfl, rfl⟩
  next => exact ⟨rfl, rfl⟩

/-- `server_pending` never unlocks. -/
theorem serverPending_getInSet (locked : w.db.getInSet key = true)
    (pending : serverPending env w key = some (ret, w')) : w'.db.getInSet key = true := by
  obtain ⟨item, found, set⟩ := Database.find_of_getInSet locked
  obtain ⟨ret₁, w₁, pending₁, sends⟩ := serverPending_spec env found
  rw [pending₁] at pending
  cases pending
  cases sends with
  | all posts becomes => rw [becomes.getInSet, Item.woken_isSet set]
  | cut within fails becomes => rw [becomes.getInSet, Item.interrupted_isSet set]

theorem serverGetFin_getInSet (locked : w.db.getInSet key = true)
    (handled : serverGetFin env w key c = some (ret, w')) : w'.db.getInSet key = true := by
  have uncounted : (w.db.removeNumInGet key).2.getInSet key = true :=
    Database.getInSet_update (fun _ => ⟨rfl, rfl⟩) locked
  simp only [serverGetFin] at handled
  split at handled
  next => cases handled
  next pending =>
    cases handled
    exact serverPending_getInSet uncounted pending
  next pending =>
    cases handled
    rw [(sendAck_heap env _ c).1]
    exact serverPending_getInSet uncounted pending

theorem parseDataG0_getInSet (locked : w.db.getInSet key = true)
    (handled : parseDataG0 env w key c = some (ret, w')) : w'.db.getInSet key = true := by
  obtain ⟨item, found, set⟩ := Database.find_of_getInSet locked
  have counted : (w.db.update key fun item =>
      { item with numInGet := item.numInGet + 1 }).2.getInSet key = true :=
    Database.getInSet_update (fun _ => ⟨rfl, rfl⟩) locked
  cases stored : item.value with
  | none =>
      simp only [parseDataG0, Database.getValue, found, stored] at handled
      cases handled
  | some value =>
      simp only [parseDataG0, Database.getValue, found, stored] at handled
      split at handled
      next =>
        unfold serverGetEager at handled
        split at handled
        next => cases handled
        next =>
          split at handled
          next posted =>
            cases handled
            rw [(sendDataStr_heap posted).1]
            exact counted
          next posted =>
            apply serverGetFin_getInSet _ handled
            rw [(sendDataStr_heap posted).1]
            exact counted
      next =>
        unfold serverGetRendezvous at handled
        split at handled
        next posted =>
          cases handled
          rw [(sendDataStr_heap posted).1]
          exact counted
        next posted =>
          split at handled
          next => cases handled
          next =>
            rw [Option.some.injEq] at handled
            rw [(sendDataStr_heap handled).1, (sendDataStr_heap posted).1]
            exact counted

/-- `set_item` locks the record, or leaves the list as it was. -/
theorem setItem_getInSet (locked : db.getInSet key = true) (mem : Mem) (value : Option Value) :
    (db.setItem env mem key value).2.1.getInSet key = true := by
  cases failed : db.setItemFails env key with
  | true =>
      rw [setItem_fails failed]
      exact locked
  | false =>
      obtain ⟨db', stored, find⟩ := setItem_succeeds failed mem value
      rw [stored]
      simp only [Database.getInSet, find, Function.update_self]

theorem serverSetRendezvous_getInSet {size : Int} (locked : w.db.getInSet key = true)
    (handled : serverSetRendezvous env w c key size = some (ret, w')) :
    w'.db.getInSet key = true := by
  unfold serverSetRendezvous at handled
  split at handled
  next => cases handled
  next =>
    split at handled
    next => cases handled
    next =>
      simp only at handled
      split at handled
      next =>
        cases handled
        exact locked
      next =>
        split at handled
        next posted =>
          cases handled
          rw [(sendDataStr_heap posted).1]
          exact locked
        next posted =>
          split at handled
          next =>
            cases handled
            rw [(sendDataStr_heap posted).1]
            exact locked
          next =>
            cases handled
            apply setItem_getInSet
            rw [(sendDataStr_heap posted).1]
            exact locked

/-- A locked record stays locked until a request ends a set of its key. -/
theorem handle_getInSet {r : Request} (locked : w.db.getInSet key = true)
    (unfinished : r.finishes key = false) (handled : handle env w c r = some (ret, w')) :
    w'.db.getInSet key = true := by
  rcases eq_or_ne r.key key with same | other
  · cases r with
    | setAsk k =>
        obtain rfl : k = key := same
        have invalid := (Database.invalid_of_getInSet locked).1
        simp only [handle, serverSetAsk, invalid, if_true, Option.some.injEq] at handled
        rw [← (Prod.mk.inj handled).2]
        exact Database.getInSet_update (fun _ => ⟨rfl, rfl⟩) locked
    | setEager k value =>
        obtain rfl : k = key := same
        simp [Request.finishes] at unfinished
    | setRendezvous k size =>
        obtain rfl : k = key := same
        exact serverSetRendezvous_getInSet locked handled
    | setFin k =>
        obtain rfl : k = key := same
        simp [Request.finishes] at unfinished
    | getAsk k =>
        obtain rfl : k = key := same
        have invalid := (Database.invalid_of_getInSet locked).2
        simp only [handle, serverGetAsk, invalid, if_true, Option.some.injEq] at handled
        rw [← (Prod.mk.inj handled).2]
        exact Database.getInSet_update (fun _ => ⟨rfl, rfl⟩) locked
    | get k =>
        obtain rfl : k = key := same
        exact parseDataG0_getInSet locked handled
    | getFin k =>
        obtain rfl : k = key := same
        exact serverGetFin_getInSet locked handled
  · unfold Database.getInSet
    rw [handle_elsewhere other.symm handled]
    exact locked

theorem HandledBeforeFin.getInSet (step : HandledBeforeFin key w w')
    (locked : w.db.getInSet key = true) : w'.db.getInSet key = true := by
  obtain ⟨unfinished, served⟩ := step
  unfold parseData at served
  split at served
  next => cases served
  next =>
    cases served
    exact locked
  next r parsed => exact handle_getInSet locked (unfinished r parsed) served

/-- Nobody is granted the key while its lock is taken and no request ends the set. -/
theorem invalid_before_fin (locked : w.db.getInSet key = true)
    (later : Relation.ReflTransGen (HandledBeforeFin key) w w') :
    w'.db.validSet key = false ∧ w'.db.validGet key = false := by
  apply Database.invalid_of_getInSet
  induction later with
  | refl => exact locked
  | tail _ step ih => exact step.getInSet ih

/-- A granted set holds the lock, and the old value is gone, until the FIN: exactly when no
library call fails in the `set_item` that takes the lock. -/
theorem setAsk_locks_iff (granted : serverSetAsk env w key c = (ret, w'))
    (sent : w'.sent = w.sent ++ [(c, .ack)]) :
    ((∃ item, w'.db.find key = some item ∧ item.isSet = true ∧ item.value = none) ∧
      w'.mem = w.mem.release ((w.db.find key).bind Item.value) ∧
      ∀ w'', Relation.ReflTransGen (HandledBeforeFin key) w' w'' →
        w''.db.validSet key = false ∧ w''.db.validGet key = false) ↔
    w.db.setItemFails env key = false := by
  have valid : w.db.validSet key = true := by
    by_contra invalid
    rw [Bool.not_eq_true] at invalid
    simp only [serverSetAsk, invalid, if_true, Prod.mk.injEq] at granted
    rw [← granted.2] at sent
    simp at sent
  simp only [serverSetAsk, valid, Bool.true_eq_false, if_false] at granted
  cases failed : w.db.setItemFails env key with
  | true =>
      rw [setItem_fails failed] at granted
      have same : w'.db = w.db := by
        have kept := (sendAck_heap env w c).1
        rw [granted] at kept
        exact kept
      constructor
      · rintro ⟨-, -, holds⟩
        have invalid := (holds w' .refl).1
        rw [same, valid] at invalid
        cases invalid
      · intro fine
        cases fine
  | false =>
      obtain ⟨db, stored, find⟩ := setItem_succeeds failed w.mem none
      rw [stored] at granted
      have same : w'.db = db := by
        have kept := (sendAck_heap env ⟨db, w.mem.release (w.db.recordOr env.junk key).value,
          w.sent⟩ c).1
        rw [granted] at kept
        exact kept
      have released : w'.mem = w.mem.release ((w.db.find key).bind Item.value) := by
        have kept := (sendAck_heap env ⟨db, w.mem.release (w.db.recordOr env.junk key).value,
          w.sent⟩ c).2
        rw [granted] at kept
        rw [← recordOr_value env.junk key]
        exact kept
      have found : w'.db.find key =
          some { w.db.recordOr env.junk key with value := none, isSet := true } := by
        rw [same, find, Function.update_self]
      refine iff_of_true ⟨⟨_, found, rfl, rfl⟩, released, fun w'' later => ?_⟩ rfl
      exact invalid_before_fin (Database.getInSet_of_find found) later

/-- The first set of a key, when no call fails. -/
theorem setAsk_locks_empty : ∃ w' : World 2,
    serverSetAsk (.reliable 2 0 0) ⟨[], ⟨fun _ => none, fun _ => none⟩, []⟩ [107] 0 =
        (.exitSuccess, w') ∧
      ∀ w'', Relation.ReflTransGen (HandledBeforeFin [107]) w' w'' →
        w''.db.validSet [107] = false ∧ w''.db.validGet [107] = false :=
  ⟨_, rfl, ((setAsk_locks_iff (N := 2) (c := 0)
    (w := ⟨[], ⟨fun _ => none, fun _ => none⟩, []⟩)
    (rfl : serverSetAsk (.reliable 2 0 0) _ [107] 0 = _) rfl).mpr rfl).2.2⟩

/-- The record of the key cannot be allocated, and the set is granted all the same: the next
ask is granted, too. -/
theorem setAsk_grants_unlocked : ∃ w' w'' : World 2,
    serverSetAsk { Env.reliable 2 0 0 with mallocItem := false }
        ⟨[], ⟨fun _ => none, fun _ => none⟩, []⟩ [107] 0 = (.exitSuccess, w') ∧
      w'.sent = [(0, .ack)] ∧ w'.db.find [107] = none ∧ w'.db.validSet [107] = true ∧
      w'.db.validGet [107] = true ∧
      serverSetAsk { Env.reliable 2 0 0 with mallocItem := false } w' [107] 1 =
        (.exitSuccess, w'') ∧
      w''.sent = [(0, .ack), (1, .ack)] :=
  ⟨_, _, rfl, rfl, rfl, rfl, rfl, rfl, rfl⟩

end SetAsk

end RdmaWiki
