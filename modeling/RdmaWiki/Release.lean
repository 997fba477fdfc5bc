import RdmaWiki.Ready

/-!
Whether the locks of a record are released when no call on it is in progress.

A deferred get is counted as a reader by `server_pending` when it is granted
and by `get_value` when its `g0` is handled, and uncounted once. So after the
calls on a record have returned its reader count is exactly the number of its
gets that had to wait (`released_iff`), and one such get keeps the record from
ever being released (`locks_not_released`).
-/

namespace RdmaWiki

open CText StepMachine Locks

/-- Unlocked, with nobody counted and nobody waiting. -/
def Item.Released {N : ℕ} (item : Item N) : Prop :=
  item.isSet = false ∧ item.numInGet = 0 ∧ (∀ d, item.clientSet d = false) ∧
    ∀ d, item.clientGet d = false

/-- No call on the record `k` is in progress. -/
def Config.Quiescent {N : ℕ} (cfg : Config N) (k : Bytes) : Prop :=
  ∀ d, (cfg.clients d).record ≠ some k

/-- A record on which nobody is inside a set or reads: it is unlocked and its
count is the number of gets granted after waiting. -/
theorem Locks.lock_of_idle {N : ℕ} {K : Type} [DecidableEq K] {s : Locks N K} {k : K}
    {l : Lock} (account : s.Account) (exclusive : s.Exclusive) (found : s.lock k = some l)
    (idle : ∀ d, (s.pos d).key ≠ some k) : l.isSet = false ∧ l.numInGet = s.woken k := by
  constructor
  · rw [Bool.eq_false_iff]
    intro locked
    obtain ⟨d, inside⟩ := (exclusive.locked k l found).mp locked
    exact idle d (by rw [inside, Pos.key])
  · have nobody : s.readers k = ∅ := by
      apply Finset.eq_empty_of_forall_notMem
      intro d reads
      exact idle d (by rw [mem_readers.mp reads, Pos.key])
    have balanced := account.balance k l found
    rw [nobody] at balanced
    simpa using balanced

section Runs

variable {trace : List (Event numClients)} {cfg : Config numClients}

/-- In every reachable state, a record without a call in progress is released
exactly when no get of it was granted after waiting. -/
theorem released_iff (run : (protocol numClients).Run wordKeys trace cfg) {k : Bytes}
    {item : Item numClients} (found : cfg.db.find k = some item)
    (quiescent : cfg.Quiescent k) : item.Released ↔ deferredGets k trace = 0 := by
  have linked := linked_of_run run
  have idle : ∀ d, ((cfg.locks trace).pos d).key ≠ some k :=
    fun d about => quiescent d (Client.record_of_pos about)
  have locked := Config.lock_of_find trace found
  obtain ⟨unlocked, count⟩ :=
    Locks.lock_of_idle linked.account (exclusive_of_run run) locked idle
  have noSetter : ∀ d, item.clientSet d = false := by
    intro d
    rw [Bool.eq_false_iff, Ne, linked.flags.set k item found d]
    intro waits
    exact idle d (by rw [waits, Pos.key])
  have noGetter : ∀ d, item.clientGet d = false := by
    intro d
    rw [Bool.eq_false_iff, Ne, linked.flags.get k item found d]
    intro waits
    exact idle d (by rw [waits, Pos.key])
  change item.numInGet = (deferredGets k trace : Int) at count
  constructor
  · intro released
    have zero := released.2.1
    omega
  · intro noneDeferred
    exact ⟨unlocked, by omega, noSetter, noGetter⟩

end Runs

/-- The set alone leaves a released record. -/
theorem released_iff_after_set : ∃ trace cfg, ∃ item : Item numClients,
    (protocol numClients).Run wordKeys trace cfg ∧
      (item.Released ↔ deferredGets keyK.bytes trace = 0) := by
  obtain ⟨trace, cfg, run, ends⟩ := Machine.Run.of_exec (protocol numClients) wordKeys
    [.invoke 0 (.kvSet keyK valueV), .serve 0 0 0, .proceed 0, .serve 0 1 0, .proceed 0]
    (fun _ cfg => (cfg.db.find keyK.bytes).isSome &&
      decide (∀ d, (cfg.clients d).record ≠ some keyK.bytes)) (by decide +kernel)
  rw [Bool.and_eq_true, decide_eq_true_iff, Option.isSome_iff_exists] at ends
  obtain ⟨⟨item, found⟩, quiescent⟩ := ends
  exact ⟨trace, cfg, item, run, released_iff run found quiescent⟩

/-- After a get that had to wait, the record keeps a reader although no call is in
progress. -/
theorem locks_not_released : ¬ ∀ trace cfg,
    (protocol numClients).Run wordKeys trace cfg → cfg.up = true →
      ∀ k item, cfg.db.find k = some item → cfg.Quiescent k → item.Released := by
  intro allReleased
  obtain ⟨trace, cfg, run, ends⟩ := Machine.Run.of_exec (protocol numClients) wordKeys
    waitingGetSchedule
    (fun _ cfg => cfg.up && (cfg.db.find keyK.bytes).any (fun item => item.numInGet == 1) &&
      decide (∀ d, (cfg.clients d).record ≠ some keyK.bytes)) (by decide +kernel)
  rw [Bool.and_eq_true, Bool.and_eq_true, decide_eq_true_iff, Option.any_eq_true] at ends
  obtain ⟨⟨up, item, found, counted⟩, quiescent⟩ := ends
  have released := allReleased trace cfg run up keyK.bytes item found quiescent
  rw [released.2.1] at counted
  cases counted

end RdmaWiki
