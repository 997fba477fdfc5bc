import RdmaWiki.Ready

/-!
The two places that grant a set.

`server_set_Ask` asks `valid_set` first; `server_pending` grants the first
waiting setter without asking. `pendingWorld` is the world in which a handler
calls `server_pending`, and `valid_set` holds in it exactly when the other
clients are neither inside a set of the key nor reading it and no get of it was
ever granted after waiting (`deferred_grant_valid_iff`). Nothing in the code
keeps that so (`deferred_grant_not_valid`).
-/

namespace RdmaWiki

open CText StepMachine Locks

variable {N : ℕ}

/-- The world in which the handler of a request calls `server_pending`, with the
key it passes. -/
def pendingWorld (env : Env N) (w : World N) (clientIdx : Fin N) :
    Request → Option (World N × Bytes)
  | .setEager key value =>
    match env.mallocBytes with
    | none => none
    | some addr =>
      if env.mallocValue = false then none
      else
        match w.db.setItem env (w.mem.alloc addr (value ++ [0])) key
            (some ⟨addr, value.length, false, none⟩) with
        | (.exitFailure, _, _) => none
        | (.exitSuccess, db, mem) =>
          some ({ w with db := (db.removeInSet key).2, mem := mem }, key)
  | .setFin key => some ({ w with db := (w.db.removeInSet key).2 }, key)
  | .get key =>
    match w.db.getValue key with
    | some (some value, db) =>
      if value.isLarge = false then
        match w.mem.block value.value with
        | none => none
        | some bytes =>
          match sendDataStr env { w with db := db } clientIdx (.eager (text bytes)) with
          | (.exitFailure, _) => none
          | (.exitSuccess, w) => some ({ w with db := (w.db.removeNumInGet key).2 }, key)
      else none
    | _ => none
  | .getFin key => some ({ w with db := (w.db.removeNumInGet key).2 }, key)
  | _ => none

/-- What a handler does after `server_pending`. -/
def afterPending (env : Env N) (clientIdx : Fin N) :
    Option (Ret × World N) → Option (Ret × World N)
  | none => none
  | some (.exitFailure, w) => some (.exitFailure, w)
  | some (.exitSuccess, w) => some (.exitSuccess, (sendAck env w clientIdx).2)

/-- A handler with a `pendingWorld` is its call of `server_pending` there, and the
final ACK. -/
theorem handle_of_pendingWorld {env : Env N} {w w' : World N} {c : Fin N} {r : Request}
    {key : Bytes} (pending : pendingWorld env w c r = some (w', key)) :
    handle env w c r = afterPending env c (serverPending env w' key) := by
  have setFin {w : World N} :
      serverSetFin env w key c =
        afterPending env c (serverPending env { w with db := (w.db.removeInSet key).2 } key) := by
    unfold serverSetFin afterPending
    rfl
  have getFin {w : World N} :
      serverGetFin env w key c = afterPending env c
        (serverPending env { w with db := (w.db.removeNumInGet key).2 } key) := by
    unfold serverGetFin afterPending
    rfl
  cases r with
  | setAsk k => cases pending
  | setRendezvous k size => cases pending
  | getAsk k => cases pending
  | setFin k => cases pending; exact setFin
  | getFin k => cases pending; exact getFin
  | setEager k value =>
      simp only [pendingWorld] at pending
      split at pending
      next => cases pending
      next addr bytes =>
        split at pending
        next => cases pending
        next struct =>
          split at pending
          next => cases pending
          next db mem stored =>
            cases pending
            simp only [handle, parseDataSe, bytes, serverSetEager, struct, stored]
            exact setFin
  | get k =>
      simp only [pendingWorld] at pending
      split at pending
      next value db counted =>
        split at pending
        next small =>
          split at pending
          next => cases pending
          next bytes block =>
            split at pending
            next => cases pending
            next w₁ sent =>
              cases pending
              simp only [handle, parseDataG0, counted, small, if_true, serverGetEager, block, sent]
              exact getFin
        next => cases pending
      next => cases pending

/-- The others let a waiting setter of `k` be granted when `c` leaves the record:
none is inside a set of it or reads it, and no get of it was granted after
waiting. -/
def Config.ClearToGrant (trace : List (Event N)) (cfg : Config N) (c : Fin N) (k : Bytes) :
    Prop :=
  (∀ d, d ≠ c → (cfg.clients d).pos ≠ .inSet k ∧ (cfg.clients d).pos ≠ .reading k) ∧
    deferredGets k trace = 0

instance (trace : List (Event N)) (cfg : Config N) (c : Fin N) (k : Bytes) :
    Decidable (cfg.ClearToGrant trace c k) := inferInstanceAs (Decidable (_ ∧ _))

/-- A request that serves a waiting setter is handled when the others let it. -/
def clearGrants : Guard (Config N) (Action N) (Event N) := fun trace cfg action =>
  match finishes (cfg.ask action) with
  | none => True
  | some k =>
    (∃ d, (cfg.clients d).pos = .waitSet k) → cfg.ClearToGrant trace action.client k

instance (trace : List (Event N)) (cfg : Config N) (action : Action N) :
    Decidable (clearGrants trace cfg action) := by
  unfold clearGrants
  split <;> infer_instance

/-- Handling the next request of `c` calls `server_pending` on `k` in the world `w`,
where a setter waits for `k`. -/
def Config.WakesSetter (cfg : Config N) (c : Fin N) (addr : UInt64) (rkey : UInt32)
    (w : World N) (k : Bytes) : Prop :=
  ∃ r item, cfg.nextRequest c = some r ∧
    pendingWorld (.reliable N addr rkey) ⟨cfg.db, cfg.mem, []⟩ c r = some (w, k) ∧
    w.db.find k = some item ∧ item.waitingSetters ≠ []

section Grants

variable {trace : List (Event N)} {cfg : Config N} {c : Fin N} {addr : UInt64}
  {rkey : UInt32} {w : World N} {k : Bytes} {r : Request}

/-- The record in the world where `server_pending` is called is the one that the
client leaves. -/
theorem Linked.pending (linked : Linked trace cfg) (sends : (cfg.clients c).Sends r)
    (pending : pendingWorld (.reliable N addr rkey) ⟨cfg.db, cfg.mem, []⟩ c r = some (w, k)) :
    ∃ item, w.db.find k = some item ∧
      Leaves c (cfg.locks trace) (cfg.askOf r) k item.lock ∧
      ∀ d, item.clientSet d = true ↔ (cfg.locks trace).pos d = .waitSet k := by
  generalize own : cfg.clients c = cl at sends
  cases sends with
  | setAsk named => cases pending
  | setRendezvous named large => cases pending
  | getAsk named => cases pending
  | @setEager key value k v named eager =>
      have inside := Config.pos_own trace own (Client.pos_eq named rfl rfl)
      obtain ⟨db, stored, find⟩ := setItem_reliable addr rkey
        ⟨cfg.db, cfg.mem.alloc addr (v ++ [0]), []⟩ k (some ⟨addr, v.length, false, none⟩)
      simp only [Env.reliable] at stored
      simp only [pendingWorld, Env.reliable, Bool.true_eq_false, if_false, stored,
        Option.some.injEq, Prod.mk.injEq] at pending
      obtain ⟨rfl, rfl⟩ := pending
      have held : db.find k = some { cfg.db.record k with
          value := some ⟨addr, v.length, false, none⟩, isSet := true } := by
        rw [find, Function.update_self]
      obtain ⟨-, found⟩ := Database.find_update
        (fun _ => rfl : ∀ item : Item N, { item with isSet := false }.key = item.key) held
      exact ⟨{ cfg.db.record k with
          value := some ⟨addr, v.length, false, none⟩, isSet := false },
        by rw [Database.removeInSet, found, Function.update_self],
        .setFin inside (linked.record_lock (by rw [inside]; rfl)), (linked.record_flags k).1⟩
  | @setFin key value k named large =>
      have inside := Config.pos_own trace own (Client.pos_eq named rfl rfl)
      cases pending
      have held := linked.record_lock (by rw [inside]; rfl)
      obtain ⟨item, found, same⟩ := Option.map_eq_some_iff.mp held
      obtain ⟨-, updated⟩ := Database.find_update
        (fun _ => rfl : ∀ item : Item N, { item with isSet := false }.key = item.key) found
      exact ⟨{ item with isSet := false },
        by rw [Database.removeInSet, updated, Function.update_self],
        .setFin inside (Config.lock_of_find trace found), linked.flags.set k item found⟩
  | @get key k named =>
      have entered := Config.pos_own trace own (Client.pos_eq named rfl rfl)
      cases found : cfg.db.find k with
      | none => simp [pendingWorld, Database.getValue, found] at pending
      | some item =>
          cases stored : item.value with
          | none => simp [pendingWorld, Database.getValue, found, stored] at pending
          | some value =>
              simp only [pendingWorld, Database.getValue, found, stored] at pending
              split at pending
              next small =>
                split at pending
                next => cases pending
                next bytes block =>
                  simp only [sendDataStr_reliable, Option.some.injEq, Prod.mk.injEq] at pending
                  obtain ⟨rfl, rfl⟩ := pending
                  have asks : cfg.askOf (.get k) = .getEager k := by
                    simp only [Config.askOf, found, Option.bind_some, stored, small, if_true]
                  obtain ⟨-, counted⟩ := Database.find_update
                    (fun _ => rfl : ∀ item : Item N,
                      { item with numInGet := item.numInGet + 1 }.key = item.key) found
                  have held : (cfg.db.update k fun item =>
                      { item with numInGet := item.numInGet + 1 }).2.find k =
                        some { item with numInGet := item.numInGet + 1 } := by
                    rw [counted, Function.update_self]
                  obtain ⟨-, uncounted⟩ := Database.find_update
                    (fun _ => rfl : ∀ item : Item N,
                      { item with numInGet := item.numInGet - 1 }.key = item.key) held
                  have balanced : { item with numInGet := item.numInGet + 1 - 1 } = item := by
                    rw [Int.add_sub_cancel]
                  refine ⟨item, ?_, ?_, linked.flags.set k item found⟩
                  · rw [Database.removeNumInGet, uncounted, Function.update_self]
                    exact congrArg some balanced
                  · rw [asks]
                    exact .getEager entered (Config.lock_of_find trace found)
              next => cases pending
  | @getFin key k v named =>
      have reads := Config.pos_own trace own (Client.pos_eq named rfl rfl)
      cases pending
      have held := linked.record_lock (by rw [reads]; rfl)
      obtain ⟨item, found, same⟩ := Option.map_eq_some_iff.mp held
      obtain ⟨-, updated⟩ := Database.find_update
        (fun _ => rfl : ∀ item : Item N,
          { item with numInGet := item.numInGet - 1 }.key = item.key) found
      exact ⟨{ item with numInGet := item.numInGet - 1 },
        by rw [Database.removeNumInGet, updated, Function.update_self],
        .getFin reads (Config.lock_of_find trace found), linked.flags.set k item found⟩

theorem exclusive_of_clear (run : (protocol N).Run clearGrants trace cfg) :
    (cfg.locks trace).Exclusive := by
  refine run.invariant (fun trace cfg => (cfg.locks trace).Exclusive) ?_ ?_
  · exact ⟨fun _ _ _ inside => (by cases inside), fun _ _ found => (by cases found)⟩
  · intro trace cfg action cfg' events before exclusive met next
    have linked := linked_of_run before
    obtain ⟨⟨a, step, asks⟩, -⟩ := linked.next next
    refine exclusive.step linked.account ?_ step
    intro k finishing someone d other
    rcases asks with rfl | rfl
    · cases finishing
    · obtain ⟨e, waits⟩ := List.exists_mem_of_ne_nil _ someone
      rw [clearGrants, finishing] at met
      exact ((met ⟨e, mem_setters.mp waits⟩).1 d other).1

/-- The lock state in which the waiting clients of `k` are served: free exactly when
the others let a setter be granted. -/
theorem free_when_left (linked : Linked trace cfg) (exclusive : (cfg.locks trace).Exclusive)
    {a : Ask Bytes} {l : Lock} (leaves : Leaves c (cfg.locks trace) a k l) :
    l = ⟨false, 0⟩ ↔ cfg.ClearToGrant trace c k := by
  rw [free_iff (linked.account.left leaves) (exclusive.left leaves) setLock_lock_self]
  refine and_congr ?_ Iff.rfl
  constructor
  · intro nobody d other
    have gone := nobody d
    rwa [setLock_pos, move_pos_of_ne other] at gone
  · intro nobody d
    rcases eq_or_ne d c with rfl | other
    · simp
    · rw [setLock_pos, move_pos_of_ne other]
      exact nobody d other

theorem validSet_iff {db : Database N} {item : Item N} (found : db.find k = some item) :
    db.validSet k = true ↔ item.lock = ⟨false, 0⟩ := by
  simp [Database.validSet, found, Item.lock]

/-- The deferred path and the immediate one. In every run in which the requests that
serve a waiting setter find the others clear of the record, and at the next
request, `valid_set` holds where `server_pending` grants a waiting setter exactly
when the others are clear of the record. -/
theorem deferred_grant_valid_iff
    (run : (protocol N).Run clearGrants trace cfg)
    (wakes : cfg.WakesSetter c addr rkey w k) :
    w.db.validSet k = true ↔ cfg.ClearToGrant trace c k := by
  have linked := linked_of_run run
  obtain ⟨r, item, asked, pending, found, someone⟩ := wakes
  obtain ⟨item', found', leaves, -⟩ := linked.pending (linked.sends asked) pending
  rw [validSet_iff found']
  exact free_when_left linked (exclusive_of_clear run) leaves

end Grants

/-- A test of `WakesSetter` for the next request of `c`, with the answer of
`valid_set`. -/
def Config.wakesSetter (cfg : Config N) (c : Fin N) (valid : Bool) (k : Bytes) : Bool :=
  match cfg.nextRequest c with
  | none => false
  | some r =>
    match pendingWorld (.reliable N 9 9) ⟨cfg.db, cfg.mem, []⟩ c r with
    | none => false
    | some (w, key) =>
      key == k && w.db.validSet k == valid &&
        (w.db.find k).any fun item => !item.waitingSetters.isEmpty

theorem Config.wakesSetter_sound {cfg : Config N} {c : Fin N} {valid : Bool} {k : Bytes}
    (test : cfg.wakesSetter c valid k = true) :
    ∃ w, cfg.WakesSetter c 9 9 w k ∧ w.db.validSet k = valid := by
  unfold Config.wakesSetter at test
  split at test
  next => cases test
  next r asked =>
    split at test
    next => cases test
    next w key pending =>
      simp only [Bool.and_eq_true, beq_iff_eq, Option.any_eq_true] at test
      obtain ⟨⟨rfl, answer⟩, item, found, someone⟩ := test
      refine ⟨w, ⟨r, item, asked, pending, found, ?_⟩, answer⟩
      simpa using someone

/-- A set finishes while another client waits to set the same key. -/
theorem deferred_grant_after_set : ∃ trace, ∃ cfg : Config 2, ∃ w,
    (protocol 2).Run clearGrants trace cfg ∧ cfg.WakesSetter 0 9 9 w keyK.bytes ∧
      (w.db.validSet keyK.bytes = true ↔ cfg.ClearToGrant trace 0 keyK.bytes) := by
  obtain ⟨trace, cfg, run, ends⟩ := Machine.Run.of_exec (protocol 2) clearGrants
    [.invoke 0 (.kvSet keyK valueV), .serve 0 0 0, .invoke 1 (.kvSet keyK valueV),
      .serve 1 0 0, .proceed 0]
    (fun _ cfg => cfg.wakesSetter 0 true keyK.bytes) (by decide +kernel)
  obtain ⟨w, wakes, -⟩ := Config.wakesSetter_sound ends
  exact ⟨trace, cfg, w, run, wakes, deferred_grant_valid_iff run wakes⟩

/-- After one get that had to wait, `server_pending` grants a set that
`server_set_Ask` has deferred and would defer again. -/
theorem deferred_grant_not_valid : ¬ ∀ N, 2 ≤ N → ∀ trace, ∀ cfg : Config N,
    (protocol N).Run always trace cfg → ∀ c addr rkey w k,
      cfg.WakesSetter c addr rkey w k → w.db.validSet k = true := by
  intro grantsValid
  obtain ⟨trace, cfg, run, ends⟩ := Machine.Run.of_exec (protocol 2) wordKeys
    (waitingGetSchedule ++
      [.invoke 0 (.kvSet keyK valueV), .serve 0 0 0, .invoke 1 (.kvGet keyK), .serve 1 0 0,
        .proceed 1])
    (fun _ cfg => cfg.wakesSetter 1 false keyK.bytes) (by decide +kernel)
  obtain ⟨w, wakes, invalid⟩ := Config.wakesSetter_sound ends
  have valid := grantsValid 2 (le_refl 2) trace cfg run.toAlways 1 9 9 w keyK.bytes wakes
  rw [invalid] at valid
  cases valid

end RdmaWiki
