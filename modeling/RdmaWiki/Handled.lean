import RdmaWiki.Effects

/-!
The effect of every request when no library or verbs call fails.

There is one theorem for each request and each state of its record it branches on, which
says what the world becomes.
-/

namespace RdmaWiki

open CText

variable {N : ℕ}

section Reliable

variable (addr : UInt64) (rkey : UInt32) {w : World N} {key : Bytes} {item : Item N}
  {c : Fin N}

@[simp] theorem sendAck_reliable :
    sendAck (.reliable N addr rkey) w c =
      (.exitSuccess, { w with sent := w.sent ++ [(c, .ack)] }) := rfl

@[simp] theorem sendNack_reliable :
    sendNack (.reliable N addr rkey) w c =
      (.exitSuccess, { w with sent := w.sent ++ [(c, .nack)] }) := rfl

@[simp] theorem sendDataStr_reliable {reply : Reply} :
    sendDataStr (.reliable N addr rkey) w c reply =
      (.exitSuccess, { w with sent := w.sent ++ [(c, reply)] }) := rfl

/-- `server_pending` on a present key. -/
theorem serverPending_reliable (found : w.db.find key = some item) :
    ∃ w', serverPending (.reliable N addr rkey) w key = some (.exitSuccess, w') ∧
      w.Becomes w' key item.woken w.mem item.wakeReplies := by
  obtain ⟨ret, w', pending, sends⟩ := serverPending_spec (.reliable N addr rkey) found
  obtain ⟨rfl, becomes⟩ := sends.of_posts fun _ _ => rfl
  exact ⟨w', pending, becomes⟩

theorem setItem_reliable (w : World N) (key : Bytes) (value : Option Value) :
    ∃ db, w.db.setItem (.reliable N addr rkey) w.mem key value =
        (.exitSuccess, db, w.mem.release (w.db.record key).value) ∧
      db.find = Function.update w.db.find key
        (some { w.db.record key with value := value, isSet := true }) := by
  have fine : w.db.setItemFails (.reliable N addr rkey) key = false := by
    cases found : w.db.find key <;> simp [Database.setItemFails, found, Env.reliable]
  exact setItem_succeeds fine w.mem value

/-! ## Requests -/

/-- `as` on a key that is neither locked nor counted is granted. -/
theorem handle_setAsk_grant (valid : w.db.validSet key = true) :
    ∃ w', handle (.reliable N addr rkey) w c (.setAsk key) = some (.exitSuccess, w') ∧
      w.Becomes w' key { w.db.record key with value := none, isSet := true }
        (w.mem.release (w.db.record key).value) [(c, .ack)] := by
  obtain ⟨db, stored, find⟩ := setItem_reliable addr rkey w key none
  refine ⟨{ w with
    db := db
    mem := w.mem.release (w.db.record key).value
    sent := w.sent ++ [(c, .ack)] }, ?_, ⟨find, rfl, rfl⟩⟩
  simp [handle, serverSetAsk, valid, stored]

/-- `as` on any other key is recorded as waiting. -/
theorem handle_setAsk_defer (found : w.db.find key = some item)
    (invalid : w.db.validSet key = false) :
    ∃ w', handle (.reliable N addr rkey) w c (.setAsk key) = some (.exitSuccess, w') ∧
      w.Becomes w' key { item with clientSet := Function.update item.clientSet c true }
        w.mem [] := by
  have marked := World.Becomes.of_update (w := w)
    (fun _ => rfl :
      ∀ item : Item N,
        { item with clientSet := Function.update item.clientSet c true }.key = item.key) found
  refine ⟨_, ?_, marked⟩
  simp [handle, serverSetAsk, invalid, Database.addSetQuery, Database.update, found]

/-- A FIN of a set unlocks the record and wakes the waiting clients. -/
theorem serverSetFin_reliable (found : w.db.find key = some item) :
    ∃ w', serverSetFin (.reliable N addr rkey) w key c = some (.exitSuccess, w') ∧
      w.Becomes w' key { item with isSet := false }.woken w.mem
        ({ item with isSet := false }.wakeReplies ++ [(c, .ack)]) := by
  have unlocked := World.Becomes.of_update (w := w)
    (fun _ => rfl : ∀ item : Item N, { item with isSet := false }.key = item.key) found
  obtain ⟨w', pending, woken⟩ :=
    serverPending_reliable addr rkey unlocked.find_self
  refine ⟨_, ?_, (unlocked.trans woken).send (c, .ack)⟩
  simp only [serverSetFin, Database.removeInSet, pending, sendAck_reliable]

/-- A FIN of a get uncounts a reader and wakes the waiting clients. -/
theorem serverGetFin_reliable (found : w.db.find key = some item) :
    ∃ w', serverGetFin (.reliable N addr rkey) w key c = some (.exitSuccess, w') ∧
      w.Becomes w' key { item with numInGet := item.numInGet - 1 }.woken w.mem
        ({ item with numInGet := item.numInGet - 1 }.wakeReplies ++ [(c, .ack)]) := by
  have uncounted := World.Becomes.of_update (w := w)
    (fun _ => rfl :
      ∀ item : Item N, { item with numInGet := item.numInGet - 1 }.key = item.key) found
  obtain ⟨w', pending, woken⟩ :=
    serverPending_reliable addr rkey uncounted.find_self
  refine ⟨_, ?_, (uncounted.trans woken).send (c, .ack)⟩
  simp only [serverGetFin, Database.removeNumInGet, pending, sendAck_reliable]

/-- A FIN for an absent key follows the NULL array of `set_query`. -/
theorem handle_fin_absent (absent : w.db.find key = none) :
    handle (.reliable N addr rkey) w c (.setFin key) = none ∧
      handle (.reliable N addr rkey) w c (.getFin key) = none := by
  simp [handle, serverSetFin, serverGetFin, Database.removeInSet, Database.removeNumInGet,
    Database.update_absent absent, serverPending, Database.setQuery, absent]

/-- `se` stores a copy of the value at `addr`, then acts as a FIN. -/
theorem handle_setEager (w : World N) (c : Fin N) (key value : Bytes) :
    ∃ w', handle (.reliable N addr rkey) w c (.setEager key value) =
        some (.exitSuccess, w') ∧
      w.Becomes w' key
        { w.db.record key with
          value := some ⟨addr, value.length, false, none⟩, isSet := false }.woken
        ((w.mem.alloc addr (value ++ [0])).release (w.db.record key).value)
        ({ w.db.record key with
          value := some ⟨addr, value.length, false, none⟩, isSet := false }.wakeReplies ++
            [(c, .ack)]) := by
  obtain ⟨db, stored, find⟩ := setItem_reliable addr rkey
    { w with mem := w.mem.alloc addr (value ++ [0]) } key
    (some ⟨addr, value.length, false, none⟩)
  have put : w.Becomes
      ⟨db, (w.mem.alloc addr (value ++ [0])).release (w.db.record key).value, w.sent⟩ key
      { w.db.record key with
        value := some ⟨addr, value.length, false, none⟩, isSet := true }
      ((w.mem.alloc addr (value ++ [0])).release (w.db.record key).value) [] :=
    ⟨find, rfl, (List.append_nil _).symm⟩
  obtain ⟨w', fin, becomes⟩ := serverSetFin_reliable addr rkey (c := c) put.find_self
  refine ⟨w', ?_, put.trans becomes⟩
  simp only [handle, parseDataSe, serverSetEager]
  simp only [Env.reliable, Bool.true_eq_false, if_false] at stored fin ⊢
  rw [stored]
  exact fin

/-- `sr` with a size that no buffer has writes outside its buffer. -/
theorem handle_setRendezvous_outside {size : Int} (outside : size < 0 ∨ intMax ≤ size) :
    handle (.reliable N addr rkey) w c (.setRendezvous key size) = none := by
  simp [handle, serverSetRendezvous, outside]

/-- `sr` registers a zeroed buffer of the requested size, sends its descriptor
and stores it under the key. -/
theorem handle_setRendezvous (w : World N) (c : Fin N) (key : Bytes) {size : ℕ}
    (bounded : (size : Int) < intMax) :
    ∃ w', handle (.reliable N addr rkey) w c (.setRendezvous key size) =
        some (.exitSuccess, w') ∧
      w.Becomes w' key
        { w.db.record key with
          value := some ⟨addr, size, true, some ⟨rkey, addr⟩⟩, isSet := true }
        ((((w.mem.alloc addr (List.replicate (size + 1) 0)).register addr rkey size)).release
          (w.db.record key).value)
        [(c, .region rkey addr)] := by
  obtain ⟨db, stored, find⟩ := setItem_reliable addr rkey
    { w with
      mem := (w.mem.alloc addr (List.replicate (size + 1) 0)).register addr rkey size
      sent := w.sent ++ [(c, .region rkey addr)] }
    key (some ⟨addr, size, true, some ⟨rkey, addr⟩⟩)
  have zeroed : ((List.replicate (size + 1) (0 : UInt8)).set size 0) =
      List.replicate (size + 1) 0 := by
    rw [List.set_replicate_self]
  have inside : ¬ ((size : Int) < 0 ∨ intMax ≤ (size : Int)) := by omega
  refine ⟨⟨db, (((w.mem.alloc addr (List.replicate (size + 1) 0)).register addr rkey size)).release
    (w.db.record key).value, w.sent ++ [(c, .region rkey addr)]⟩, ?_, ⟨find, rfl, rfl⟩⟩
  simp only [handle, serverSetRendezvous, inside, if_false]
  simp only [sendDataStr_reliable, Int.toNat_natCast]
  simp only [Env.reliable, Bool.true_eq_false, if_false, zeroed] at stored ⊢
  rw [stored]

/-- `ag` on a key that is not locked is granted, and nothing is recorded. -/
theorem handle_getAsk_grant (valid : w.db.validGet key = true) :
    handle (.reliable N addr rkey) w c (.getAsk key) =
      some (.exitSuccess, { w with sent := w.sent ++ [(c, .ack)] }) := by
  simp [handle, serverGetAsk, valid]

/-- `ag` on a locked key is recorded as waiting. -/
theorem handle_getAsk_defer (found : w.db.find key = some item) (locked : item.isSet = true) :
    ∃ w', handle (.reliable N addr rkey) w c (.getAsk key) = some (.exitSuccess, w') ∧
      w.Becomes w' key { item with clientGet := Function.update item.clientGet c true }
        w.mem [] := by
  have marked := World.Becomes.of_update (w := w)
    (fun _ => rfl :
      ∀ item : Item N,
        { item with clientGet := Function.update item.clientGet c true }.key = item.key) found
  have invalid : w.db.validGet key = false := by
    simp [Database.validGet, found, locked]
  refine ⟨_, ?_, marked⟩
  simp [handle, serverGetAsk, invalid, Database.addGetQuery, Database.update, found]

/-- `g0` on an absent key fails without an answer and without a trace. -/
theorem handle_get_absent (absent : w.db.find key = none) :
    handle (.reliable N addr rkey) w c (.get key) = some (.exitFailure, w) := by
  simp [handle, parseDataG0, Database.getValue, absent, Database.addGetQuery,
    Database.update_absent absent]

/-- `g0` on a record without a value follows its NULL pointer. -/
theorem handle_get_null (found : w.db.find key = some item) (empty : item.value = none) :
    handle (.reliable N addr rkey) w c (.get key) = none := by
  simp [handle, parseDataG0, Database.getValue, found, empty]

/-- `g0` on a small value sends it and finishes the get at once. -/
theorem handle_get_eager {value : Value} {bytes : Bytes}
    (found : w.db.find key = some item) (stored : item.value = some value)
    (small : value.isLarge = false) (block : w.mem.block value.value = some bytes) :
    ∃ w', handle (.reliable N addr rkey) w c (.get key) = some (.exitSuccess, w') ∧
      w.Becomes w' key item.woken w.mem
        ((c, .eager (text bytes)) :: item.wakeReplies ++ [(c, .ack)]) := by
  have counted := World.Becomes.of_update (w := w)
    (fun _ => rfl :
      ∀ item : Item N, { item with numInGet := item.numInGet + 1 }.key = item.key) found
  have answered := counted.send (c, .eager (text bytes))
  obtain ⟨w', fin, becomes⟩ :=
    serverGetFin_reliable addr rkey (c := c) answered.find_self
  have balanced : { item with numInGet := item.numInGet + 1 - 1 } = item := by
    rw [Int.add_sub_cancel]
  simp only [balanced] at becomes
  refine ⟨w', ?_, answered.trans becomes⟩
  simp only [handle, parseDataG0, Database.getValue, found, stored, small, if_true,
    serverGetEager, block, sendDataStr_reliable]
  exact fin

/-- `g0` on a large value counts a reader and sends size and descriptor. -/
theorem handle_get_rendezvous {value : Value} {mr : Mr}
    (found : w.db.find key = some item) (stored : item.value = some value)
    (large : value.isLarge = true) (registered : value.mr = some mr) :
    ∃ w', handle (.reliable N addr rkey) w c (.get key) = some (.exitSuccess, w') ∧
      w.Becomes w' key { item with numInGet := item.numInGet + 1 } w.mem
        [(c, .size value.size), (c, .region mr.rkey mr.addr)] := by
  have counted := World.Becomes.of_update (w := w)
    (fun _ => rfl :
      ∀ item : Item N, { item with numInGet := item.numInGet + 1 }.key = item.key) found
  refine ⟨_, ?_, (counted.send (c, .size value.size)).send (c, .region mr.rkey mr.addr)⟩
  simp [handle, parseDataG0, Database.getValue, found, stored, large, serverGetRendezvous,
    registered]

/-- `g0` on a small value whose bytes are gone reads freed memory. -/
theorem handle_get_eager_freed {value : Value} (found : w.db.find key = some item)
    (stored : item.value = some value) (small : value.isLarge = false)
    (freed : w.mem.block value.value = none) :
    handle (.reliable N addr rkey) w c (.get key) = none := by
  simp [handle, parseDataG0, Database.getValue, found, stored, small, serverGetEager, freed]

/-- `g0` on a large value without a region follows a NULL pointer. -/
theorem handle_get_unregistered {value : Value} (found : w.db.find key = some item)
    (stored : item.value = some value) (large : value.isLarge = true)
    (unregistered : value.mr = none) :
    handle (.reliable N addr rkey) w c (.get key) = none := by
  simp [handle, parseDataG0, Database.getValue, found, stored, large, serverGetRendezvous,
    unregistered]

/-! ## Every effect -/

/-- What handling a request of `c` can do to a world, `malloc` returning `addr`
and `ibv_reg_mr` returning `rkey`. -/
inductive Effect (addr : UInt64) (rkey : UInt32) (w : World N) (c : Fin N) :
    Request → World N → Prop
  | grantSet {key : Bytes} {w' : World N} (valid : w.db.validSet key = true)
      (becomes : w.Becomes w' key { w.db.record key with value := none, isSet := true }
        (w.mem.release (w.db.record key).value) [(c, .ack)]) :
      Effect addr rkey w c (.setAsk key) w'
  | deferSet {key : Bytes} {item : Item N} {w' : World N}
      (found : w.db.find key = some item) (invalid : w.db.validSet key = false)
      (becomes : w.Becomes w' key
        { item with clientSet := Function.update item.clientSet c true } w.mem []) :
      Effect addr rkey w c (.setAsk key) w'
  | setEager {key value : Bytes} {w' : World N}
      (becomes : w.Becomes w' key
        { w.db.record key with
          value := some ⟨addr, value.length, false, none⟩, isSet := false }.woken
        ((w.mem.alloc addr (value ++ [0])).release (w.db.record key).value)
        ({ w.db.record key with
          value := some ⟨addr, value.length, false, none⟩, isSet := false }.wakeReplies ++
            [(c, .ack)])) :
      Effect addr rkey w c (.setEager key value) w'
  | setRendezvous {key : Bytes} {size : ℕ} {w' : World N}
      (becomes : w.Becomes w' key
        { w.db.record key with
          value := some ⟨addr, size, true, some ⟨rkey, addr⟩⟩, isSet := true }
        (((w.mem.alloc addr (List.replicate (size + 1) 0)).register addr rkey size).release
          (w.db.record key).value)
        [(c, .region rkey addr)]) :
      Effect addr rkey w c (.setRendezvous key size) w'
  | setFin {key : Bytes} {item : Item N} {w' : World N}
      (found : w.db.find key = some item)
      (becomes : w.Becomes w' key { item with isSet := false }.woken w.mem
        ({ item with isSet := false }.wakeReplies ++ [(c, .ack)])) :
      Effect addr rkey w c (.setFin key) w'
  | grantGet {key : Bytes} (valid : w.db.validGet key = true) :
      Effect addr rkey w c (.getAsk key) { w with sent := w.sent ++ [(c, .ack)] }
  | deferGet {key : Bytes} {item : Item N} {w' : World N}
      (found : w.db.find key = some item) (locked : item.isSet = true)
      (becomes : w.Becomes w' key
        { item with clientGet := Function.update item.clientGet c true } w.mem []) :
      Effect addr rkey w c (.getAsk key) w'
  | lose {key : Bytes} (absent : w.db.find key = none) : Effect addr rkey w c (.get key) w
  | getEager {key : Bytes} {item : Item N} {value : Value} {bytes : Bytes} {w' : World N}
      (found : w.db.find key = some item) (stored : item.value = some value)
      (small : value.isLarge = false) (block : w.mem.block value.value = some bytes)
      (becomes : w.Becomes w' key item.woken w.mem
        ((c, .eager (text bytes)) :: item.wakeReplies ++ [(c, .ack)])) :
      Effect addr rkey w c (.get key) w'
  | getRendezvous {key : Bytes} {item : Item N} {value : Value} {mr : Mr} {w' : World N}
      (found : w.db.find key = some item) (stored : item.value = some value)
      (large : value.isLarge = true) (registered : value.mr = some mr)
      (becomes : w.Becomes w' key { item with numInGet := item.numInGet + 1 } w.mem
        [(c, .size value.size), (c, .region mr.rkey mr.addr)]) :
      Effect addr rkey w c (.get key) w'
  | getFin {key : Bytes} {item : Item N} {w' : World N}
      (found : w.db.find key = some item)
      (becomes : w.Becomes w' key { item with numInGet := item.numInGet - 1 }.woken w.mem
        ({ item with numInGet := item.numInGet - 1 }.wakeReplies ++ [(c, .ack)])) :
      Effect addr rkey w c (.getFin key) w'

/-- A handler that returns has one of the effects. -/
theorem handle_effect {request : Request} {ret : Ret} {w' : World N}
    (handled : handle (.reliable N addr rkey) w c request = some (ret, w')) :
    Effect addr rkey w c request w' := by
  -- every request below is computed by its own theorem, which determines `w'`
  have same {ret' : Ret} {w₁ : World N}
      (computed : handle (.reliable N addr rkey) w c request = some (ret', w₁)) : w₁ = w' := by
    rw [computed, Option.some.injEq, Prod.mk.injEq] at handled
    exact handled.2
  have returns : handle (.reliable N addr rkey) w c request ≠ none := by
    rw [handled]
    exact Option.some_ne_none _
  cases request with
  | setAsk key =>
      cases valid : w.db.validSet key with
      | true =>
          obtain ⟨w₁, computed, becomes⟩ := handle_setAsk_grant addr rkey (c := c) valid
          cases same computed
          exact .grantSet valid becomes
      | false =>
          cases found : w.db.find key with
          | none => simp [Database.validSet, found] at valid
          | some item =>
              obtain ⟨w₁, computed, becomes⟩ :=
                handle_setAsk_defer addr rkey (c := c) found valid
              cases same computed
              exact .deferSet found valid becomes
  | setEager key value =>
      obtain ⟨w₁, computed, becomes⟩ :=
        handle_setEager addr rkey w c key value
      cases same computed
      exact .setEager becomes
  | setRendezvous key size =>
      by_cases outside : size < 0 ∨ intMax ≤ size
      · exact absurd (handle_setRendezvous_outside addr rkey outside) returns
      · rw [not_or, Int.not_lt, Int.not_le] at outside
        obtain ⟨natural, bounded⟩ := outside
        lift size to ℕ using natural
        obtain ⟨w₁, computed, becomes⟩ :=
          handle_setRendezvous addr rkey w c key bounded
        cases same computed
        exact .setRendezvous becomes
  | setFin key =>
      cases found : w.db.find key with
      | none => exact absurd (handle_fin_absent addr rkey found).1 returns
      | some item =>
          obtain ⟨w₁, computed, becomes⟩ := serverSetFin_reliable addr rkey (c := c) found
          cases same computed
          exact .setFin found becomes
  | getAsk key =>
      cases valid : w.db.validGet key with
      | true =>
          cases same (handle_getAsk_grant addr rkey valid)
          exact .grantGet valid
      | false =>
          cases found : w.db.find key with
          | none => simp [Database.validGet, found] at valid
          | some item =>
              have locked : item.isSet = true := by
                simpa [Database.validGet, found] using valid
              obtain ⟨w₁, computed, becomes⟩ :=
                handle_getAsk_defer addr rkey (c := c) found locked
              cases same computed
              exact .deferGet found locked becomes
  | get key =>
      cases found : w.db.find key with
      | none =>
          cases same (handle_get_absent addr rkey found)
          exact .lose found
      | some item =>
          cases stored : item.value with
          | none => exact absurd (handle_get_null addr rkey found stored) returns
          | some value =>
              cases large : value.isLarge with
              | false =>
                  cases block : w.mem.block value.value with
                  | none =>
                      exact absurd (handle_get_eager_freed addr rkey found stored large block)
                        returns
                  | some bytes =>
                      obtain ⟨w₁, computed, becomes⟩ :=
                        handle_get_eager addr rkey (c := c) found stored large block
                      cases same computed
                      exact .getEager found stored large block becomes
              | true =>
                  cases registered : value.mr with
                  | none =>
                      exact absurd
                        (handle_get_unregistered addr rkey found stored large registered) returns
                  | some mr =>
                      obtain ⟨w₁, computed, becomes⟩ :=
                        handle_get_rendezvous addr rkey (c := c) found stored large registered
                      cases same computed
                      exact .getRendezvous found stored large registered becomes
  | getFin key =>
      cases found : w.db.find key with
      | none => exact absurd (handle_fin_absent addr rkey found).2 returns
      | some item =>
          obtain ⟨w₁, computed, becomes⟩ := serverGetFin_reliable addr rkey (c := c) found
          cases same computed
          exact .getFin found becomes

end Reliable

end RdmaWiki
