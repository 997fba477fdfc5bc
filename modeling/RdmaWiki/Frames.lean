import RdmaWiki.Effects

/-!
The handlers on another heap.

The sends, the writers and `server_pending` neither read the heap nor change it, and no call but
`_add_item` and the copies of values look at what `malloc` leaves in memory. So a handler that
is run on another heap, with other bytes in new memory, does the same there (`serverPending_at`
and the other lemmas of this form). The one handler that reads the heap is the getter of a
small value (`serverGetEager_at`), and `set_item` is the one writer that frees
(`setItem_release`) and adds a record in new memory (`setItem_refill`).
-/

namespace RdmaWiki

open CText

variable {N : ℕ}

/-- The same calls with other bytes in new memory. -/
def Env.refill (env : Env N) (junk : Junk N) (junkBytes : ℕ → Bytes) : Env N :=
  { env with junk := junk, junkBytes := junkBytes }

/-- The same world on another heap. -/
def World.at (w : World N) (mem : Mem) : World N := { w with mem := mem }

section Frames

variable (env : Env N) (junk : Junk N) (junkBytes : ℕ → Bytes) (mem : Mem) (w : World N)
  (c : Fin N) (key : Bytes)

theorem sendAck_at : sendAck (env.refill junk junkBytes) (w.at mem) c =
    ((sendAck env w c).1, (sendAck env w c).2.at mem) := by
  cases posted : env.postSend w.sent.length with
  | false => simp [sendAck, Env.refill, World.at, posted]
  | true => simp [sendAck, Env.refill, World.at, posted]

theorem sendNack_at : sendNack (env.refill junk junkBytes) (w.at mem) c =
    ((sendNack env w c).1, (sendNack env w c).2.at mem) := by
  cases posted : env.postSend w.sent.length with
  | false => simp [sendNack, Env.refill, World.at, posted]
  | true => simp [sendNack, Env.refill, World.at, posted]

theorem sendDataStr_at (reply : Reply) :
    sendDataStr (env.refill junk junkBytes) (w.at mem) c reply =
      ((sendDataStr env w c reply).1, (sendDataStr env w c reply).2.at mem) := by
  cases posted : env.postSend w.sent.length with
  | false => simp [sendDataStr, Env.refill, World.at, posted]
  | true =>
      cases waited : env.waitSend w.sent.length with
      | false => simp [sendDataStr, Env.refill, World.at, posted, waited]
      | true => simp [sendDataStr, Env.refill, World.at, posted, waited]

theorem grantSetters_at (setClients : Fin N → Bool) (l : List (Fin N)) (found : Bool) :
    grantSetters (env.refill junk junkBytes) key setClients l found (w.at mem) =
      ((grantSetters env key setClients l found w).1,
        (grantSetters env key setClients l found w).2.1,
        (grantSetters env key setClients l found w).2.2.at mem) := by
  induction l generalizing found w with
  | nil => rfl
  | cons i rest ih =>
      unfold grantSetters
      split
      next =>
        have locked : { w.at mem with db := ((w.at mem).db.addInSet key).2 } =
            World.at { w with db := (w.db.addInSet key).2 } mem := rfl
        simp only [locked, sendAck_at, sendNack_at]
        cases found with
        | false =>
            simp only [if_true]
            rcases sendAck env { w with db := (w.db.addInSet key).2 } i with ⟨ret, w'⟩
            cases ret with
            | exitFailure => rfl
            | exitSuccess => exact ih ..
        | true =>
            simp only [Bool.true_eq_false, if_false]
            rcases sendNack env { w with db := (w.db.addInSet key).2 } i with ⟨ret, w'⟩
            cases ret with
            | exitFailure => rfl
            | exitSuccess => exact ih ..
      next => exact ih ..

theorem grantGetters_at (getClients : Fin N → Bool) (l : List (Fin N)) :
    grantGetters (env.refill junk junkBytes) key getClients l (w.at mem) =
      ((grantGetters env key getClients l w).1, (grantGetters env key getClients l w).2.at mem) := by
  induction l generalizing w with
  | nil => rfl
  | cons i rest ih =>
      unfold grantGetters
      split
      next =>
        have counted : { w.at mem with db := ((w.at mem).db.addNumInGet key).2 } =
            World.at { w with db := (w.db.addNumInGet key).2 } mem := rfl
        simp only [counted, sendAck_at]
        rcases sendAck env { w with db := (w.db.addNumInGet key).2 } i with ⟨ret, w'⟩
        cases ret with
        | exitFailure => rfl
        | exitSuccess => exact ih ..
      next => exact ih ..

/-- The result of a function that does not look at the heap. -/
def onHeap (mem : Mem) (result : Option (Ret × World N)) : Option (Ret × World N) :=
  result.map fun done => (done.1, done.2.at mem)

theorem serverPending_at : serverPending (env.refill junk junkBytes) (w.at mem) key =
    onHeap mem (serverPending env w key) := by
  unfold serverPending
  have array : (w.at mem).db.setQuery key = w.db.setQuery key := rfl
  rw [array]
  cases w.db.setQuery key with
  | none => rfl
  | some setClients =>
      simp only [grantSetters_at]
      rcases grantSetters env key setClients (List.finRange N) false w with ⟨ret, found, w'⟩
      cases ret with
      | exitFailure => rfl
      | exitSuccess =>
          cases found with
          | true => rfl
          | false =>
              simp only
              have array' : (w'.at mem).db.getQuery key = w'.db.getQuery key := rfl
              rw [array']
              cases w'.db.getQuery key with
              | none => rfl
              | some getClients =>
                  simp only [grantGetters_at]
                  rcases grantGetters env key getClients (List.finRange N) w' with ⟨ret, w''⟩
                  cases ret with
                  | exitFailure => rfl
                  | exitSuccess => rfl

theorem serverSetFin_at : serverSetFin (env.refill junk junkBytes) (w.at mem) key c =
    onHeap mem (serverSetFin env w key c) := by
  have removed : { w.at mem with db := ((w.at mem).db.removeInSet key).2 } =
      World.at { w with db := (w.db.removeInSet key).2 } mem := rfl
  simp only [serverSetFin, removed, serverPending_at]
  rcases serverPending env { w with db := (w.db.removeInSet key).2 } key with _ | ⟨ret, w'⟩
  · rfl
  · cases ret with
    | exitFailure => rfl
    | exitSuccess => simp only [onHeap, Option.map_some, sendAck_at]

theorem serverGetFin_at : serverGetFin (env.refill junk junkBytes) (w.at mem) key c =
    onHeap mem (serverGetFin env w key c) := by
  have removed : { w.at mem with db := ((w.at mem).db.removeNumInGet key).2 } =
      World.at { w with db := (w.db.removeNumInGet key).2 } mem := rfl
  simp only [serverGetFin, removed, serverPending_at]
  rcases serverPending env { w with db := (w.db.removeNumInGet key).2 } key with _ | ⟨ret, w'⟩
  · rfl
  · cases ret with
    | exitFailure => rfl
    | exitSuccess => simp only [onHeap, Option.map_some, sendAck_at]

theorem serverGetAsk_at : serverGetAsk (env.refill junk junkBytes) (w.at mem) key c =
    ((serverGetAsk env w key c).1, (serverGetAsk env w key c).2.at mem) := by
  have asked : (w.at mem).db = w.db := rfl
  unfold serverGetAsk
  rw [asked]
  cases w.db.validGet key with
  | true => exact sendAck_at ..
  | false => rfl

theorem serverGetRendezvous_at (value : Value) :
    serverGetRendezvous (env.refill junk junkBytes) (w.at mem) c value =
      onHeap mem (serverGetRendezvous env w c value) := by
  simp only [serverGetRendezvous, sendDataStr_at]
  rcases sendDataStr env w c (.size value.size) with ⟨ret, w'⟩
  cases ret with
  | exitFailure => rfl
  | exitSuccess =>
      cases value.mr with
      | none => rfl
      | some mr => exact congrArg some (sendDataStr_at ..)

/-- The one place where the heap is read: the bytes of a small value. -/
theorem serverGetEager_at {value : Value} (same : mem.block value.value = w.mem.block value.value) :
    serverGetEager (env.refill junk junkBytes) (w.at mem) key value c =
      onHeap mem (serverGetEager env w key value c) := by
  have read : (w.at mem).mem.block value.value = w.mem.block value.value := same
  unfold serverGetEager
  rw [read]
  cases w.mem.block value.value with
  | none => rfl
  | some bytes =>
      simp only [sendDataStr_at]
      rcases sendDataStr env w c (.eager (text bytes)) with ⟨ret, w'⟩
      cases ret with
      | exitFailure => rfl
      | exitSuccess => exact serverGetFin_at ..

theorem parseDataG0_at (same : ∀ value, (w.db.find key).bind Item.value = some value →
      mem.block value.value = w.mem.block value.value) :
    parseDataG0 (env.refill junk junkBytes) (w.at mem) key c =
      onHeap mem (parseDataG0 env w key c) := by
  have asked : (w.at mem).db = w.db := rfl
  unfold parseDataG0
  rw [asked]
  cases found : w.db.find key with
  | none =>
      simp only [Database.getValue, found]
      rfl
  | some item =>
      cases stored : item.value with
      | none =>
          simp only [Database.getValue, found, stored]
          rfl
      | some value =>
          simp only [Database.getValue, found, stored]
          have block := same value (by rw [found, Option.bind_some, stored])
          split
          next => exact serverGetEager_at env junk junkBytes mem { w with db := _ } c key block
          next => exact serverGetRendezvous_at env junk junkBytes mem { w with db := _ } c value

variable {env} {junk} {db : Database N}

/-- `set_item` looks at new memory only where it adds a key. -/
theorem setItem_refill (agree : db.setItemFails env key = false → db.find key = none →
      junk = env.junk) (value : Option Value) :
    db.setItem (env.refill junk junkBytes) mem key value = db.setItem env mem key value := by
  have same : db.setItemFails (env.refill junk junkBytes) key = db.setItemFails env key := rfl
  cases failed : db.setItemFails env key with
  | true => rw [setItem_fails failed, setItem_fails (same.trans failed)]
  | false =>
      unfold Database.setItem
      cases found : db.find key with
      | none =>
          have bytes := agree failed found
          subst bytes
          rfl
      | some item => rfl

/-- `set_item` does the same on every heap, apart from releasing the old value there. -/
theorem setItem_release (env : Env N) (db : Database N) (key : Bytes) (value : Option Value) :
    ∃ ret db' old, ∀ mem, db.setItem env mem key value = (ret, db', mem.release old) := by
  unfold Database.setItem
  cases db.find key with
  | none => exact ⟨(db.addItem env key value).1, (db.addItem env key value).2, none, fun mem => rfl⟩
  | some item =>
      cases stored : item.value with
      | none =>
          refine ⟨.exitSuccess, (db.update key fun item =>
            { item with value := value, isSet := true }).2, none, fun mem => ?_⟩
          simp only [stored, Option.map_none, Mem.release]
      | some old =>
          cases large : old.isLarge with
          | false =>
              refine ⟨.exitSuccess, (db.update key fun item =>
                { item with value := value, isSet := true }).2, some old, fun mem => ?_⟩
              simp [stored, deallocValue, large, Mem.release]
          | true =>
              cases dereg : env.deregMr with
              | false =>
                  refine ⟨.exitFailure, db, none, fun mem => ?_⟩
                  simp [stored, deallocValue, large, dereg, Mem.release]
              | true =>
                  refine ⟨.exitSuccess, (db.update key fun item =>
                    { item with value := value, isSet := true }).2, some old, fun mem => ?_⟩
                  simp [stored, deallocValue, large, dereg, Mem.release]

end Frames

end RdmaWiki
