import RdmaWiki.Effects

/-!
What a request keeps, whatever the library and verbs calls return.

A handler changes the records only by the writers of the database and by `set_item`, all on the key
of its request, and only `set_item` touches a value. What these keep, every handler keeps
(`handle_rule`, `handle_keeps`). So a handler repeats no key in the list, and it leaves the records
of all other keys alone.
-/

namespace RdmaWiki

open CText

variable {N : ℕ}

/-- The key that a request names. -/
def Request.key : Request → Bytes
  | .setAsk key => key
  | .setEager key _ => key
  | .setRendezvous key _ => key
  | .setFin key => key
  | .getAsk key => key
  | .get key => key
  | .getFin key => key

/-! ## Writers of one key -/

/-- The writers of the database, when they are called for `key`, and the one-byte answers keep
`P`. -/
structure Answers (key : Bytes) (P : World N → Prop) : Prop where
  update : ∀ {w : World N} {change : Item N → Item N}, P w →
    (∀ item, (change item).key = item.key ∧ (change item).value = item.value) →
    P { w with db := (w.db.update key change).2 }
  send : ∀ {w : World N} (c : Fin N) {reply : Reply}, reply = .ack ∨ reply = .nack → P w →
    P { w with sent := w.sent ++ [(c, reply)] }

/-- The writers of the database, when they are called for `key`, and the sends keep `P`. -/
structure Quiet (key : Bytes) (P : World N → Prop) : Prop where
  update : ∀ {w : World N} {change : Item N → Item N}, P w →
    (∀ item, (change item).key = item.key ∧ (change item).value = item.value) →
    P { w with db := (w.db.update key change).2 }
  send : ∀ {w : World N} (message : Fin N × Reply), P w →
    P { w with sent := w.sent ++ [message] }

/-- So do changes of the heap, and `set_item` for `key`. -/
structure Writes (env : Env N) (key : Bytes) (P : World N → Prop) : Prop extends
    Quiet key P where
  heap : ∀ {w : World N} (mem : Mem), P w → P { w with mem := mem }
  setItem : ∀ {w : World N} (value : Option Value), P w →
    P { w with db := (w.db.setItem env w.mem key value).2.1 }

section Keeps

variable {env : Env N} {w w' : World N} {key : Bytes} {c : Fin N} {ret : Ret}
  {P : World N → Prop}

theorem Quiet.answers (quiet : Quiet key P) : Answers key P where
  update := quiet.update
  send _ _ _ := quiet.send _

theorem Answers.sendAck (answers : Answers key P) (env : Env N) (c : Fin N) (holds : P w) :
    P (sendAck env w c).2 := by
  unfold RdmaWiki.sendAck
  split
  next => exact holds
  next => exact answers.send c (.inl rfl) holds

theorem Answers.sendNack (answers : Answers key P) (env : Env N) (c : Fin N) (holds : P w) :
    P (sendNack env w c).2 := by
  unfold RdmaWiki.sendNack
  split
  next => exact holds
  next => exact answers.send c (.inr rfl) holds

/-- What a text reply keeps, `send_data_str` keeps. -/
theorem sendDataStr_keeps {reply : Reply}
    (tells : ∀ {w : World N}, P w → P { w with sent := w.sent ++ [(c, reply)] }) (holds : P w)
    (sent : sendDataStr env w c reply = (ret, w')) : P w' := by
  unfold sendDataStr at sent
  split at sent
  next =>
    cases sent
    exact holds
  next =>
    split at sent <;>
    · cases sent
      exact tells holds

/-- A text reply changes neither the database nor the heap. -/
theorem sendDataStr_heap {reply : Reply} (sent : sendDataStr env w c reply = (ret, w')) :
    w'.db = w.db ∧ w'.mem = w.mem :=
  sendDataStr_keeps (P := fun w' => w'.db = w.db ∧ w'.mem = w.mem) id ⟨rfl, rfl⟩ sent

theorem Answers.grantSetters (answers : Answers key P) (env : Env N) (setClients : Fin N → Bool)
    (l : List (Fin N)) (flag : Bool) (holds : P w) :
    P (grantSetters env key setClients l flag w).2.2 := by
  induction l generalizing flag w with
  | nil => exact holds
  | cons i rest ih =>
      have marked : P { w with db := (w.db.addInSet key).2 } :=
        answers.update holds fun _ => ⟨rfl, rfl⟩
      have answered : P (if flag = false then
          RdmaWiki.sendAck env { w with db := (w.db.addInSet key).2 } i
          else RdmaWiki.sendNack env { w with db := (w.db.addInSet key).2 } i).2 := by
        split
        next => exact answers.sendAck env i marked
        next => exact answers.sendNack env i marked
      simp only [RdmaWiki.grantSetters]
      split
      next =>
        split
        next stopped =>
          rw [stopped] at answered
          exact answered
        next went =>
          rw [went] at answered
          exact ih true answered
      next => exact ih flag holds

theorem Answers.grantGetters (answers : Answers key P) (env : Env N) (getClients : Fin N → Bool)
    (l : List (Fin N)) (holds : P w) : P (grantGetters env key getClients l w).2 := by
  induction l generalizing w with
  | nil => exact holds
  | cons i rest ih =>
      have counted : P { w with db := (w.db.addNumInGet key).2 } :=
        answers.update holds fun _ => ⟨rfl, rfl⟩
      have answered := answers.sendAck env i counted
      simp only [RdmaWiki.grantGetters]
      split
      next =>
        split
        next stopped =>
          rw [stopped] at answered
          exact answered
        next went =>
          rw [went] at answered
          exact ih answered
      next => exact ih holds

theorem Answers.serverPending (answers : Answers key P) (holds : P w)
    (pending : serverPending env w key = some (ret, w')) : P w' := by
  unfold RdmaWiki.serverPending at pending
  split at pending
  next => cases pending
  next setClients _ =>
    have looped := answers.grantSetters env setClients (List.finRange N) false holds
    split at pending
    next stopped =>
      rw [stopped] at looped
      cases pending
      exact looped
    next went =>
      rw [went] at looped
      cases pending
      exact answers.update looped fun _ => ⟨rfl, rfl⟩
    next went =>
      rw [went] at looped
      split at pending
      next => cases pending
      next getClients _ =>
        have served := answers.grantGetters env getClients (List.finRange N) looped
        split at pending
        next stopped =>
          rw [stopped] at served
          cases pending
          exact served
        next went =>
          rw [went] at served
          cases pending
          exact answers.update served fun _ => ⟨rfl, rfl⟩

theorem Answers.serverSetFin (answers : Answers key P) (holds : P w)
    (handled : serverSetFin env w key c = some (ret, w')) : P w' := by
  have unlocked : P { w with db := (w.db.removeInSet key).2 } :=
    answers.update holds fun _ => ⟨rfl, rfl⟩
  simp only [RdmaWiki.serverSetFin] at handled
  split at handled
  next => cases handled
  next pending =>
    cases handled
    exact answers.serverPending unlocked pending
  next pending =>
    cases handled
    exact answers.sendAck env c (answers.serverPending unlocked pending)

theorem Answers.serverGetFin (answers : Answers key P) (holds : P w)
    (handled : serverGetFin env w key c = some (ret, w')) : P w' := by
  have uncounted : P { w with db := (w.db.removeNumInGet key).2 } :=
    answers.update holds fun _ => ⟨rfl, rfl⟩
  simp only [RdmaWiki.serverGetFin] at handled
  split at handled
  next => cases handled
  next pending =>
    cases handled
    exact answers.serverPending uncounted pending
  next pending =>
    cases handled
    exact answers.sendAck env c (answers.serverPending uncounted pending)

theorem Answers.serverGetAsk (answers : Answers key P) (holds : P w) :
    P (serverGetAsk env w key c).2 := by
  unfold RdmaWiki.serverGetAsk
  split
  next => exact answers.update holds fun _ => ⟨rfl, rfl⟩
  next => exact answers.sendAck env c holds

theorem Answers.getValue {db : Database N} {value : Option Value} (answers : Answers key P)
    (holds : P w) (got : w.db.getValue key = some (value, db)) : P { w with db := db } := by
  unfold Database.getValue at got
  split at got
  next => cases got
  next =>
    cases got
    exact answers.update holds fun _ => ⟨rfl, rfl⟩

/-- The texts that the server formats for the client whose request it handles, oldest
first. -/
def Request.texts (env : Env N) (w : World N) : Request → List Reply
  | .setRendezvous _ size =>
    if size < 0 ∨ intMax ≤ size then []
    else
      match env.mallocBytes, env.regMr with
      | some addr, some rkey => [.region rkey addr]
      | _, _ => []
  | .get key =>
    match (w.db.find key).bind Item.value with
    | none => []
    | some value =>
      if value.isLarge = false then
        ((w.mem.block value.value).map fun bytes => .eager (text bytes)).toList
      else
        .size value.size ::
          if env.postSend w.sent.length && env.waitSend w.sent.length then
            (value.mr.map fun mr => .region mr.rkey mr.addr).toList
          else []
  | .setAsk _ | .setEager _ _ | .setFin _ | .getAsk _ | .getFin _ => []

/-- What the answers and the texts of a `g0` keep, its handler keeps. -/
theorem Answers.parseDataG0 (answers : Answers key P)
    (tells : ∀ {w' : World N} {reply}, reply ∈ (Request.get key).texts env w → P w' →
      P { w' with sent := w'.sent ++ [(c, reply)] })
    (holds : P w) (handled : parseDataG0 env w key c = some (ret, w')) : P w' := by
  unfold RdmaWiki.parseDataG0 at handled
  split at handled
  next =>
    cases handled
    exact answers.update holds fun _ => ⟨rfl, rfl⟩
  next => cases handled
  next value db got =>
    have counted := answers.getValue holds got
    have stored : (w.db.find key).bind Item.value = some value := by
      unfold Database.getValue at got
      split at got
      next => cases got
      next item found =>
        rw [found, Option.bind_some]
        exact (Prod.mk.inj (Option.some.inj got)).1
    simp only [Request.texts, stored] at tells
    simp only at handled
    split at handled
    next small =>
      simp only [small, if_true] at tells
      unfold serverGetEager at handled
      split at handled
      next => cases handled
      next bytes block =>
        have block : w.mem.block value.value = some bytes := block
        simp only [block, Option.map_some, Option.toList_some] at tells
        have tells {w' : World N} := @tells w' _ (List.mem_singleton_self _)
        split at handled
        next sent =>
          cases handled
          exact sendDataStr_keeps tells counted sent
        next sent => exact answers.serverGetFin (sendDataStr_keeps tells counted sent) handled
    next large =>
      simp only [if_neg large] at tells
      have size {w' : World N} := @tells w' _ List.mem_cons_self
      unfold serverGetRendezvous at handled
      split at handled
      next sent =>
        cases handled
        exact sendDataStr_keeps size counted sent
      next sent =>
        have delivers : env.Delivers w.sent.length := by
          rcases sendDataStr_cases sent with ⟨-, delivers, -⟩ | ⟨lost, -⟩
          · exact delivers
          · cases lost
        split at handled
        next => cases handled
        next mr registered =>
          simp only [delivers.1, delivers.2, Bool.and_self, if_true, registered, Option.map_some,
            Option.toList_some] at tells
          rw [Option.some.injEq] at handled
          have region {w' : World N} :=
            @tells w' (.region mr.rkey mr.addr) (List.mem_cons_of_mem _ (List.mem_singleton_self _))
          exact sendDataStr_keeps region (sendDataStr_keeps size counted sent) handled

/-! ## What a request stores -/

/-- A writer that keeps the value of its record keeps the values of all. -/
theorem Database.value_update {db : Database N} {change : Item N → Item N} (k key : Bytes)
    (keeps : ∀ item, (change item).key = item.key ∧ (change item).value = item.value) :
    ((db.update k change).2.find key).bind Item.value = (db.find key).bind Item.value := by
  rcases eq_or_ne key k with rfl | other
  · cases found : db.find key with
    | none => rw [Database.update_absent found, found]
    | some item =>
        rw [(Database.find_update (fun item => (keeps item).1) found).2, Function.update_self,
          Option.bind_some, Option.bind_some, (keeps item).2]
  · rw [Database.find_update_ne (fun item => (keeps item).1) other]

theorem Database.find_update_eq_none {db : Database N} {change : Item N → Item N} (k key : Bytes)
    (keeps : ∀ item, (change item).key = item.key) :
    (db.update k change).2.find key = none ↔ db.find key = none := by
  rcases eq_or_ne key k with rfl | other
  · cases found : db.find key with
    | none => rw [Database.update_absent found, found]
    | some item => simp [(Database.find_update keeps found).2]
  · rw [Database.find_update_ne keeps other]

/-- The value that a request gives its record, in the memory where it lies. -/
inductive Request.Stores (env : Env N) (w : World N) : Request → Option Value → Mem → Prop
  | ask (key : Bytes) (free : w.db.validSet key = true) :
    Request.Stores env w (.setAsk key) none w.mem
  | eager (key value : Bytes) {addr : UInt64} (given : env.mallocBytes = some addr) :
    Request.Stores env w (.setEager key value) (some ⟨addr, value.length, false, none⟩)
      (w.mem.alloc addr (value ++ [0]))
  | rendezvous (key : Bytes) {size : ℕ} (bounded : (size : Int) < intMax) {addr : UInt64}
    (given : env.mallocBytes = some addr) {rkey : UInt32} (registered : env.regMr = some rkey) :
    Request.Stores env w (.setRendezvous key size) (some ⟨addr, size, true, some ⟨rkey, addr⟩⟩)
      ((w.mem.alloc addr ((env.junkBytes (size + 1)).set size 0)).register addr rkey size)

/-- Memory changes at most where `malloc` has returned it, and something lies there now. -/
def Mem.GrownBy (env : Env N) (mem mem' : Mem) : Prop :=
  ∀ a, (env.mallocBytes = some a → mem'.block a = none) →
    mem'.block a = mem.block a ∧ mem'.region a = mem.region a

theorem Mem.grownBy_alloc {addr : UInt64} (given : env.mallocBytes = some addr) (mem : Mem)
    (bytes : Bytes) : mem.GrownBy env (mem.alloc addr bytes) := by
  intro a other
  have apart : a ≠ addr := by
    rintro rfl
    simpa [Mem.alloc] using other given
  simp [Mem.alloc, apart]

theorem Mem.grownBy_register {addr : UInt64} (given : env.mallocBytes = some addr) (mem : Mem)
    (bytes : Bytes) (rkey : UInt32) (n : ℕ) :
    mem.GrownBy env ((mem.alloc addr bytes).register addr rkey n) := by
  intro a other
  have apart : a ≠ addr := by
    rintro rfl
    simpa [Mem.alloc, Mem.register] using other given
  simp [Mem.alloc, Mem.register, apart]

theorem Request.Stores.grown {r : Request} {value : Option Value} {mem : Mem}
    (stores : r.Stores env w value mem) : w.mem.GrownBy env mem := by
  cases stores with
  | ask key free => exact fun _ _ => ⟨rfl, rfl⟩
  | eager key value given => exact Mem.grownBy_alloc given w.mem _
  | rendezvous key bounded given registered => exact Mem.grownBy_register given w.mem _ _ _

/-- What the answers, the texts, new memory and the one `set_item` of a request keep, its
handler keeps. -/
theorem handle_rule {r : Request} (answers : Answers r.key P)
    (tells : ∀ {w' : World N} {reply}, reply ∈ r.texts env w → P w' →
      P { w' with sent := w'.sent ++ [(c, reply)] })
    (fresh : ∀ mem, w.mem.GrownBy env mem → P { w with mem := mem })
    (stored : ∀ value mem sent, r.Stores env w value mem → P ⟨w.db, mem, sent⟩ →
      P ⟨(w.db.setItem env mem r.key value).2.1, (w.db.setItem env mem r.key value).2.2, sent⟩)
    (holds : P w) (handled : handle env w c r = some (ret, w')) : P w' := by
  cases r with
  | setAsk key =>
      simp only [Request.key] at answers stored
      rw [handle, Option.some.injEq] at handled
      unfold serverSetAsk at handled
      split at handled
      next =>
        cases handled
        exact answers.update holds fun _ => ⟨rfl, rfl⟩
      next valid =>
        have valid := Bool.eq_true_of_not_eq_false valid
        have answered := answers.sendAck env c (stored none w.mem w.sent (.ask key valid) holds)
        simp only at handled
        rw [handled] at answered
        exact answered
  | setEager key value =>
      simp only [Request.key] at answers stored
      simp only [handle, parseDataSe] at handled
      split at handled
      next =>
        cases handled
        exact holds
      next addr given =>
        have held := fresh _ (Mem.grownBy_alloc given w.mem (value ++ [0]))
        unfold serverSetEager at handled
        split at handled
        next =>
          cases handled
          exact held
        next =>
          have set := stored _ _ _ (.eager key value given) held
          split at handled
          next failed =>
            rw [failed] at set
            cases handled
            exact set
          next went =>
            rw [went] at set
            exact answers.serverSetFin set handled
  | setRendezvous key size =>
      simp only [Request.key] at answers stored
      simp only [handle, serverSetRendezvous] at handled
      split at handled
      next => cases handled
      next inside =>
        simp only [Request.texts, if_neg inside] at tells
        have inside := not_or.mp inside
        lift size to ℕ using Int.not_lt.mp inside.1
        split at handled
        next => cases handled
        next addr given =>
          simp only [Int.toNat_natCast] at handled
          split at handled
          next =>
            cases handled
            exact fresh _ (Mem.grownBy_alloc given w.mem _)
          next rkey registered =>
            simp only [given, registered] at tells
            have region {w' : World N} := @tells w' _ (List.mem_singleton_self _)
            have held := fresh _ (Mem.grownBy_register given w.mem
              ((env.junkBytes (size + 1)).set size 0) rkey size)
            split at handled
            next sent =>
              cases handled
              exact sendDataStr_keeps region held sent
            next w₁ sent =>
              have kept := sendDataStr_heap sent
              have told := sendDataStr_keeps region held sent
              split at handled
              next =>
                cases handled
                exact told
              next =>
                cases handled
                rw [kept.1, kept.2]
                refine stored _ _ _
                  (.rendezvous key (Int.not_le.mp inside.2) given registered) ?_
                rw [← kept.1, ← kept.2]
                exact told
  | setFin key => exact answers.serverSetFin holds handled
  | getAsk key =>
      rw [handle, Option.some.injEq] at handled
      have asked : P (serverGetAsk env w key c).2 := answers.serverGetAsk holds
      rw [handled] at asked
      exact asked
  | get key => exact answers.parseDataG0 tells holds handled
  | getFin key => exact answers.serverGetFin holds handled

/-- What the writers of the key of a request keep, its handler keeps. -/
theorem handle_keeps {r : Request} (writes : Writes env r.key P) (holds : P w)
    (handled : handle env w c r = some (ret, w')) : P w' := by
  refine handle_rule writes.answers (fun _ holds => writes.send _ holds) ?_ ?_ holds handled
  · exact fun mem _ => writes.heap mem holds
  · exact fun value mem sent _ held => writes.heap _ (writes.setItem value held)

/-- A handler repeats no key. -/
theorem handle_distinct {r : Request} (distinct : w.db.Distinct)
    (handled : handle env w c r = some (ret, w')) : w'.db.Distinct := by
  refine handle_keeps (P := fun w => w.db.Distinct) ⟨⟨?_, ?_⟩, ?_, ?_⟩ distinct handled
  · exact fun distinct keeps => distinct.update fun item => (keeps item).1
  · exact fun _ distinct => distinct
  · exact fun _ distinct => distinct
  · exact fun value distinct => distinct.setItem ..

/-- A handler leaves the records of the other keys alone. -/
theorem handle_elsewhere {r : Request} {k : Bytes} (other : k ≠ r.key)
    (handled : handle env w c r = some (ret, w')) : w'.db.find k = w.db.find k := by
  refine handle_keeps (P := fun w' => w'.db.find k = w.db.find k) ⟨⟨?_, ?_⟩, ?_, ?_⟩ rfl handled
  · intro w' change same keeps
    rw [← same]
    exact Database.find_update_ne (fun item => (keeps item).1) other
  · exact fun _ same => same
  · exact fun _ same => same
  · intro w' value same
    rw [← same]
    exact Database.find_setItem_ne env w'.mem value other

end Keeps

end RdmaWiki
