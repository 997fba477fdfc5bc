import RdmaWiki.Server

/-!
The effects of the server's functions, whatever the library and verbs calls return.

`World.Becomes w w' key item mem replies` says that handling took `w` to `w'`
by replacing the record of `key` with `item`, leaving every other record as it
was, setting the heap to `mem` and sending `replies`.

The loops of `server_pending` change the record before each of their sends, so a post
that fails in the middle leaves the record half changed. `Sends` says which record is
left by which post. `setItem_spec` is the one other place where a failing call decides
about a record.
-/

namespace RdmaWiki

open CText

variable {N : ℕ}

structure World.Becomes (w w' : World N) (key : Bytes) (item : Item N) (mem : Mem)
    (replies : List (Fin N × Reply)) : Prop where
  find : w'.db.find = Function.update w.db.find key (some item)
  mem : w'.mem = mem
  sent : w'.sent = w.sent ++ replies

section Becomes

variable {w w' w'' : World N} {key : Bytes} {item item' : Item N} {mem mem' : Mem}
  {replies replies' : List (Fin N × Reply)}

theorem World.Becomes.find_self (becomes : w.Becomes w' key item mem replies) :
    w'.db.find key = some item := by
  rw [becomes.find, Function.update_self]

theorem World.Becomes.trans (first : w.Becomes w' key item mem replies)
    (second : w'.Becomes w'' key item' mem' replies') :
    w.Becomes w'' key item' mem' (replies ++ replies') where
  find := by rw [second.find, first.find, Function.update_idem]
  mem := second.mem
  sent := by rw [second.sent, first.sent, List.append_assoc]

/-- A world that keeps its database becomes itself at a present key. -/
theorem World.Becomes.of_db_eq (found : w.db.find key = some item) (same : w'.db = w.db)
    (sent : w'.sent = w.sent ++ replies) : w.Becomes w' key item w'.mem replies where
  find := by rw [same, ← found, Function.update_eq_self]
  mem := rfl
  sent := sent

/-- A writer's walk on a present key. -/
theorem World.Becomes.of_update {change : Item N → Item N}
    (keeps : ∀ item, (change item).key = item.key) (found : w.db.find key = some item) :
    w.Becomes { w with db := (w.db.update key change).2 } key (change item) w.mem [] where
  find := (Database.find_update keeps found).2
  mem := rfl
  sent := (List.append_nil _).symm

theorem World.Becomes.of_mem_eq (becomes : w.Becomes w' key item mem replies)
    (same : mem = mem') : w.Becomes w' key item mem' replies := by
  subst same
  exact becomes

/-- One more message after an effect. -/
theorem World.Becomes.send (becomes : w.Becomes w' key item mem replies)
    (message : Fin N × Reply) :
    w.Becomes { w' with sent := w'.sent ++ [message] } key item mem
      (replies ++ [message]) where
  find := becomes.find
  mem := becomes.mem
  sent := by rw [becomes.sent, List.append_assoc]

end Becomes

/-! ## Posts -/

/-- `n` posts from `start` on succeed. -/
def Env.Posts (env : Env N) (start n : ℕ) : Prop := ∀ i < n, env.postSend (start + i) = true

/-- Of the posts from `start` on, the `j`-th is the first that fails. -/
def Env.FailsAt (env : Env N) (start j : ℕ) : Prop :=
  env.Posts start j ∧ env.postSend (start + j) = false

/-- A message that `send_data_str` posts, and waits for, gets through. -/
def Env.Delivers (env : Env N) (i : ℕ) : Prop := env.postSend i = true ∧ env.waitSend i = true

/-- The messages `replies` are sent one after the other and leave the record `item`, or the
`j`-th post is the first that fails and leaves the record `cut j`. -/
inductive Sends (env : Env N) (w : World N) (key : Bytes) (replies : List (Fin N × Reply))
    (item : Item N) (cut : ℕ → Item N) : Ret → World N → Prop
  | all {w' : World N} (posts : env.Posts w.sent.length replies.length)
      (becomes : w.Becomes w' key item w.mem replies) :
      Sends env w key replies item cut .exitSuccess w'
  | cut {w' : World N} {j : ℕ} (within : j < replies.length)
      (fails : env.FailsAt w.sent.length j)
      (becomes : w.Becomes w' key (cut j) w.mem (replies.take j)) :
      Sends env w key replies item cut .exitFailure w'

section Sends

variable {env : Env N} {w w' w₁ : World N} {key : Bytes} {item item₁ : Item N} {c : Fin N}
  {replies : List (Fin N × Reply)} {message : Fin N × Reply} {cut cut₁ : ℕ → Item N} {ret : Ret}

theorem Env.posts_succ {start n : ℕ} :
    env.Posts start (n + 1) ↔ env.postSend start = true ∧ env.Posts (start + 1) n := by
  constructor
  · intro posts
    refine ⟨posts 0 (Nat.succ_pos n), fun i within => ?_⟩
    rw [Nat.add_assoc, Nat.add_comm 1]
    exact posts (i + 1) (by omega)
  · intro ⟨first, posts⟩ i within
    cases i with
    | zero => exact first
    | succ i =>
        rw [← Nat.add_assoc, Nat.add_right_comm]
        exact posts i (by omega)

/-- Nothing is sent. -/
theorem Sends.nil (found : w.db.find key = some item) :
    Sends env w key [] item cut .exitSuccess w :=
  .all (fun _ within => absurd within (Nat.not_lt_zero _))
    (.of_db_eq found rfl (List.append_nil _).symm)

/-- The first post fails. -/
theorem Sends.first (failed : env.postSend w.sent.length = false)
    (before : w.Becomes w' key (cut 0) w.mem []) :
    Sends env w key (message :: replies) item cut .exitFailure w' := by
  apply Sends.cut (j := 0)
  · exact Nat.succ_pos _
  · exact ⟨fun _ within => absurd within (Nat.not_lt_zero _), failed⟩
  · rw [List.take_zero]
    exact before

/-- The first message is sent, and the rest follow. -/
theorem Sends.cons (posted : env.postSend w.sent.length = true)
    (step : w.Becomes w₁ key item₁ w.mem [message])
    (rest : Sends env w₁ key replies item (fun j => cut (j + 1)) ret w') :
    Sends env w key (message :: replies) item cut ret w' := by
  have length : w₁.sent.length = w.sent.length + 1 := by
    rw [step.sent, List.length_append, List.length_singleton]
  cases rest with
  | all posts becomes =>
      rw [length] at posts
      exact .all (Env.posts_succ.mpr ⟨posted, posts⟩)
        ((step.trans becomes).of_mem_eq step.mem)
  | @cut _ j within fails becomes =>
      obtain ⟨posts, failed⟩ := fails
      rw [length] at posts failed
      apply Sends.cut (j := j + 1)
      · exact Nat.succ_lt_succ within
      · exact ⟨Env.posts_succ.mpr ⟨posted, posts⟩, by rw [← failed]; congr 1; omega⟩
      · rw [List.take_succ_cons]
        exact (step.trans becomes).of_mem_eq step.mem

/-- `send_data_str` succeeds exactly when its message gets through. -/
theorem sendDataStr_cases {reply : Reply} (posted : sendDataStr env w c reply = (ret, w')) :
    (ret = .exitSuccess ∧ env.Delivers w.sent.length ∧
        w' = { w with sent := w.sent ++ [(c, reply)] }) ∨
      (ret = .exitFailure ∧ ¬ env.Delivers w.sent.length ∧ w'.db = w.db) := by
  unfold sendDataStr at posted
  unfold Env.Delivers
  split at posted
  next failed =>
    cases posted
    exact .inr ⟨rfl, by simp [failed], rfl⟩
  next went =>
    split at posted
    next failed =>
      cases posted
      exact .inr ⟨rfl, by simp [failed], rfl⟩
    next waited =>
      cases posted
      exact .inl ⟨rfl, by simpa using And.intro went waited, rfl⟩

/-- Where every post succeeds, everything is sent. -/
theorem Sends.of_posts (sends : Sends env w key replies item cut ret w')
    (posts : env.Posts w.sent.length replies.length) :
    ret = .exitSuccess ∧ w.Becomes w' key item w.mem replies := by
  cases sends with
  | all _ becomes => exact ⟨rfl, becomes⟩
  | cut within fails becomes =>
      have posted := posts _ within
      rw [fails.2] at posted
      cases posted

end Sends

/-! ## `server_pending` -/

/-- The answers to a list of waiting setters: the first is granted. -/
def setterReplies : List (Fin N) → List (Fin N × Reply)
  | [] => []
  | first :: rest => (first, .ack) :: rest.map fun i => (i, .nack)

def Item.waitingSetters (item : Item N) : List (Fin N) :=
  (List.finRange N).filter item.clientSet

def Item.waitingGetters (item : Item N) : List (Fin N) :=
  (List.finRange N).filter item.clientGet

/-- The record after `server_pending`. -/
def Item.woken (item : Item N) : Item N :=
  if item.waitingSetters = [] then
    { item with
      numInGet := item.numInGet + item.waitingGetters.length
      clientGet := fun _ => false }
  else { item with isSet := true, clientSet := fun _ => false }

/-- The messages `server_pending` sends. -/
def Item.wakeReplies (item : Item N) : List (Fin N × Reply) :=
  if item.waitingSetters = [] then item.waitingGetters.map fun i => (i, .ack)
  else setterReplies item.waitingSetters

/-- The record that `server_pending` leaves when its `j`-th post fails. -/
def Item.interrupted (item : Item N) (j : ℕ) : Item N :=
  if item.waitingSetters = [] then { item with numInGet := item.numInGet + (j + 1 : ℕ) }
  else { item with isSet := true }

section Pending

variable (env : Env N) {w : World N} {key : Bytes} {item : Item N} {c : Fin N}

/-- The setter loop once a setter was found: the rest get a NACK and the record
stays locked. -/
theorem grantSetters_found (setClients : Fin N → Bool) (l : List (Fin N))
    (found : w.db.find key = some item) (locked : item.isSet = true) :
    ∃ ret w', grantSetters env key setClients l true w = (ret, true, w') ∧
      Sends env w key ((l.filter setClients).map fun i => (i, .nack)) item (fun _ => item)
        ret w' := by
  induction l generalizing w with
  | nil => exact ⟨.exitSuccess, w, rfl, .nil found⟩
  | cons i rest ih =>
      by_cases waits : setClients i = true
      · have relocked := World.Becomes.of_update (w := w)
          (fun _ => rfl : ∀ item : Item N, { item with isSet := true }.key = item.key) found
        have same : { item with isSet := true } = item := by rw [← locked]
        rw [same] at relocked
        rw [List.filter_cons_of_pos waits, List.map_cons]
        cases posted : env.postSend w.sent.length with
        | false =>
            refine ⟨.exitFailure, _, ?_, .first posted relocked⟩
            simp [grantSetters, waits, Database.addInSet, sendNack, posted]
        | true =>
            have step := relocked.send (i, .nack)
            obtain ⟨ret, w', loop, sends⟩ := ih step.find_self
            refine ⟨ret, w', ?_, .cons posted step sends⟩
            simpa [grantSetters, waits, Database.addInSet, sendNack, posted] using loop
      · obtain ⟨ret, w', loop, sends⟩ := ih found
        refine ⟨ret, w', ?_, ?_⟩
        · simpa [grantSetters, waits] using loop
        · rwa [List.filter_cons_of_neg waits]

/-- The setter loop before a setter was found. -/
theorem grantSetters_searching (setClients : Fin N → Bool) (l : List (Fin N))
    (found : w.db.find key = some item) :
    ∃ ret flag w', grantSetters env key setClients l false w = (ret, flag, w') ∧
      (ret = .exitSuccess → flag = decide (l.filter setClients ≠ [])) ∧
      Sends env w key (setterReplies (l.filter setClients))
        (if (l.filter setClients) = [] then item else { item with isSet := true })
        (fun _ => { item with isSet := true }) ret w' := by
  induction l generalizing w with
  | nil => exact ⟨.exitSuccess, false, w, rfl, fun _ => rfl, .nil found⟩
  | cons i rest ih =>
      by_cases waits : setClients i = true
      · have locked := World.Becomes.of_update (w := w)
          (fun _ => rfl : ∀ item : Item N, { item with isSet := true }.key = item.key) found
        rw [List.filter_cons_of_pos waits]
        simp only [reduceCtorEq, if_false, setterReplies]
        cases posted : env.postSend w.sent.length with
        | false =>
            refine ⟨.exitFailure, false, _, ?_, (by simp), .first posted locked⟩
            simp [grantSetters, waits, Database.addInSet, sendAck, posted]
        | true =>
            have step := locked.send (i, .ack)
            obtain ⟨ret, w', loop, sends⟩ :=
              grantSetters_found env setClients rest step.find_self rfl
            refine ⟨ret, true, w', ?_, (by simp), .cons posted step sends⟩
            simpa [grantSetters, waits, Database.addInSet, sendAck, posted] using loop
      · obtain ⟨ret, flag, w', loop, flagged, sends⟩ := ih found
        refine ⟨ret, flag, w', ?_, ?_, ?_⟩
        · simpa [grantSetters, waits] using loop
        · rwa [List.filter_cons_of_neg waits]
        · rwa [List.filter_cons_of_neg waits]

/-- The getter loop counts a getter, then answers it. -/
theorem grantGetters_spec (getClients : Fin N → Bool) (l : List (Fin N))
    (found : w.db.find key = some item) :
    ∃ ret w', grantGetters env key getClients l w = (ret, w') ∧
      Sends env w key ((l.filter getClients).map fun i => (i, .ack))
        { item with numInGet := item.numInGet + (l.filter getClients).length }
        (fun j => { item with numInGet := item.numInGet + (j + 1 : ℕ) }) ret w' := by
  induction l generalizing w item with
  | nil =>
      refine ⟨.exitSuccess, w, rfl, .nil ?_⟩
      simpa using found
  | cons i rest ih =>
      by_cases waits : getClients i = true
      · have counted := World.Becomes.of_update (w := w)
          (fun _ => rfl :
            ∀ item : Item N, { item with numInGet := item.numInGet + 1 }.key = item.key) found
        rw [List.filter_cons_of_pos waits, List.map_cons, List.length_cons]
        cases posted : env.postSend w.sent.length with
        | false =>
            refine ⟨.exitFailure, _, ?_, .first posted counted⟩
            simp [grantGetters, waits, Database.addNumInGet, sendAck, posted]
        | true =>
            have step := counted.send (i, .ack)
            obtain ⟨ret, w', loop, sends⟩ := ih step.find_self
            refine ⟨ret, w', ?_, .cons posted step ?_⟩
            · simpa [grantGetters, waits, Database.addNumInGet, sendAck, posted]
                using loop
            · have later (n : ℕ) : item.numInGet + 1 + (n : Int) = item.numInGet + (n + 1 : ℕ) := by
                omega
              simp only [later] at sends
              exact sends
      · obtain ⟨ret, w', loop, sends⟩ := ih found
        refine ⟨ret, w', ?_, ?_⟩
        · simpa [grantGetters, waits] using loop
        · rwa [List.filter_cons_of_neg waits]

/-- `server_pending` on a present key. -/
theorem serverPending_spec (found : w.db.find key = some item) :
    ∃ ret w', serverPending env w key = some (ret, w') ∧
      Sends env w key item.wakeReplies item.woken item.interrupted ret w' := by
  obtain ⟨ret₁, flag, w₁, setLoop, flagged, granted⟩ :=
    grantSetters_searching env item.clientSet (List.finRange N) found
  have setArray : w.db.setQuery key = some item.clientSet := by
    simp [Database.setQuery, found]
  change Sends env w key (setterReplies item.waitingSetters)
    (if item.waitingSetters = [] then _ else _) _ ret₁ w₁ at granted
  by_cases nobody : item.waitingSetters = []
  · -- no setter waits, so the getters are served
    have wakes : item.wakeReplies = item.waitingGetters.map fun i => (i, .ack) := by
      rw [Item.wakeReplies, if_pos nobody]
    have quiet : decide ((List.finRange N).filter item.clientSet ≠ []) = false :=
      decide_eq_false (not_not.mpr nobody)
    rw [nobody, if_pos rfl] at granted
    obtain ⟨rfl, passed⟩ :=
      granted.of_posts fun _ within => absurd within (Nat.not_lt_zero _)
    rw [flagged rfl, quiet] at setLoop
    have getArray : w₁.db.getQuery key = some item.clientGet := by
      simp [Database.getQuery, passed.find_self]
    obtain ⟨ret, w₂, getLoop, counted⟩ :=
      grantGetters_spec env item.clientGet (List.finRange N) passed.find_self
    have length : w₁.sent.length = w.sent.length := by
      rw [passed.sent, setterReplies, List.append_nil]
    cases counted with
    | all posts becomes =>
        have emptied := World.Becomes.of_update (w := w₂)
          (fun _ => rfl :
            ∀ item : Item N, { item with clientGet := fun _ => false }.key = item.key)
          becomes.find_self
        have whole := ((passed.trans becomes).trans emptied).of_mem_eq
          (becomes.mem.trans passed.mem)
        rw [setterReplies, List.nil_append, List.append_nil] at whole
        rw [length] at posts
        refine ⟨.exitSuccess, { w₂ with db := w₂.db.emptyGetQuery key }, ?_, ?_⟩
        · simp only [serverPending, setArray, setLoop, getArray, getLoop]
        · rw [wakes]
          apply Sends.all posts
          rw [Item.woken, if_pos nobody]
          exact whole
    | cut within fails becomes =>
        have whole := (passed.trans becomes).of_mem_eq passed.mem
        rw [setterReplies, List.nil_append] at whole
        rw [length] at fails
        refine ⟨.exitFailure, w₂, ?_, ?_⟩
        · simp only [serverPending, setArray, setLoop, getArray, getLoop]
        · rw [wakes]
          apply Sends.cut within fails
          rw [Item.interrupted, if_pos nobody]
          exact whole
  · have wakes : item.wakeReplies = setterReplies item.waitingSetters := by
      rw [Item.wakeReplies, if_neg nobody]
    have someone : decide ((List.finRange N).filter item.clientSet ≠ []) = true :=
      decide_eq_true nobody
    rw [if_neg nobody] at granted
    cases granted with
    | all posts becomes =>
        rw [flagged rfl, someone] at setLoop
        have emptied := World.Becomes.of_update (w := w₁)
          (fun _ => rfl :
            ∀ item : Item N, { item with clientSet := fun _ => false }.key = item.key)
          becomes.find_self
        have whole := (becomes.trans emptied).of_mem_eq becomes.mem
        rw [List.append_nil] at whole
        refine ⟨.exitSuccess, { w₁ with db := w₁.db.emptySetQuery key }, ?_, ?_⟩
        · simp only [serverPending, setArray, setLoop]
        · rw [wakes]
          apply Sends.all posts
          rw [Item.woken, if_neg nobody]
          exact whole
    | cut within fails becomes =>
        refine ⟨.exitFailure, w₁, ?_, ?_⟩
        · simp only [serverPending, setArray, setLoop]
        · rw [wakes]
          apply Sends.cut within fails
          rw [Item.interrupted, if_neg nobody]
          exact becomes

end Pending

/-! ## `set_item` -/

section SetItem

variable {env : Env N} {db : Database N} {key : Bytes} {item : Item N}

/-- A record as `_add_item` finds it in the memory that `malloc` returns. -/
def Item.raw (junk : Junk N) (key : Bytes) : Item N :=
  ⟨key, none, false, junk.numInGet, junk.clientSet, junk.clientGet⟩

/-- The record that `set_item` writes to. -/
def Database.recordOr (db : Database N) (junk : Junk N) (key : Bytes) : Item N :=
  (db.find key).getD (Item.raw junk key)

/-- What an absent key stands for when it is first stored: a record without a
value, unlocked, with nobody counted or waiting. -/
def Item.blank (N : ℕ) (key : Bytes) : Item N :=
  ⟨key, none, false, 0, fun _ => false, fun _ => false⟩

/-- The record of a key, blank where there is none. -/
def Database.record (db : Database N) (key : Bytes) : Item N :=
  (db.find key).getD (Item.blank N key)

/-- The heap after a record's old value is released. -/
def Mem.release (mem : Mem) : Option Value → Mem
  | none => mem
  | some value =>
    if value.isLarge then (mem.dereg value.mr).free value.value else mem.free value.value

/-- A library call on the way of `set_item` fails: `malloc` for a new record,
`ibv_dereg_mr` for a large old value. -/
def Database.setItemFails (env : Env N) (db : Database N) (key : Bytes) : Bool :=
  match db.find key with
  | none => !(env.mallocItem && env.mallocNode)
  | some item => item.value.any Value.isLarge && !env.deregMr

theorem setItem_fails (fails : db.setItemFails env key = true) (mem : Mem)
    (value : Option Value) :
    db.setItem env mem key value = (.exitFailure, db, mem) := by
  unfold Database.setItemFails at fails
  cases found : db.find key with
  | none =>
      rw [found] at fails
      cases first : env.mallocItem with
      | false => simp [Database.setItem, found, Database.addItem, first]
      | true =>
          have second : env.mallocNode = false := by simpa [first] using fails
          simp [Database.setItem, found, Database.addItem, first, second]
  | some item =>
      simp only [found, Bool.and_eq_true, Option.any_eq_true, Bool.not_eq_true'] at fails
      obtain ⟨⟨old, stored, large⟩, dereg⟩ := fails
      simp [Database.setItem, found, stored, deallocValue, large, dereg]

theorem setItem_succeeds (fine : db.setItemFails env key = false) (mem : Mem)
    (value : Option Value) :
    ∃ db', db.setItem env mem key value =
        (.exitSuccess, db', mem.release (db.recordOr env.junk key).value) ∧
      db'.find = Function.update db.find key
        (some { db.recordOr env.junk key with value := value, isSet := true }) := by
  unfold Database.setItemFails at fine
  cases found : db.find key with
  | none =>
      simp only [found, Bool.not_eq_false', Bool.and_eq_true] at fine
      obtain ⟨ok, find⟩ := Database.find_addItem env db key value fine.1 fine.2
      refine ⟨(db.addItem env key value).2, ?_, ?_⟩
      · rw [Database.recordOr, found]
        simp only [Database.setItem, found, Option.getD_none, Item.raw, Mem.release]
        rw [← ok]
      · rw [Database.recordOr, found]
        exact find
  | some item =>
      simp only [found, Bool.and_eq_false_iff, Bool.not_eq_false'] at fine
      rw [Database.recordOr, found, Option.getD_some]
      refine ⟨_, ?_, (Database.find_update
        (fun _ => rfl :
          ∀ item : Item N, { item with value := value, isSet := true }.key = item.key)
        found).2⟩
      cases old : item.value with
      | none => simp [Database.setItem, found, old, Mem.release]
      | some oldValue =>
          cases large : oldValue.isLarge with
          | false => simp [Database.setItem, found, old, deallocValue, Mem.release, large]
          | true =>
              have dereg : env.deregMr = true := by simpa [old, large] using fine
              simp [Database.setItem, found, old, deallocValue, Mem.release, large, dereg]

end SetItem

end RdmaWiki
