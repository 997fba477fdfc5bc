import RdmaWiki.Crashes

/-!
What a failed request leaves behind.

`parse_data` returns `EXIT_FAILURE` when a library call or a verb fails on the way, and the
server loop goes on. A handler that fails before its first writer leaves the record of its
key alone. A handler that fails later has changed it, and no handler undoes its changes:
`Request.Kept` says, request by request, which calls must succeed for a failure to leave the
record as it was (`parseData_failure_iff`).

The handlers of a FIN end with `server_pending`. A post that fails there leaves the record
interrupted (`Finishes`), which is by chance the record that was there before in a few cases:
a locked record whose waiting setters are being answered, or a record whose last reader
has left and whose first waiting getter was counted.
-/

namespace RdmaWiki

open CText StepMachine

variable {N : ℕ}

/-- Every client that waits for the record is answered. -/
def Env.Wakes (env : Env N) (start : ℕ) (item : Item N) : Prop :=
  env.Posts start item.wakeReplies.length

/-- Setters wait for a record that is locked. -/
def Item.Queued (item : Item N) : Prop := item.waitingSetters ≠ [] ∧ item.isSet = true

/-- A failure while the request is handled leaves the record of its key as it was. -/
def Request.Kept (env : Env N) (db : Database N) : Request → Prop
  | .setAsk key =>
    db.validSet key = false ∨ db.setItemFails env key = true ∨ env.postSend 0 = true
  | .setEager key _ =>
    env.mallocBytes = none ∨ env.mallocValue = false ∨ db.setItemFails env key = true ∨
      env.Wakes 0 (db.recordOr env.junk key)
  | .setRendezvous _ _ => True
  | .setFin key => ∀ item, db.find key = some item → env.Wakes 0 item ∨ item.Queued
  | .getAsk _ => True
  | .get key => ∀ item, db.find key = some item → ∀ value, item.value = some value →
    env.Delivers 0 ∧
      if value.isLarge then env.Delivers 1 else env.Wakes 1 item ∨ item.Queued
  | .getFin key => ∀ item, db.find key = some item →
    env.Wakes 0 item ∨ (item.waitingSetters = [] ∧ env.postSend 0 = false)

/-! ## Interrupted records -/

section Interrupted

variable {env : Env N} {item : Item N} {start n j j' : ℕ}

theorem Env.FailsAt.not_posts (fails : env.FailsAt start j) (within : j < n) :
    ¬ env.Posts start n := by
  intro posts
  have posted := posts j within
  rw [fails.2] at posted
  cases posted

theorem Env.FailsAt.unique (fails : env.FailsAt start j) (fails' : env.FailsAt start j') :
    j = j' := by
  rcases Nat.lt_trichotomy j j' with before | same | after
  · exact absurd fails'.1 (fails.not_posts before)
  · exact same
  · exact absurd fails.1 (fails'.not_posts after)

/-- A post fails, or all succeed. -/
theorem Env.posts_or_failsAt (env : Env N) (start n : ℕ) :
    env.Posts start n ∨ ∃ j < n, env.FailsAt start j := by
  induction n with
  | zero => exact .inl fun i within => absurd within (Nat.not_lt_zero i)
  | succ n ih =>
      rcases ih with posts | ⟨j, within, fails⟩
      · cases posted : env.postSend (start + n) with
        | false => exact .inr ⟨n, Nat.lt_succ_self n, posts, posted⟩
        | true =>
            refine .inl fun i within => ?_
            rcases Nat.lt_succ_iff_lt_or_eq.mp within with before | rfl
            · exact posts i before
            · exact posted
      · exact .inr ⟨j, Nat.lt_succ_of_lt within, fails⟩

theorem Item.interrupted_value (item : Item N) (j : ℕ) :
    (item.interrupted j).value = item.value := by
  unfold Item.interrupted
  split
  next => rfl
  next => rfl

theorem Item.interrupted_getters (nobody : item.waitingSetters = []) (j : ℕ) :
    item.interrupted j = { item with numInGet := item.numInGet + (j + 1 : ℕ) } := if_pos nobody

theorem Item.interrupted_setters (someone : item.waitingSetters ≠ []) (j : ℕ) :
    item.interrupted j = { item with isSet := true } := if_neg someone

/-- Counting getters shows, and answering setters shows in the lock. -/
theorem Item.interrupted_eq_self_iff : item.interrupted j = item ↔ item.Queued := by
  by_cases nobody : item.waitingSetters = []
  · rw [Item.interrupted_getters nobody]
    constructor
    · intro same
      have count : item.numInGet + (j + 1 : ℕ) = item.numInGet := congrArg Item.numInGet same
      omega
    · intro queued
      exact absurd nobody queued.1
  · rw [Item.interrupted_setters nobody]
    constructor
    · intro same
      exact ⟨nobody, (congrArg Item.isSet same).symm⟩
    · intro queued
      rw [← queued.2]

/-- The same where the lock was taken off before. -/
theorem Item.unlocked_interrupted_iff {unlocked : Item N}
    (off : unlocked = { item with isSet := false }) :
    unlocked.interrupted j = item ↔ item.Queued := by
  rw [← Item.interrupted_eq_self_iff (j := j)]
  have waiting : unlocked.waitingSetters = item.waitingSetters := by rw [off]; rfl
  by_cases nobody : item.waitingSetters = []
  · rw [Item.interrupted_getters nobody, Item.interrupted_getters (waiting.trans nobody), off]
    constructor
    · intro same
      have count : item.numInGet + (j + 1 : ℕ) = item.numInGet := congrArg Item.numInGet same
      omega
    · intro same
      have count : item.numInGet + (j + 1 : ℕ) = item.numInGet := congrArg Item.numInGet same
      omega
  · rw [Item.interrupted_setters nobody, Item.interrupted_setters (waiting ▸ nobody), off]

/-- The first getter that is counted stands in for the reader that left. -/
theorem Item.left_interrupted_iff {left : Item N}
    (gone : left = { item with numInGet := item.numInGet - 1 }) :
    left.interrupted j = item ↔ item.waitingSetters = [] ∧ j = 0 := by
  have waiting : left.waitingSetters = item.waitingSetters := by rw [gone]; rfl
  by_cases nobody : item.waitingSetters = []
  · rw [Item.interrupted_getters (waiting.trans nobody), gone]
    constructor
    · intro same
      have count : item.numInGet - 1 + (j + 1 : ℕ) = item.numInGet :=
        congrArg Item.numInGet same
      exact ⟨nobody, by omega⟩
    · intro first
      have count : item.numInGet - 1 + (j + 1 : ℕ) = item.numInGet := by omega
      simp only [count]
  · rw [Item.interrupted_setters (waiting ▸ nobody), gone]
    constructor
    · intro same
      have count : item.numInGet - 1 = item.numInGet := congrArg Item.numInGet same
      omega
    · intro first
      exact absurd first.1 nobody

end Interrupted

/-! ## Handlers that answer the waiting clients -/

/-- Everyone who waits for `item` is answered, or a post fails and leaves it interrupted. -/
inductive Finishes (env : Env N) (w : World N) (key : Bytes) (item : Item N) :
    Ret → World N → Prop
  | all {w' : World N} (wakes : env.Wakes w.sent.length item) :
    Finishes env w key item .exitSuccess w'
  | cut {w' : World N} {j : ℕ} (within : j < item.wakeReplies.length)
    (fails : env.FailsAt w.sent.length j) (find : w'.db.find key = some (item.interrupted j))
    (mem : w'.mem = w.mem) : Finishes env w key item .exitFailure w'

section Finishes

variable {env : Env N} {db db' : Database N} {mem mem' : Mem} {w w' : World N} {key : Bytes}
  {item old : Item N} {c : Fin N} {ret : Ret}

/-- `server_pending`, and an ACK that nobody waits for. -/
theorem finishes_of_pending {item : Item N} {w₁ : World N} (found : w₁.db.find key = some item)
    (mem : w₁.mem = w.mem) (length : w₁.sent.length = w.sent.length)
    (handled : (match serverPending env w₁ key with
      | none => none
      | some (.exitFailure, w) => some (Ret.exitFailure, w)
      | some (.exitSuccess, w) => some (.exitSuccess, (sendAck env w c).2)) = some (ret, w')) :
    Finishes env w key item ret w' := by
  obtain ⟨ret₁, w₂, pending, sends⟩ := serverPending_spec env found
  rw [pending] at handled
  cases sends with
  | all posts becomes =>
      cases handled
      rw [length] at posts
      exact .all posts
  | cut within fails becomes =>
      cases handled
      rw [length] at fails
      exact .cut within fails becomes.find_self (becomes.mem.trans mem)

theorem serverSetFin_finishes (found : w.db.find key = some item)
    (handled : serverSetFin env w key c = some (ret, w')) :
    Finishes env w key { item with isSet := false } ret w' := by
  have removed := World.Becomes.of_update (w := w)
    (fun _ => rfl : ∀ item : Item N, { item with isSet := false }.key = item.key) found
  exact finishes_of_pending removed.find_self rfl rfl handled

theorem serverGetFin_finishes (found : w.db.find key = some item)
    (handled : serverGetFin env w key c = some (ret, w')) :
    Finishes env w key { item with numInGet := item.numInGet - 1 } ret w' := by
  have removed := World.Becomes.of_update (w := w)
    (fun _ => rfl :
      ∀ item : Item N, { item with numInGet := item.numInGet - 1 }.key = item.key) found
  exact finishes_of_pending removed.find_self rfl rfl handled

theorem view_eq_iff_find (same : mem' = mem) :
    view db' mem' key = view db mem key ↔ db'.find key = db.find key := by
  subst same
  constructor
  · intro views
    exact congrArg Prod.fst views
  · intro finds
    unfold view
    rw [finds]

/-- The record shows as before when everyone is answered or the interruption leaves what was
there. -/
theorem Finishes.kept_iff (finishes : Finishes env w key item ret w')
    (found : db.find key = some old) :
    (ret = .exitFailure → view w'.db w'.mem key = view db w.mem key) ↔
      env.Wakes w.sent.length item ∨
        ∀ j, env.FailsAt w.sent.length j → item.interrupted j = old := by
  cases finishes with
  | all wakes => simp [wakes]
  | @cut _ j within fails find mem =>
      rw [view_eq_iff_find mem, find, found, Option.some.injEq]
      constructor
      · intro kept
        refine .inr fun j' fails' => ?_
        rw [← fails.unique fails']
        exact kept rfl
      · intro wakes_or _
        rcases wakes_or with wakes | kept
        · exact absurd wakes (fails.not_posts within)
        · exact kept j fails

/-- What an interruption needs, for every post that can fail. -/
theorem Env.wakes_or_iff {P : ℕ → Prop} {Q : Prop} {start : ℕ}
    (each : ∀ j, env.FailsAt start j → (P j ↔ Q)) :
    (env.Wakes start item ∨ ∀ j, env.FailsAt start j → P j) ↔ env.Wakes start item ∨ Q := by
  constructor
  · rintro (wakes | all)
    · exact .inl wakes
    · rcases env.posts_or_failsAt start item.wakeReplies.length with posts | ⟨j, -, fails⟩
      · exact .inl posts
      · exact .inr ((each j fails).mp (all j fails))
  · rintro (wakes | holds)
    · exact .inl wakes
    · exact .inr fun j fails => (each j fails).mpr holds

end Finishes

/-! ## Every handler -/

section Handlers

variable {env : Env N} {db : Database N} {mem : Mem} {w w' : World N} {key : Bytes}
  {c : Fin N} {ret : Ret} {sent : List (Fin N × Reply)}

/-- A failure that keeps the record of the key. -/
def World.Keeps (db : Database N) (mem : Mem) (key : Bytes) (ret : Ret) (w : World N) : Prop :=
  ret = .exitFailure → view w.db w.mem key = view db mem key

theorem serverSetFin_keeps_iff
    (handled : serverSetFin env ⟨db, mem, []⟩ key c = some (ret, w)) :
    w.Keeps db mem key ret ↔
      ∀ item, db.find key = some item → env.Wakes 0 item ∨ item.Queued := by
  cases found : db.find key with
  | none =>
      have missing : (serverSetFin env ⟨db, mem, []⟩ key c).isSome = false := by
        rw [Bool.eq_false_iff, ne_eq, serverSetFin_isSome_iff]
        exact fun there => there found
      rw [handled] at missing
      cases missing
  | some item =>
      have finishes := serverSetFin_finishes (w := ⟨db, mem, []⟩) found handled
      simp only [Option.some.injEq, forall_eq']
      unfold World.Keeps
      rw [finishes.kept_iff found]
      exact Env.wakes_or_iff fun j _ => Item.unlocked_interrupted_iff rfl

theorem serverGetFin_keeps_iff
    (handled : serverGetFin env ⟨db, mem, []⟩ key c = some (ret, w)) :
    w.Keeps db mem key ret ↔ ∀ item, db.find key = some item →
      env.Wakes 0 item ∨ (item.waitingSetters = [] ∧ env.postSend 0 = false) := by
  cases found : db.find key with
  | none =>
      have missing : (serverGetFin env ⟨db, mem, []⟩ key c).isSome = false := by
        rw [Bool.eq_false_iff, ne_eq, serverGetFin_isSome_iff]
        exact fun there => there found
      rw [handled] at missing
      cases missing
  | some item =>
      have finishes := serverGetFin_finishes (w := ⟨db, mem, []⟩) found handled
      simp only [Option.some.injEq, forall_eq']
      unfold World.Keeps
      rw [finishes.kept_iff found]
      refine Env.wakes_or_iff fun j fails => ?_
      rw [Item.left_interrupted_iff rfl]
      refine and_congr_right fun _ => ?_
      constructor
      · intro first
        subst first
        exact fails.2
      · intro failed
        exact fails.unique ⟨fun i within => absurd within (Nat.not_lt_zero i), failed⟩

/-- `as` clears the value and locks the record before its ACK is posted. -/
theorem serverSetAsk_keeps_iff (handled : serverSetAsk env ⟨db, mem, []⟩ key c = (ret, w)) :
    w.Keeps db mem key ret ↔
      db.validSet key = false ∨ db.setItemFails env key = true ∨ env.postSend 0 = true := by
  unfold serverSetAsk at handled
  cases valid : db.validSet key with
  | false =>
      simp only [valid, if_true] at handled
      have added : ret = .exitSuccess := by
        cases found : db.find key with
        | none => simp [Database.validSet, found] at valid
        | some item =>
            have walked := (Database.find_update
              (fun _ => rfl : ∀ item : Item N,
                { item with clientSet := Function.update item.clientSet c true }.key = item.key)
              found).1
            exact (congrArg Prod.fst handled).symm.trans walked
      subst added
      exact iff_of_true (fun failed => by cases failed) (.inl rfl)
  | true =>
      simp only [valid, Bool.true_eq_false, if_false] at handled
      cases failed : db.setItemFails env key with
      | true =>
          rw [setItem_fails failed] at handled
          refine iff_of_true (fun _ => ?_) (.inr (.inl rfl))
          unfold sendAck at handled
          split at handled
          next =>
            cases handled
            rfl
          next =>
            cases handled
            rfl
      | false =>
          obtain ⟨db', stored, find⟩ := setItem_succeeds failed mem none
          rw [stored] at handled
          cases posted : env.postSend 0 with
          | true =>
              simp only [sendAck, List.length_nil, posted, Bool.true_eq_false, if_false] at handled
              cases handled
              exact iff_of_true (fun failed => by cases failed) (.inr (.inr rfl))
          | false =>
              simp only [sendAck, List.length_nil, posted, if_true] at handled
              cases handled
              refine iff_of_false (fun keeps => ?_) (by simp)
              -- the record is locked now, and it was free
              have same : db'.find key = db.find key := congrArg Prod.fst (keeps rfl)
              rw [find, Function.update_self] at same
              cases found : db.find key with
              | none =>
                  rw [found] at same
                  cases same
              | some item =>
                  have free : item.isSet = false := by
                    simp only [Database.validSet, found, Bool.and_eq_true, beq_iff_eq] at valid
                    exact valid.1
                  rw [found, Option.some.injEq] at same
                  have locked := congrArg Item.isSet same
                  rw [free] at locked
                  cases locked

/-- `se` stores the value before it answers the waiting clients. -/
theorem parseDataSe_keeps_iff {value : Bytes} (heap : Heap db.find mem) (fits : env.Fits mem)
    (handled : parseDataSe env ⟨db, mem, []⟩ key value c = some (ret, w)) :
    w.Keeps db mem key ret ↔
      env.mallocBytes = none ∨ env.mallocValue = false ∨ db.setItemFails env key = true ∨
        env.Wakes 0 (db.recordOr env.junk key) := by
  unfold parseDataSe at handled
  cases returned : env.mallocBytes with
  | none =>
      rw [returned] at handled
      cases handled
      simp [World.Keeps]
  | some addr =>
      have free := fits.fresh addr returned
      have kept : view db (mem.alloc addr (value ++ [0])) key = view db mem key :=
        heap.view_eq_iff (fun a inUse => (Mem.alloc_elsewhere free _ a inUse).1) |>.mpr rfl
      rw [returned] at handled
      unfold serverSetEager at handled
      cases allocated : env.mallocValue with
      | false =>
          simp only [allocated, if_true] at handled
          cases handled
          simp [World.Keeps, kept]
      | true =>
          simp only [allocated, Bool.true_eq_false, if_false] at handled
          cases failed : db.setItemFails env key with
          | true =>
              rw [setItem_fails failed] at handled
              cases handled
              simp [World.Keeps, kept]
          | false =>
              obtain ⟨db', stored, find⟩ := setItem_succeeds failed
                (mem.alloc addr (value ++ [0])) (some ⟨addr, value.length, false, none⟩)
              rw [stored] at handled
              have found : db'.find key = some
                  { db.recordOr env.junk key with
                    value := some ⟨addr, value.length, false, none⟩, isSet := true } := by
                rw [find, Function.update_self]
              have finishes := serverSetFin_finishes (w := ⟨db', _, []⟩) found handled
              simp only [reduceCtorEq, Bool.true_eq_false, Bool.false_eq_true, false_or]
              cases finishes with
              | all wakes =>
                  refine iff_of_true (fun failed => by cases failed) wakes
              | @cut _ j within fails find' =>
                  refine iff_of_false (fun keeps => ?_) (fails.not_posts within)
                  -- the value is in memory that no record had
                  have same : w.db.find key = db.find key := congrArg Prod.fst (keeps rfl)
                  rw [find'] at same
                  have held := heap.held key _ ⟨addr, value.length, false, none⟩ same.symm
                    (Item.interrupted_value _ j)
                  exact held.inUse free

/-- `sr` changes the records by `set_item` only, after every other call. -/
theorem serverSetRendezvous_keeps {size : Int} (heap : Heap db.find mem) (fits : env.Fits mem)
    (handled : serverSetRendezvous env ⟨db, mem, []⟩ c key size = some (ret, w)) :
    w.Keeps db mem key ret := by
  intro failure
  subst failure
  unfold serverSetRendezvous at handled
  split at handled
  next => cases handled
  next =>
    split at handled
    next => cases handled
    next addr returned =>
      have free := fits.fresh addr returned
      simp only at handled
      split at handled
      next =>
        cases handled
        exact (heap.view_eq_iff fun a inUse => (Mem.alloc_elsewhere free _ a inUse).1).mpr rfl
      next rkey _ =>
        have others (a : UInt64) (inUse : mem.block a ≠ none) :=
          (Mem.register_elsewhere free rkey
            ((env.junkBytes (size.toNat + 1)).set size.toNat 0) size.toNat a inUse).1
        have kept : view db ((mem.alloc addr ((env.junkBytes (size.toNat + 1)).set size.toNat
            0)).register addr rkey size.toNat) key = view db mem key :=
          (heap.view_eq_iff others).mpr rfl
        split at handled
        next w₁ posted =>
          cases handled
          obtain ⟨db_eq, mem_eq⟩ := sendDataStr_heap posted
          rw [db_eq, mem_eq]
          exact kept
        next w₁ posted =>
          obtain ⟨db_eq, mem_eq⟩ := sendDataStr_heap posted
          split at handled
          next =>
            cases handled
            rw [db_eq, mem_eq]
            exact kept
          next =>
            rw [db_eq, mem_eq] at handled
            cases failed : db.setItemFails env key with
            | true =>
                rw [setItem_fails failed] at handled
                cases handled
                exact kept
            | false =>
                obtain ⟨db', stored, -⟩ := setItem_succeeds failed
                  ((mem.alloc addr ((env.junkBytes (size.toNat + 1)).set size.toNat 0)).register addr
                    rkey size.toNat)
                  (some ⟨addr, size, true, some ⟨rkey, addr⟩⟩)
                rw [stored] at handled
                cases handled

theorem serverGetAsk_keeps (handled : serverGetAsk env ⟨db, mem, []⟩ key c = (ret, w)) :
    w.Keeps db mem key ret := by
  intro failure
  subst failure
  unfold serverGetAsk at handled
  split at handled
  next locked =>
    cases found : db.find key with
    | none => simp [Database.validGet, found] at locked
    | some item =>
        have walked := (Database.find_update
          (fun _ => rfl : ∀ item : Item N,
            { item with clientGet := Function.update item.clientGet c true }.key = item.key)
          found).1
        cases (congrArg Prod.fst handled).symm.trans walked
  next =>
    unfold sendAck at handled
    split at handled
    next =>
      cases handled
      rfl
    next => cases handled

section Counted

variable {db₁ : Database N} {item : Item N} {value : Value}

/-- A reader that stays counted shows. -/
theorem not_keeps_of_counted (found : db.find key = some item)
    (counted : db₁.find key = some { item with numInGet := item.numInGet + 1 })
    (same : w.db = db₁) : ¬ w.Keeps db mem key .exitFailure := by
  intro keeps
  have finds : w.db.find key = db.find key := congrArg Prod.fst (keeps rfl)
  rw [same, counted, found, Option.some.injEq] at finds
  have count : item.numInGet + 1 = item.numInGet := congrArg Item.numInGet finds
  omega

theorem serverGetEager_keeps_iff (found : db.find key = some item)
    (counted : db₁.find key = some { item with numInGet := item.numInGet + 1 })
    (handled : serverGetEager env ⟨db₁, mem, []⟩ key value c = some (ret, w)) :
    w.Keeps db mem key ret ↔ env.Delivers 0 ∧ (env.Wakes 1 item ∨ item.Queued) := by
  unfold serverGetEager at handled
  split at handled
  next => cases handled
  next bytes block =>
    cases posted : sendDataStr env ⟨db₁, mem, []⟩ c (.eager (text bytes)) with
    | mk ret₁ w₁ =>
        rw [posted] at handled
        rcases sendDataStr_cases posted with ⟨rfl, delivered, rfl⟩ | ⟨rfl, lost, same⟩
        · have finishes := serverGetFin_finishes counted handled
          have back : item.numInGet + 1 - 1 = item.numInGet := by omega
          simp only [back] at finishes
          have first : env.Delivers 0 := delivered
          unfold World.Keeps
          rw [finishes.kept_iff found, and_iff_right first]
          exact Env.wakes_or_iff fun j _ => Item.interrupted_eq_self_iff
        · cases handled
          exact iff_of_false (not_keeps_of_counted found counted same) fun both => lost both.1

theorem serverGetRendezvous_keeps_iff (found : db.find key = some item)
    (counted : db₁.find key = some { item with numInGet := item.numInGet + 1 })
    (handled : serverGetRendezvous env ⟨db₁, mem, []⟩ c value = some (ret, w)) :
    w.Keeps db mem key ret ↔ env.Delivers 0 ∧ env.Delivers 1 := by
  unfold serverGetRendezvous at handled
  cases posted : sendDataStr env ⟨db₁, mem, []⟩ c (.size value.size) with
  | mk ret₁ w₁ =>
      rw [posted] at handled
      rcases sendDataStr_cases posted with ⟨rfl, delivered, rfl⟩ | ⟨rfl, lost, same⟩
      · cases registered : value.mr with
        | none =>
            rw [registered] at handled
            cases handled
        | some mr =>
            rw [registered] at handled
            rcases sendDataStr_cases (Option.some.inj handled) with
              ⟨rfl, delivered', rfl⟩ | ⟨rfl, lost, same⟩
            · exact iff_of_true (fun failed => by cases failed) ⟨delivered, delivered'⟩
            · exact iff_of_false (not_keeps_of_counted found counted same) fun both =>
                lost both.2
      · cases handled
        exact iff_of_false (not_keeps_of_counted found counted same) fun both => lost both.1

end Counted

/-- `g0` counts the reader before it sends anything, and a value that it sends eagerly is
followed by the handler of `fg`. -/
theorem parseDataG0_keeps_iff
    (handled : parseDataG0 env ⟨db, mem, []⟩ key c = some (ret, w)) :
    w.Keeps db mem key ret ↔ ∀ item, db.find key = some item → ∀ value, item.value = some value →
      env.Delivers 0 ∧
        if value.isLarge then env.Delivers 1 else env.Wakes 1 item ∨ item.Queued := by
  unfold parseDataG0 at handled
  cases found : db.find key with
  | none =>
      simp only [Database.getValue, found] at handled
      cases handled
      refine iff_of_true (fun _ => ?_) fun _ there => by cases there
      simp only [Database.addGetQuery, Database.update_absent found]
  | some item =>
      cases stored : item.value with
      | none =>
          simp only [Database.getValue, found, stored] at handled
          cases handled
      | some value =>
          simp only [Database.getValue, found, stored] at handled
          simp only [Option.some.injEq, forall_eq', stored]
          have counted := (World.Becomes.of_update (w := ⟨db, mem, []⟩)
            (fun _ => rfl :
              ∀ item : Item N, { item with numInGet := item.numInGet + 1 }.key = item.key)
            found).find_self
          split at handled
          next small =>
            simp only [small, Bool.false_eq_true, if_false]
            exact serverGetEager_keeps_iff found counted handled
          next big =>
            have large : value.isLarge = true := by simpa using big
            simp only [large, if_true]
            exact serverGetRendezvous_keeps_iff found counted handled

/-- A request leaves its record as it was, should it fail, exactly when the calls that come
after its first writer succeed. -/
theorem handle_keeps_iff {r : Request} (heap : Heap db.find mem) (fits : env.Fits mem)
    (handled : handle env ⟨db, mem, []⟩ c r = some (ret, w)) :
    w.Keeps db mem r.key ret ↔ r.Kept env db := by
  cases r with
  | setAsk key => exact serverSetAsk_keeps_iff (Option.some.inj handled)
  | setEager key value => exact parseDataSe_keeps_iff heap fits handled
  | setRendezvous key size =>
      exact iff_of_true (serverSetRendezvous_keeps heap fits handled) True.intro
  | setFin key => exact serverSetFin_keeps_iff handled
  | getAsk key => exact iff_of_true (serverGetAsk_keeps (Option.some.inj handled)) True.intro
  | get key => exact parseDataG0_keeps_iff handled
  | getFin key => exact serverGetFin_keeps_iff handled

end Handlers

/-- In a reachable store, a failure of `parse_data` leaves the record of the request's key as
it was exactly when the calls that come after the first writer succeed. -/
theorem parseData_failure_iff {sent : List (Fin N × Reply)} {db : Database N} {mem : Mem}
    (run : (store N).Run fitting sent (db, mem)) {env : Env N} (fits : env.Fits mem) {buf : Bytes}
    {c : Fin N} {ret : Ret} {w : World N}
    (served : parseData env ⟨db, mem, []⟩ buf c = some (ret, w)) :
    (ret = .exitFailure → ∀ r, parseRequest buf = .request r →
        view w.db w.mem r.key = view db mem r.key) ↔
      ∀ r, parseRequest buf = .request r → r.Kept env db := by
  rcases parseData_cases served with ⟨parsed, -, -⟩ | ⟨r, parsed, handled⟩
  · simp [parsed]
  · simp only [parsed, Parsed.request.injEq, forall_eq']
    exact handle_keeps_iff (store_heap run) fits handled

/-- An `as` whose record cannot be allocated and whose ACK is not posted fails and leaves no
record. -/
theorem failed_ask_keeps :
    let env : Env numClients :=
      { Env.reliable numClients 0 0 with mallocItem := false, postSend := fun _ => false }
    ∃ w, parseData env ⟨[], ⟨fun _ => none, fun _ => none⟩, []⟩ (onWire (flagKey .as keyK.bytes)) 0 =
        some (.exitFailure, w) ∧
      ∀ r, parseRequest (onWire (flagKey .as keyK.bytes)) = .request r →
        view w.db w.mem r.key =
          view ([] : Database numClients) ⟨fun _ => none, fun _ => none⟩ r.key := by
  intro env
  have fits : env.Fits ⟨fun _ => none, fun _ => none⟩ :=
    ⟨fun _ _ => rfl, fun n => List.length_replicate⟩
  have asks : parseRequest (onWire (flagKey .as keyK.bytes)) = .request (.setAsk keyK.bytes) := by
    decide
  refine ⟨_, rfl, (parseData_failure_iff (c := 0) .init fits rfl).mpr
    (fun r parsed => ?_) rfl⟩
  cases asks.symm.trans parsed
  exact .inr (.inl rfl)

/-- An `as` on a new key whose ACK is not posted leaves a locked record behind. -/
theorem failed_ask_locks : ¬ ∀ (N : ℕ) (sent : List (Fin N × Reply)) (db : Database N) (mem : Mem),
    (store N).Run fitting sent (db, mem) → ∀ env : Env N, env.Fits mem → ∀ buf (c : Fin N) w,
      InBuffer buf → parseData env ⟨db, mem, []⟩ buf c = some (.exitFailure, w) →
        ∀ r, parseRequest buf = .request r → view w.db w.mem r.key = view db mem r.key := by
  intro keeps
  let env : Env numClients := { Env.reliable numClients 0 0 with postSend := fun _ => false }
  have fits : env.Fits ⟨fun _ => none, fun _ => none⟩ :=
    ⟨fun _ _ => rfl, fun n => List.length_replicate⟩
  have kept := keeps numClients [] _ _ .init env fits (onWire (flagKey .as keyK.bytes)) 0 _
    (by decide) rfl (.setAsk keyK.bytes) (by decide)
  have found := congrArg (fun shown => shown.1.isSome) kept
  revert found
  decide

end RdmaWiki
