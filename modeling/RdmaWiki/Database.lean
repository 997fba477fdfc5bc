import RdmaWiki.Messages
import RdmaWiki.Lib.FirstMatch

/-!
The database: a linked list of records, searched from its head.

Every accessor of the source walks the list to the first record whose key
compares equal. The walks are `Database.find` and `Database.update`; each
accessor keeps its own definition under the source's name. The calls an
accessor makes to `malloc` and `ibv_dereg_mr` have their outcomes in an `Env`,
so every pattern of failures and every content of fresh memory is a choice of
the environment.

The specification of the list is its lookup function `Database.find`: each
operation on a present key is a point update of it.
-/

namespace RdmaWiki

open CText FirstMatch

/-- The return codes `EXIT_SUCCESS` and `EXIT_FAILURE`. -/
inductive Ret
  | exitSuccess | exitFailure
deriving DecidableEq

/-- A registered memory region as its owner sees it. -/
structure Mr where
  rkey : UInt32
  addr : UInt64
deriving DecidableEq

/-- A stored value; `value` is the address of its bytes. -/
structure Value where
  value : UInt64
  size : Int
  isLarge : Bool
  mr : Option Mr
deriving DecidableEq

/-- A record. A NULL value pointer is `none`. -/
structure Item (N : ℕ) where
  key : Bytes
  value : Option Value
  isSet : Bool
  /-- an `int`: the same numbers as long as they stay in its range, outside of which `++` and `--`
  are undefined -/
  numInGet : Int
  clientSet : Fin N → Bool
  clientGet : Fin N → Bool

/-- The linked list, from its head. -/
abbrev Database (N : ℕ) := List (Item N)

/-- The server's heap as far as values use it: allocated byte blocks and the
regions registered for remote access, by address. -/
structure Mem where
  block : UInt64 → Option Bytes
  region : UInt64 → Option (UInt32 × ℕ)

/-- The record fields that `_add_item` leaves as `malloc` returned them. -/
structure Junk (N : ℕ) where
  numInGet : Int
  clientSet : Fin N → Bool
  clientGet : Fin N → Bool

/-- Zeroed memory. -/
def Junk.zeroed (N : ℕ) : Junk N := ⟨0, fun _ => false, fun _ => false⟩

/-- The outcomes of the library and verbs calls made while one request is
handled. `postSend` and `waitSend` are indexed by the number of messages sent
before. -/
structure Env (N : ℕ) where
  /-- `malloc` of the bytes of a value, with the address it returns. -/
  mallocBytes : Option UInt64
  mallocValue : Bool
  mallocItem : Bool
  mallocNode : Bool
  /-- `ibv_reg_mr`, with the rkey it returns. -/
  regMr : Option UInt32
  deregMr : Bool
  postSend : ℕ → Bool
  waitSend : ℕ → Bool
  junk : Junk N
  junkBytes : ℕ → Bytes

/-- No call fails, and `malloc` returns zeroed memory at `addr`. -/
def Env.reliable (N : ℕ) (addr : UInt64) (rkey : UInt32) : Env N where
  mallocBytes := some addr
  mallocValue := true
  mallocItem := true
  mallocNode := true
  regMr := some rkey
  deregMr := true
  postSend := fun _ => true
  waitSend := fun _ => true
  junk := Junk.zeroed N
  junkBytes := fun n => List.replicate n 0

variable {N : ℕ}

namespace Database

/-- The walk of the readers: the first record with this key. -/
def find (db : Database N) (key : Bytes) : Option (Item N) :=
  FirstMatch.find Item.key key db

/-- The walk of the writers: change the first record with this key. -/
def update (db : Database N) (key : Bytes) (change : Item N → Item N) :
    Ret × Database N :=
  match db.find key with
  | none => (.exitFailure, db)
  | some _ => (.exitSuccess, FirstMatch.update Item.key key change db)

def getInSet (db : Database N) (key : Bytes) : Bool :=
  match db.find key with
  | none => false
  | some item => item.isSet

def getNumInGet (db : Database N) (key : Bytes) : Int :=
  match db.find key with
  | none => 0
  | some item => item.numInGet

def addInSet (db : Database N) (key : Bytes) : Ret × Database N :=
  db.update key fun item => { item with isSet := true }

/-- As in C up to `INT_MAX` readers. -/
def addNumInGet (db : Database N) (key : Bytes) : Ret × Database N :=
  db.update key fun item => { item with numInGet := item.numInGet + 1 }

def validSet (db : Database N) (key : Bytes) : Bool :=
  match db.find key with
  | none => true
  | some item => item.isSet == false && item.numInGet == 0

def validGet (db : Database N) (key : Bytes) : Bool :=
  match db.find key with
  | none => true
  | some item => item.isSet == false

def addGetQuery (db : Database N) (key : Bytes) (clientIdx : Fin N) : Ret × Database N :=
  db.update key fun item =>
    { item with clientGet := Function.update item.clientGet clientIdx true }

def addSetQuery (db : Database N) (key : Bytes) (clientIdx : Fin N) : Ret × Database N :=
  db.update key fun item =>
    { item with clientSet := Function.update item.clientSet clientIdx true }

/-- The array inside the record, NULL for an absent key. -/
def getQuery (db : Database N) (key : Bytes) : Option (Fin N → Bool) :=
  (db.find key).map Item.clientGet

def setQuery (db : Database N) (key : Bytes) : Option (Fin N → Bool) :=
  (db.find key).map Item.clientSet

def emptySetQuery (db : Database N) (key : Bytes) : Database N :=
  (db.update key fun item => { item with clientSet := fun _ => false }).2

def emptyGetQuery (db : Database N) (key : Bytes) : Database N :=
  (db.update key fun item => { item with clientGet := fun _ => false }).2

def removeInSet (db : Database N) (key : Bytes) : Ret × Database N :=
  db.update key fun item => { item with isSet := false }

/-- As in C down to `INT_MIN`. -/
def removeNumInGet (db : Database N) (key : Bytes) : Ret × Database N :=
  db.update key fun item => { item with numInGet := item.numInGet - 1 }

/-- `_add_item`: a new record at the head, locked for a set. Its other fields
keep what `malloc` left in them. -/
def addItem (env : Env N) (db : Database N) (key : Bytes) (value : Option Value) :
    Ret × Database N :=
  if env.mallocItem = false then (.exitFailure, db)
  else if env.mallocNode = false then (.exitFailure, db)
  else
    (.exitSuccess,
      { key := key
        value := value
        isSet := true
        numInGet := env.junk.numInGet
        clientSet := env.junk.clientSet
        clientGet := env.junk.clientGet } :: db)

end Database

/-- `free` of a value's bytes. -/
def Mem.free (mem : Mem) (addr : UInt64) : Mem :=
  { mem with block := Function.update mem.block addr none }

/-- A successful `ibv_dereg_mr`. -/
def Mem.dereg (mem : Mem) : Option Mr → Mem
  | none => mem
  | some mr => { mem with region := Function.update mem.region mr.addr none }

/-- `dealloc_value`; on success the caller's pointer is NULL. -/
def deallocValue (env : Env N) (mem : Mem) (value : Value) : Ret × Mem :=
  if value.isLarge then
    if env.deregMr = false then (.exitFailure, mem)
    else (.exitSuccess, (mem.dereg value.mr).free value.value)
  else (.exitSuccess, mem.free value.value)

/-- `set_item`: replace the value of a present key after releasing the old one,
or add the key. -/
def Database.setItem (env : Env N) (db : Database N) (mem : Mem) (key : Bytes)
    (value : Option Value) : Ret × Database N × Mem :=
  match db.find key with
  | some item =>
    match item.value.map (deallocValue env mem) with
    | some (.exitFailure, mem) => (.exitFailure, db, mem)
    | some (.exitSuccess, mem) =>
      (.exitSuccess, (db.update key fun item =>
        { item with value := value, isSet := true }).2, mem)
    | none =>
      (.exitSuccess, (db.update key fun item =>
        { item with value := value, isSet := true }).2, mem)
  | none =>
    match db.addItem env key value with
    | (ret, db) => (ret, db, mem)

/-- `get_value`: count a reader and return the value pointer, which may be
NULL; `none` is `EXIT_FAILURE`. As in C up to `INT_MAX` readers. -/
def Database.getValue (db : Database N) (key : Bytes) :
    Option (Option Value × Database N) :=
  match db.find key with
  | none => none
  | some item =>
    some (item.value,
      (db.update key fun item => { item with numInGet := item.numInGet + 1 }).2)

/-! ## Lookups after an operation -/

section Lookups

variable {db : Database N} {key : Bytes} {item : Item N}

theorem Database.key_of_find (found : db.find key = some item) : item.key = key :=
  FirstMatch.key_of_find found

@[simp] theorem Database.find_nil : Database.find ([] : Database N) = fun _ => none := rfl

/-- A writer's walk on a present key succeeds and is a point update. -/
theorem Database.find_update {change : Item N → Item N}
    (keeps : ∀ item, (change item).key = item.key) (found : db.find key = some item) :
    (db.update key change).1 = .exitSuccess ∧
      (db.update key change).2.find =
        Function.update db.find key (some (change item)) := by
  simp only [Database.update, found, true_and]
  exact FirstMatch.find_update keeps found

/-- A writer's walk leaves the other records alone. -/
theorem Database.find_update_ne {change : Item N → Item N} {other : Bytes}
    (keeps : ∀ item, (change item).key = item.key) (ne : other ≠ key) :
    (db.update key change).2.find other = db.find other := by
  unfold Database.update
  split
  next => rfl
  next => exact FirstMatch.find_update_ne keeps ne

/-- A writer's walk on an absent key fails and changes nothing. -/
theorem Database.update_absent {change : Item N → Item N} (absent : db.find key = none) :
    db.update key change = (.exitFailure, db) := by
  simp [Database.update, absent]

theorem Database.find_addItem (env : Env N) (db : Database N) (key : Bytes)
    (value : Option Value) (item_ok : env.mallocItem = true) (node_ok : env.mallocNode = true) :
    (db.addItem env key value).1 = .exitSuccess ∧
      (db.addItem env key value).2.find = Function.update db.find key
        (some ⟨key, value, true, env.junk.numInGet, env.junk.clientSet, env.junk.clientGet⟩) := by
  simp only [Database.addItem, item_ok, node_ok, Bool.true_eq_false, if_false, true_and]
  exact FirstMatch.find_cons rfl

theorem Database.find_setItem_ne (env : Env N) (mem : Mem) (value : Option Value)
    {other : Bytes} (ne : other ≠ key) :
    (db.setItem env mem key value).2.1.find other = db.find other := by
  unfold Database.setItem
  split
  next item found =>
    split
    next => rfl
    next => exact Database.find_update_ne (fun _ => rfl) ne
    next => exact Database.find_update_ne (fun _ => rfl) ne
  next absent =>
    simp only
    unfold Database.addItem
    split
    next => rfl
    next =>
      split
      next => rfl
      next => exact if_neg fun same => ne same.symm

end Lookups

/-! ## Lists without repeated keys -/

/-- No two nodes carry the same key. -/
def Database.Distinct (db : Database N) : Prop := (db.map Item.key).Nodup

section Distinct

variable {db : Database N} {key : Bytes} {item : Item N}

theorem Database.Distinct.find_of_mem (distinct : db.Distinct) (member : item ∈ db) :
    db.find item.key = some item :=
  FirstMatch.find_of_mem distinct member

/-- The writers keep the keys. -/
theorem Database.map_update {change : Item N → Item N}
    (keeps : ∀ item, (change item).key = item.key) :
    (db.update key change).2.map Item.key = db.map Item.key := by
  unfold Database.update
  split
  next => rfl
  next => exact FirstMatch.map_update keeps

theorem Database.Distinct.update {change : Item N → Item N} (distinct : db.Distinct)
    (keeps : ∀ item, (change item).key = item.key) : (db.update key change).2.Distinct := by
  unfold Database.Distinct
  rw [Database.map_update keeps]
  exact distinct

/-- A key is added only when it is absent. -/
theorem Database.Distinct.setItem (distinct : db.Distinct) (env : Env N) (mem : Mem)
    (key : Bytes) (value : Option Value) : (db.setItem env mem key value).2.1.Distinct := by
  unfold Database.setItem
  split
  next item found =>
    split
    next => exact distinct
    next => exact distinct.update fun _ => rfl
    next => exact distinct.update fun _ => rfl
  next absent =>
    simp only
    unfold Database.addItem
    split
    next => exact distinct
    next =>
      split
      next => exact distinct
      next => exact List.nodup_cons.mpr ⟨FirstMatch.find_none_iff.mp absent, distinct⟩

theorem Database.Distinct.getValue (distinct : db.Distinct) {value : Option Value}
    {db' : Database N} (got : db.getValue key = some (value, db')) : db'.Distinct := by
  unfold Database.getValue at got
  split at got
  next => cases got
  next item found =>
    cases got
    exact distinct.update fun _ => rfl

end Distinct

end RdmaWiki
