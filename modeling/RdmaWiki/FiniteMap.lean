import RdmaWiki.Effects
import RdmaWiki.Lib.Objects

/-!
The list implements a finite map.

The operations of the database are also operations on a map from keys to records, where
waiting clients form sets and nothing is searched. The list, used through its operations
from `create_database` on, repeats no key, answers every sequence of operations as the map
does and stands for the map (`list_refines_map`). `malloc` and `ibv_dereg_mr` may fail in
any operation; the memory that `malloc` returns is zeroed.
-/

namespace RdmaWiki

open CText Objects

variable {N : ℕ}

/-- A key that fits the key field of a record. -/
structure Key extends CString where
  fits : bytes.length < 4 * KB
deriving DecidableEq

/-- The outcomes of the calls that `set_item` makes. -/
structure Outcomes where
  mallocItem : Bool
  mallocNode : Bool
  deregMr : Bool

def Outcomes.env (o : Outcomes) (N : ℕ) : Env N :=
  { Env.reliable N 0 0 with
    mallocItem := o.mallocItem
    mallocNode := o.mallocNode
    deregMr := o.deregMr }

/-- The operations of the database. `set_item` takes over the value it is given. -/
inductive Op (N : ℕ)
  | setItem (o : Outcomes) (key : Key) (value : Option Value)
  | getValue (key : Key)
  | addInSet (key : Key)
  | removeInSet (key : Key)
  | addNumInGet (key : Key)
  | removeNumInGet (key : Key)
  | addSetQuery (key : Key) (clientIdx : Fin N)
  | addGetQuery (key : Key) (clientIdx : Fin N)
  | emptySetQuery (key : Key)
  | emptyGetQuery (key : Key)
  | validSet (key : Key)
  | validGet (key : Key)
  | getInSet (key : Key)
  | getNumInGet (key : Key)

def Op.key : Op N → Key
  | .setItem _ key _ | .getValue key | .addInSet key | .removeInSet key | .addNumInGet key
  | .removeNumInGet key | .addSetQuery key _ | .addGetQuery key _ | .emptySetQuery key
  | .emptyGetQuery key | .validSet key | .validGet key | .getInSet key | .getNumInGet key => key

/-- What an operation returns: a return code, a flag, a number, the value that
`get_value` hands out on success, or nothing. -/
inductive Answer
  | ret (ret : Ret)
  | flag (b : Bool)
  | count (n : Int)
  | value (value : Option Value)
  | done
deriving DecidableEq

/-! ## The list -/

/-- `create_database`, by the outcome of its `malloc`. -/
def createDatabase (N : ℕ) : Bool → Option (Database N)
  | false => none
  | true => some []

/-- An operation on the list and the heap. -/
def Op.onList (db : Database N) (mem : Mem) : Op N → Answer × Database N × Mem
  | .setItem o key value =>
    match db.setItem (o.env N) mem key.bytes value with
    | (ret, db, mem) => (.ret ret, db, mem)
  | .getValue key =>
    match db.getValue key.bytes with
    | none => (.ret .exitFailure, db, mem)
    | some (value, db) => (.value value, db, mem)
  | .addInSet key => (.ret (db.addInSet key.bytes).1, (db.addInSet key.bytes).2, mem)
  | .removeInSet key => (.ret (db.removeInSet key.bytes).1, (db.removeInSet key.bytes).2, mem)
  | .addNumInGet key => (.ret (db.addNumInGet key.bytes).1, (db.addNumInGet key.bytes).2, mem)
  | .removeNumInGet key =>
    (.ret (db.removeNumInGet key.bytes).1, (db.removeNumInGet key.bytes).2, mem)
  | .addSetQuery key clientIdx =>
    (.ret (db.addSetQuery key.bytes clientIdx).1, (db.addSetQuery key.bytes clientIdx).2, mem)
  | .addGetQuery key clientIdx =>
    (.ret (db.addGetQuery key.bytes clientIdx).1, (db.addGetQuery key.bytes clientIdx).2, mem)
  | .emptySetQuery key => (.done, db.emptySetQuery key.bytes, mem)
  | .emptyGetQuery key => (.done, db.emptyGetQuery key.bytes, mem)
  | .validSet key => (.flag (db.validSet key.bytes), db, mem)
  | .validGet key => (.flag (db.validGet key.bytes), db, mem)
  | .getInSet key => (.flag (db.getInSet key.bytes), db, mem)
  | .getNumInGet key => (.count (db.getNumInGet key.bytes), db, mem)

/-- The database as an object, from the list `db` on. -/
def listObject (db : Database N) (mem : Mem) : Object (Database N × Mem) (Op N) Answer where
  init := (db, mem)
  apply s op := op.onList s.1 s.2

/-! ## The map -/

/-- A record as the map sees it: the waiting clients are two sets. -/
@[ext] structure Record (N : ℕ) where
  value : Option Value
  isSet : Bool
  numInGet : Int
  setters : Set (Fin N)
  getters : Set (Fin N)

/-- A record that is stored for the first time. -/
def Record.fresh (N : ℕ) (value : Option Value) : Record N := ⟨value, true, 0, ∅, ∅⟩

/-- The old value is a registered one, which has to be deregistered. -/
def Record.isLarge (record : Record N) : Bool := record.value.any Value.isLarge

/-- A map from keys to records. -/
abbrev Records (N : ℕ) := Key → Option (Record N)

namespace Records

/-- Change the record of a key, if it has one. -/
def change (m : Records N) (key : Key) (f : Record N → Record N) : Answer × Records N :=
  match m key with
  | none => (.ret .exitFailure, m)
  | some record => (.ret .exitSuccess, Function.update m key (some (f record)))

/-- What the record of a key says, with a default for an absent key. -/
def read {β : Type} (m : Records N) (key : Key) (absent : β) (f : Record N → β) : β :=
  ((m key).map f).getD absent

/-- Store a value: under a new key when memory is there, under a present key when the old
value can be released. -/
def store (m : Records N) (o : Outcomes) (key : Key) (value : Option Value) :
    Answer × Records N :=
  match m key with
  | none =>
    if o.mallocItem && o.mallocNode then
      (.ret .exitSuccess, Function.update m key (some (.fresh N value)))
    else (.ret .exitFailure, m)
  | some record =>
    if record.isLarge && !o.deregMr then (.ret .exitFailure, m)
    else
      (.ret .exitSuccess,
        Function.update m key (some { record with value := value, isSet := true }))

/-- Hand out a value and count a reader. -/
def take (m : Records N) (key : Key) : Answer × Records N :=
  match m key with
  | none => (.ret .exitFailure, m)
  | some record =>
    (.value record.value,
      Function.update m key (some { record with numInGet := record.numInGet + 1 }))

end Records

/-- An operation on the map. -/
def Op.onMap (m : Records N) : Op N → Answer × Records N
  | .setItem o key value => m.store o key value
  | .getValue key => m.take key
  | .addInSet key => m.change key fun r => { r with isSet := true }
  | .removeInSet key => m.change key fun r => { r with isSet := false }
  | .addNumInGet key => m.change key fun r => { r with numInGet := r.numInGet + 1 }
  | .removeNumInGet key => m.change key fun r => { r with numInGet := r.numInGet - 1 }
  | .addSetQuery key c => m.change key fun r => { r with setters := insert c r.setters }
  | .addGetQuery key c => m.change key fun r => { r with getters := insert c r.getters }
  | .emptySetQuery key => (.done, (m.change key fun r => { r with setters := ∅ }).2)
  | .emptyGetQuery key => (.done, (m.change key fun r => { r with getters := ∅ }).2)
  | .validSet key => (.flag (m.read key true fun r => r.isSet == false && r.numInGet == 0), m)
  | .validGet key => (.flag (m.read key true fun r => r.isSet == false), m)
  | .getInSet key => (.flag (m.read key false Record.isSet), m)
  | .getNumInGet key => (.count (m.read key 0 Record.numInGet), m)

/-- The empty map as an object. -/
def mapObject (N : ℕ) : Object (Records N) (Op N) Answer where
  init := fun _ => none
  apply := Op.onMap

/-! ## The refinement -/

/-- The record that a node holds. -/
def Item.record (item : Item N) : Record N :=
  ⟨item.value, item.isSet, item.numInGet, {c | item.clientSet c = true},
    {c | item.clientGet c = true}⟩

/-- The map that a list stands for. -/
def Database.records (db : Database N) : Records N :=
  fun key => (db.find key.bytes).map Item.record

/-- The list has one node for each key of the map, and no other. -/
structure Represents (s : Database N × Mem) (m : Records N) : Prop where
  distinct : s.1.Distinct
  records : s.1.records = m

section Represents

variable {db : Database N} {mem : Mem} {m : Records N} {key : Key} {item : Item N}

theorem Key.bytes_ne {other : Key} (ne : other ≠ key) : other.bytes ≠ key.bytes := by
  intro same
  apply ne
  obtain ⟨name, fits⟩ := key
  obtain ⟨name', fits'⟩ := other
  cases CString.eq_of_bytes same
  rfl

/-- A point update of the lookup function is one of the map. -/
theorem records_update {db' : Database N}
    (find : db'.find = Function.update db.find key.bytes (some item)) :
    db'.records = Function.update db.records key (some item.record) := by
  funext other
  unfold Database.records
  rw [find]
  rcases eq_or_ne other key with rfl | ne
  · rw [Function.update_self, Function.update_self, Option.map_some]
  · rw [Function.update_of_ne (Key.bytes_ne ne), Function.update_of_ne ne]

/-- A writer's walk changes the record of its key as the map does. -/
theorem Represents.update (represents : Represents (db, mem) m) (key : Key)
    (change : Item N → Item N) (f : Record N → Record N)
    (keeps : ∀ item, (change item).key = item.key)
    (same : ∀ item, (change item).record = f item.record) :
    .ret (db.update key.bytes change).1 = (m.change key f).1 ∧
      Represents ((db.update key.bytes change).2, mem) (m.change key f).2 := by
  obtain ⟨distinct, rfl⟩ := represents
  have distinct' : (db.update key.bytes change).2.Distinct := distinct.update keeps
  unfold Records.change
  cases found : db.find key.bytes with
  | none =>
      have absent : db.records key = none := by rw [Database.records, found, Option.map_none]
      rw [absent, Database.update_absent found]
      exact ⟨rfl, distinct, rfl⟩
  | some item =>
      have present : db.records key = some item.record := by
        rw [Database.records, found, Option.map_some]
      obtain ⟨ok, find⟩ := Database.find_update keeps found
      rw [present, ok]
      refine ⟨rfl, distinct', ?_⟩
      rw [records_update find, same]

/-- A reader's walk reads the map. -/
theorem records_read {β : Type} {absent : β} {f : Record N → β} {g : Item N → β}
    (same : ∀ item, g item = f item.record) :
    (match db.find key.bytes with
      | none => absent
      | some item => g item) = db.records.read key absent f := by
  unfold Records.read Database.records
  cases db.find key.bytes with
  | none => rfl
  | some item => exact same item

theorem Represents.setItem (represents : Represents (db, mem) m) (o : Outcomes) (key : Key)
    (value : Option Value) :
    .ret (db.setItem (o.env N) mem key.bytes value).1 = (m.store o key value).1 ∧
      Represents (db.setItem (o.env N) mem key.bytes value).2 (m.store o key value).2 := by
  obtain ⟨distinct, rfl⟩ := represents
  have distinct' := distinct.setItem (o.env N) mem key.bytes value
  unfold Records.store
  cases found : db.find key.bytes with
  | none =>
      have absent : db.records key = none := by rw [Database.records, found, Option.map_none]
      have fails : db.setItemFails (o.env N) key.bytes = !(o.mallocItem && o.mallocNode) := by
        rw [Database.setItemFails, found]
        rfl
      rw [absent]
      cases memory : o.mallocItem && o.mallocNode with
      | false =>
          rw [memory] at fails
          rw [setItem_fails fails]
          exact ⟨rfl, distinct, rfl⟩
      | true =>
          rw [memory] at fails
          obtain ⟨db', stored, find⟩ := setItem_succeeds fails mem value
          rw [stored] at distinct' ⊢
          refine ⟨rfl, distinct', ?_⟩
          simp only [records_update find, if_true]
          congr 2
          rw [Database.recordOr, found]
          ext <;> simp [Item.record, Item.raw, Record.fresh, Outcomes.env, Env.reliable,
            Junk.zeroed]
  | some item =>
      have present : db.records key = some item.record := by
        rw [Database.records, found, Option.map_some]
      have fails : db.setItemFails (o.env N) key.bytes =
          (item.record.isLarge && !o.deregMr) := by
        rw [Database.setItemFails, found]
        rfl
      rw [present]
      cases stuck : item.record.isLarge && !o.deregMr with
      | true =>
          rw [stuck] at fails
          rw [setItem_fails fails]
          simp only [stuck, if_true, true_and]
          exact ⟨distinct, rfl⟩
      | false =>
          rw [stuck] at fails
          obtain ⟨db', stored, find⟩ := setItem_succeeds fails mem value
          rw [stored] at distinct' ⊢
          simp only [stuck, Bool.false_eq_true, if_false, true_and]
          refine ⟨distinct', ?_⟩
          rw [records_update find, Database.recordOr, found]
          rfl

theorem Represents.getValue (represents : Represents (db, mem) m) (key : Key) :
    ((Op.getValue key).onList db mem).1 = (m.take key).1 ∧
      Represents ((Op.getValue key).onList db mem).2 (m.take key).2 := by
  obtain ⟨distinct, rfl⟩ := represents
  unfold Records.take
  cases found : db.find key.bytes with
  | none =>
      have absent : db.records key = none := by rw [Database.records, found, Option.map_none]
      simp only [Op.onList, Database.getValue, found, absent]
      exact ⟨True.intro, distinct, rfl⟩
  | some item =>
      have present : db.records key = some item.record := by
        rw [Database.records, found, Option.map_some]
      have keeps : ∀ item : Item N, { item with numInGet := item.numInGet + 1 }.key = item.key :=
        fun _ => rfl
      simp only [Op.onList, Database.getValue, found, present]
      refine ⟨rfl, distinct.update keeps, ?_⟩
      rw [records_update (Database.find_update keeps found).2]
      rfl

end Represents

/-- Raising a flag inserts the client into the set. -/
theorem raised_flags (flags : Fin N → Bool) (c : Fin N) :
    {d | Function.update flags c true d = true} = insert c {d | flags d = true} := by
  ext d
  rcases eq_or_ne d c with rfl | other
  · simp
  · simp [other]

theorem lowered_flags : {d : Fin N | (fun _ => false) d = true} = ∅ := by
  ext d
  simp

/-- Every operation on the list answers as the map does and keeps the representation. -/
theorem refines_map (N : ℕ) (mem : Mem) :
    Refines (listObject ([] : Database N) mem) (mapObject N) Represents where
  init := ⟨List.nodup_nil, rfl⟩
  apply {s m} op represents := by
    obtain ⟨db, mem⟩ := s
    have reads : db.records = m := represents.records
    cases op with
    | setItem o key value => exact represents.setItem o key value
    | getValue key => exact represents.getValue key
    | addInSet key => exact represents.update key _ _ (fun _ => rfl) fun _ => rfl
    | removeInSet key => exact represents.update key _ _ (fun _ => rfl) fun _ => rfl
    | addNumInGet key => exact represents.update key _ _ (fun _ => rfl) fun _ => rfl
    | removeNumInGet key => exact represents.update key _ _ (fun _ => rfl) fun _ => rfl
    | addSetQuery key c =>
        refine represents.update key _ _ (fun _ => rfl) fun item => ?_
        exact Record.ext rfl rfl rfl (raised_flags item.clientSet c) rfl
    | addGetQuery key c =>
        refine represents.update key _ _ (fun _ => rfl) fun item => ?_
        exact Record.ext rfl rfl rfl rfl (raised_flags item.clientGet c)
    | emptySetQuery key =>
        have emptied := represents.update key (fun item => { item with clientSet := fun _ => false })
          (fun r => { r with setters := ∅ }) (fun _ => rfl) fun _ => Record.ext rfl rfl rfl lowered_flags rfl
        exact ⟨rfl, emptied.2⟩
    | emptyGetQuery key =>
        have emptied := represents.update key (fun item => { item with clientGet := fun _ => false })
          (fun r => { r with getters := ∅ }) (fun _ => rfl) fun _ => Record.ext rfl rfl rfl rfl lowered_flags
        exact ⟨rfl, emptied.2⟩
    | validSet key =>
        subst reads
        exact ⟨congrArg Answer.flag (records_read fun _ => rfl), represents⟩
    | validGet key =>
        subst reads
        exact ⟨congrArg Answer.flag (records_read fun _ => rfl), represents⟩
    | getInSet key =>
        subst reads
        exact ⟨congrArg Answer.flag (records_read fun _ => rfl), represents⟩
    | getNumInGet key =>
        subst reads
        exact ⟨congrArg Answer.count (records_read fun _ => rfl), represents⟩

/-! ## What one operation leaves alone -/

section Operations

variable {db : Database N} {mem : Mem} {op : Op N}

/-- A writer's walk that fails changes nothing. -/
theorem update_failed {key : Bytes} {change : Item N → Item N}
    (failed : (db.update key change).1 = .exitFailure) : (db.update key change).2 = db := by
  cases found : db.find key with
  | none => rw [Database.update_absent found]
  | some item =>
      unfold Database.update at failed
      rw [found] at failed
      cases failed

/-- An operation that returns `EXIT_FAILURE` leaves the list as it was. -/
theorem onList_failed (failed : (op.onList db mem).1 = .ret .exitFailure) :
    (op.onList db mem).2.1 = db := by
  have walk {key : Bytes} {change : Item N → Item N}
      (failed : Answer.ret (db.update key change).1 = .ret .exitFailure) :
      (db.update key change).2 = db := by
    apply update_failed
    rw [Answer.ret.injEq] at failed
    exact failed
  cases op with
  | setItem o key value =>
      change Answer.ret (db.setItem (o.env N) mem key.bytes value).1 = _ at failed
      rw [Answer.ret.injEq] at failed
      cases fails : db.setItemFails (o.env N) key.bytes with
      | true =>
          change (db.setItem (o.env N) mem key.bytes value).2.1 = db
          rw [setItem_fails fails]
      | false =>
          obtain ⟨db', stored, -⟩ := setItem_succeeds fails mem value
          rw [stored] at failed
          cases failed
  | getValue key =>
      simp only [Op.onList] at failed ⊢
      cases got : db.getValue key.bytes with
      | none => rfl
      | some taken =>
          rw [got] at failed
          cases failed
  | addInSet | removeInSet | addNumInGet | removeNumInGet => exact walk failed
  | addSetQuery | addGetQuery => exact walk failed
  | emptySetQuery | emptyGetQuery => cases failed
  | validSet | validGet | getInSet | getNumInGet => cases failed

/-- An operation leaves the records of the other keys alone. -/
theorem onList_elsewhere {key : Bytes} (other : key ≠ op.key.bytes) :
    (op.onList db mem).2.1.find key = db.find key := by
  cases op with
  | setItem o k value => exact Database.find_setItem_ne (o.env N) mem value other
  | getValue k =>
      simp only [Op.onList, Database.getValue]
      cases found : db.find k.bytes with
      | none => rfl
      | some item => exact Database.find_update_ne (fun _ => rfl) other
  | addInSet | removeInSet | addNumInGet | removeNumInGet =>
      exact Database.find_update_ne (fun _ => rfl) other
  | addSetQuery | addGetQuery => exact Database.find_update_ne (fun _ => rfl) other
  | emptySetQuery | emptyGetQuery => exact Database.find_update_ne (fun _ => rfl) other
  | validSet | validGet | getInSet | getNumInGet => rfl

end Operations

/-- The list implements a finite map. After every sequence of operations on a database
that `create_database` made, no two nodes carry the same key, the list stands for the map
after the same operations, and it gave the answers of the map. The next operation, whatever
it is, changes the record of its own key only, and nothing at all when it returns
`EXIT_FAILURE`. -/
theorem list_refines_map {malloc : Bool} {created : Database N}
    (create : createDatabase N malloc = some created) (heap : Mem) (ops : List (Op N)) :
    ∃ db mem, ((listObject created heap).run ops).2 = (db, mem) ∧ db.Distinct ∧
      db.records = ((mapObject N).run ops).2 ∧
      ((listObject created heap).run ops).1 = ((mapObject N).run ops).1 ∧
      ∀ op : Op N, (∀ key, key ≠ op.key.bytes →
          (op.onList db mem).2.1.find key = db.find key) ∧
        ((op.onList db mem).1 = .ret .exitFailure → (op.onList db mem).2.1 = db) := by
  cases malloc with
  | false => cases create
  | true =>
      cases create
      obtain ⟨answers, represents⟩ := (refines_map N heap).run ops
      refine ⟨_, _, rfl, represents.distinct, represents.records, answers, fun op => ?_⟩
      exact ⟨fun _ other => onList_elsewhere other, onList_failed⟩

/-- A key is stored, counted as read and stored again without memory for a new record. -/
theorem list_refines_map_again : ∃ key : Key, ∃ db mem,
    ((listObject ([] : Database 2) ⟨fun _ => none, fun _ => none⟩).run
      [.setItem ⟨true, true, true⟩ key none, .getValue key,
        .setItem ⟨false, false, true⟩ key none]).2 = (db, mem) ∧ db.Distinct := by
  obtain ⟨db, mem, reached, distinct, -⟩ := list_refines_map (rfl : createDatabase 2 true = some [])
    ⟨fun _ => none, fun _ => none⟩
    [.setItem ⟨true, true, true⟩ ⟨⟨ascii ['k'], by decide⟩, by decide⟩ none,
      .getValue ⟨⟨ascii ['k'], by decide⟩, by decide⟩,
      .setItem ⟨false, false, true⟩ ⟨⟨ascii ['k'], by decide⟩, by decide⟩ none]
  exact ⟨_, db, mem, reached, distinct⟩

end RdmaWiki
