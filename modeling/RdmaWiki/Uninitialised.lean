import RdmaWiki.Store
import RdmaWiki.Frames

/-!
What the server makes of uninitialised memory.

`_add_item` writes the key, the value and `is_set` of a new record and leaves `num_in_get` and
the waiting arrays as `malloc` returned them, and `server_set_rendezvous` hands out a buffer
that only its last byte is written of. Two servers that handle the same requests, with the
same outcomes of all calls and other bytes in new memory, are run side by side here
(`Machine.twin`). They send the same and hold the same as long as the two choices agree on the
memory that becomes part of a record (`contents_of_twin`). What `malloc` leaves anywhere else is
never seen: only the getter of a small value reads the heap (`serverGetEager_at`), and only
what a record owns.
-/

namespace RdmaWiki

open CText StepMachine

variable {N : ℕ}

/-! ## Two heaps -/

/-- The records have the same bytes on both heaps, and the regions are the same. Memory that
no record owns may differ. -/
structure Twins (db : Database N) (mem mem' : Mem) : Prop where
  block : ∀ k value, (db.find k).bind Item.value = some value →
    mem'.block value.value = mem.block value.value
  region : mem'.region = mem.region

/-- Two handlings that return the same, send the same and leave the same records, or both
crash. -/
def SameHandling : Option (Ret × World N) → Option (Ret × World N) → Prop :=
  Option.Rel fun done done' =>
    ∃ mem', done' = (done.1, done.2.at mem') ∧ Twins done.2.db done.2.mem mem'

section Twins

variable {db db' : Database N} {mem mem' m m' : Mem} {key k : Bytes} {a addr : UInt64}
  {rkey : UInt32} {env : Env N} {junk : Junk N} {junkBytes : ℕ → Bytes} {c : Fin N}

theorem Twins.view_eq (twins : Twins db mem mem') (k : Bytes) :
    view db mem' k = view db mem k := by
  unfold view
  cases stored : (db.find k).bind Item.value with
  | none => rfl
  | some value => rw [Option.map_some, Option.map_some, twins.block k value stored]

theorem Mem.release_block_congr (same : m'.block a = m.block a) (old : Option Value) :
    (m'.release old).block a = (m.release old).block a := by
  cases old with
  | none => exact same
  | some value =>
      obtain ⟨address, size, large, mr⟩ := value
      cases large with
      | false => simp [Mem.release, Mem.free, Function.update_apply, same]
      | true => cases mr <;> simp [Mem.release, Mem.free, Mem.dereg, Function.update_apply, same]

theorem Mem.release_region_congr (same : m'.region = m.region) (old : Option Value) :
    (m'.release old).region = (m.release old).region := by
  cases old with
  | none => exact same
  | some value =>
      obtain ⟨address, size, large, mr⟩ := value
      cases large with
      | false => simp [Mem.release, Mem.free, same]
      | true => cases mr <;> simp [Mem.release, Mem.free, Mem.dereg, same]

/-- New memory with the same bytes. -/
theorem Mem.alloc_block_congr {a : UInt64} (addr : UInt64) (bytes : Bytes)
    (same : m'.block a = m.block a) :
    (m'.alloc addr bytes).block a = (m.alloc addr bytes).block a := by
  simp only [Mem.alloc, Function.update_apply, same]

theorem Mem.alloc_block_self (m m' : Mem) (addr : UInt64) (bytes : Bytes) :
    (m'.alloc addr bytes).block addr = (m.alloc addr bytes).block addr := by
  simp only [Mem.alloc, Function.update_self]

/-- The values after `set_item`. -/
theorem setItem_values {value : Option Value} {ret : Ret} {u : Value}
    (stored : db.setItem env m key value = (ret, db', m'))
    (shows : (db'.find k).bind Item.value = some u) :
    (ret = .exitSuccess ∧ value = some u) ∨ (db.find k).bind Item.value = some u := by
  rcases eq_or_ne k key with rfl | other
  · cases failed : db.setItemFails env k with
    | true =>
        rw [setItem_fails failed] at stored
        cases stored
        exact .inr shows
    | false =>
        obtain ⟨db₁, stored₁, find⟩ := setItem_succeeds failed m value
        cases stored.symm.trans stored₁
        rw [find, Function.update_self, Option.bind_some] at shows
        exact .inl ⟨rfl, shows⟩
  · have kept : (db.setItem env m key value).2.1.find k = db.find k :=
      Database.find_setItem_ne env m value other
    rw [stored] at kept
    rw [kept] at shows
    exact .inr shows

/-- `set_item` on two heaps. -/
theorem Twins.setItem (twins : Twins db mem mem') (junkBytes : ℕ → Bytes)
    (agree : db.setItemFails env key = false → db.find key = none → junk = env.junk)
    (blocks : ∀ a, mem'.block a = mem.block a → m'.block a = m.block a)
    (region : m'.region = m.region) (value : Option Value)
    (fresh : ∀ u, value = some u → m'.block u.value = m.block u.value) :
    ∃ ret db₁ m₁ m₁', db.setItem env m key value = (ret, db₁, m₁) ∧
      db.setItem (env.refill junk junkBytes) m' key value = (ret, db₁, m₁') ∧
      Twins db₁ m₁ m₁' := by
  obtain ⟨ret, db₁, old, stored⟩ := setItem_release env db key value
  refine ⟨ret, db₁, m.release old, m'.release old, stored m, ?_, ?_, ?_⟩
  · rw [setItem_refill junkBytes m' key agree]
    exact stored m'
  · intro k u shows
    apply Mem.release_block_congr
    rcases setItem_values (stored m) shows with ⟨-, new⟩ | before
    · exact fresh u new
    · exact blocks _ (twins.block k u before)
  · exact Mem.release_region_congr region old

/-- `set_item` of a value in new memory, whose bytes are the same on the two heaps. -/
theorem Twins.store {addr : UInt64} {bytes : Bytes} (twins : Twins db mem mem')
    (junkBytes : ℕ → Bytes) (value : Value)
    (agree : db.setItemFails env key = false → db.find key = none → junk = env.junk)
    (block : m.block = (mem.alloc addr bytes).block)
    (block' : m'.block = (mem'.alloc addr bytes).block) (region : m'.region = m.region)
    (owns : value.value = addr) :
    ∃ ret db₁ m₁ m₁', db.setItem env m key (some value) = (ret, db₁, m₁) ∧
      db.setItem (env.refill junk junkBytes) m' key (some value) = (ret, db₁, m₁') ∧
      Twins db₁ m₁ m₁' := by
  apply twins.setItem junkBytes agree _ region
  · intro u there
    cases there
    rw [block, block', owns]
    exact Mem.alloc_block_self mem mem' addr bytes
  · intro a same
    rw [block, block']
    exact Mem.alloc_block_congr addr bytes same

/-- New memory with different bytes is memory that no record owns. -/
theorem Twins.alloc (twins : Twins db mem mem') (heap : Heap db.find mem)
    (free : mem.block addr = none) (bytes bytes' : Bytes) :
    Twins db (mem.alloc addr bytes) (mem'.alloc addr bytes') where
  block k value shows := by
    have other : value.value ≠ addr := by
      intro same
      have inUse := (heap.held_old shows).inUse
      rw [same] at inUse
      exact inUse free
    simp only [Mem.alloc, Function.update_of_ne other]
    exact twins.block k value shows
  region := twins.region

theorem Twins.register (twins : Twins db mem mem') (addr : UInt64) (rkey : UInt32) (n : ℕ) :
    Twins db (mem.register addr rkey n) (mem'.register addr rkey n) where
  block := twins.block
  region := by simp only [Mem.register, twins.region]

/-- A handling that keeps the heap and the values. -/
theorem Twins.kept (twins : Twins db mem mem') {ret : Ret} {w : World N}
    (keeps : w.mem = mem ∧ ∀ k, (w.db.find k).bind Item.value = (db.find k).bind Item.value) :
    SameHandling (some (ret, w)) (some (ret, w.at mem')) := by
  obtain ⟨same, values⟩ := keeps
  refine .some ⟨mem', rfl, ?_, ?_⟩
  · intro k value shows
    rw [values] at shows
    rw [same]
    exact twins.block k value shows
  · rw [same]
    exact twins.region

/-- A handler that keeps both and does not look at the heap. -/
theorem Twins.quiet (twins : Twins db mem mem') {handled : Option (Ret × World N)}
    (keeps : ∀ ret w, handled = some (ret, w) → w.mem = mem ∧
      ∀ k, (w.db.find k).bind Item.value = (db.find k).bind Item.value) :
    SameHandling handled (onHeap mem' handled) := by
  cases handled with
  | none => exact .none
  | some done => exact twins.kept (keeps done.1 done.2 rfl)

/-- A writer that keeps the value of its record. -/
theorem update_values {change : Item N → Item N}
    (keeps : ∀ item, (change item).key = item.key ∧ (change item).value = item.value)
    (k : Bytes) : ((db.update key change).2.find k).bind Item.value = (db.find k).bind Item.value := by
  rcases eq_or_ne k key with rfl | other
  · cases found : db.find k with
    | none => rw [Database.update_absent found, found]
    | some item =>
        rw [(Database.find_update (fun item => (keeps item).1) found).2, Function.update_self]
        exact (keeps item).2
  · rw [Database.find_update_ne (fun item => (keeps item).1) other]

theorem quiet_values (key : Bytes) (db : Database N) (mem : Mem) :
    Quiet key fun w : World N =>
      w.mem = mem ∧ ∀ k, (w.db.find k).bind Item.value = (db.find k).bind Item.value where
  update kept keeps := ⟨kept.1, fun k => (update_values keeps k).trans (kept.2 k)⟩
  send _ kept := kept

/-- `set_item` succeeds while the request is handled. -/
def Request.Stored (env : Env N) (db : Database N) : Request → Prop
  | .setAsk key => db.validSet key = true ∧ db.setItemFails env key = false
  | .setEager key _ =>
    (env.mallocBytes ≠ none ∧ env.mallocValue = true) ∧ db.setItemFails env key = false
  | .setRendezvous key _ =>
    (env.mallocBytes ≠ none ∧ env.regMr ≠ none ∧ env.Delivers 0 ∧ env.mallocValue = true) ∧
      db.setItemFails env key = false
  | _ => False

/-- New memory that becomes part of a record has the same bytes under both choices: the fields
of a record that is added, and the buffer of a rendezvous value. -/
def Request.SameBytes (env : Env N) (junk : Junk N) (junkBytes : ℕ → Bytes) (db : Database N)
    (r : Request) : Prop :=
  r.Stored env db →
    (db.find r.key = none → junk = env.junk) ∧
      ∀ key size, r = .setRendezvous key size →
        (junkBytes (size.toNat + 1)).take size.toNat =
          (env.junkBytes (size.toNat + 1)).take size.toNat

theorem serverSetAsk_twins (twins : Twins db mem mem')
    (same : (Request.setAsk key).SameBytes env junk junkBytes db) :
    SameHandling (some (serverSetAsk env ⟨db, mem, []⟩ key c))
      (some (serverSetAsk (env.refill junk junkBytes) ⟨db, mem', []⟩ key c)) := by
  unfold serverSetAsk
  cases valid : db.validSet key with
  | false =>
      simp only [if_true]
      refine .some ⟨mem', rfl, ?_⟩
      have values (k : Bytes) : ((db.addSetQuery key c).2.find k).bind Item.value =
          (db.find k).bind Item.value := by
        apply update_values
        intro item
        exact ⟨rfl, rfl⟩
      refine ⟨fun k value shows => ?_, twins.region⟩
      exact twins.block k value ((values k).symm.trans shows)
  | true =>
      simp only [Bool.true_eq_false, if_false]
      obtain ⟨ret, db₁, m₁, m₁', stored, stored', twins₁⟩ := twins.setItem junkBytes
        (fun fine => (same ⟨valid, fine⟩).1) (fun _ same => same) twins.region none
        fun _ there => by cases there
      rw [stored, stored']
      simp only
      have other : (⟨db₁, m₁', []⟩ : World N) = World.at ⟨db₁, m₁, []⟩ m₁' := rfl
      rw [other, sendAck_at]
      refine .some ⟨m₁', rfl, ?_⟩
      unfold sendAck
      split
      next => exact twins₁
      next => exact twins₁

theorem parseDataSe_twins {value : Bytes} (twins : Twins db mem mem')
    (same : (Request.setEager key value).SameBytes env junk junkBytes db) :
    SameHandling (parseDataSe env ⟨db, mem, []⟩ key value c)
      (parseDataSe (env.refill junk junkBytes) ⟨db, mem', []⟩ key value c) := by
  have calls : (env.refill junk junkBytes).mallocBytes = env.mallocBytes ∧
    (env.refill junk junkBytes).mallocValue = env.mallocValue := ⟨rfl, rfl⟩
  unfold parseDataSe
  rw [calls.1]
  cases returned : env.mallocBytes with
  | none => exact .some ⟨mem', rfl, twins⟩
  | some addr =>
      simp only [serverSetEager]
      rw [calls.2]
      cases allocated : env.mallocValue with
      | false =>
          simp only [if_true]
          refine .some ⟨_, rfl, fun k u shows => ?_, twins.region⟩
          exact Mem.alloc_block_congr addr _ (twins.block k u shows)
      | true =>
          simp only [Bool.true_eq_false, if_false]
          have reached : env.mallocBytes ≠ none := by
            rw [returned]
            exact Option.some_ne_none addr
          -- the copy of the value is written in full
          obtain ⟨ret, db₁, m₁, m₁', stored, stored', twins₁⟩ := twins.store junkBytes
            ⟨addr, value.length, false, none⟩
            (fun fine => (same ⟨⟨reached, allocated⟩, fine⟩).1) rfl rfl twins.region rfl
          rw [stored, stored']
          cases ret with
          | exitFailure => exact .some ⟨m₁', rfl, twins₁⟩
          | exitSuccess =>
              have fin : SameHandling (serverSetFin env ⟨db₁, m₁, []⟩ key c)
                  (onHeap m₁' (serverSetFin env ⟨db₁, m₁, []⟩ key c)) :=
                twins₁.quiet fun ret w handled =>
                  (quiet_values key db₁ m₁).answers.serverSetFin ⟨rfl, fun _ => rfl⟩ handled
              rw [← serverSetFin_at env junk junkBytes m₁' ⟨db₁, m₁, []⟩ c key] at fin
              exact fin

/-- A buffer whose last byte is set and whose other bytes agree. -/
theorem set_last_eq {n : ℕ} {bytes bytes' : Bytes} (length : bytes.length = n + 1)
    (length' : bytes'.length = n + 1) (same : bytes'.take n = bytes.take n) :
    bytes'.set n 0 = bytes.set n 0 := by
  have last : bytes.drop (n + 1) = [] := List.drop_eq_nil_of_le (by omega)
  have last' : bytes'.drop (n + 1) = [] := List.drop_eq_nil_of_le (by omega)
  rw [List.set_eq_take_append_cons_drop, List.set_eq_take_append_cons_drop, if_pos (by omega),
    if_pos (by omega), last, last', same]

theorem serverSetRendezvous_twins {size : Int} (twins : Twins db mem mem')
    (heap : Heap db.find mem) (fits : env.Fits mem)
    (filled : ∀ n, (junkBytes n).length = n)
    (same : (Request.setRendezvous key size).SameBytes env junk junkBytes db) :
    SameHandling (serverSetRendezvous env ⟨db, mem, []⟩ c key size)
      (serverSetRendezvous (env.refill junk junkBytes) ⟨db, mem', []⟩ c key size) := by
  have calls : (env.refill junk junkBytes).mallocBytes = env.mallocBytes ∧
    (env.refill junk junkBytes).regMr = env.regMr ∧
    (env.refill junk junkBytes).junkBytes = junkBytes ∧
    (env.refill junk junkBytes).mallocValue = env.mallocValue := ⟨rfl, rfl, rfl, rfl⟩
  unfold serverSetRendezvous
  by_cases outside : size < 0 ∨ intMax ≤ size
  · rw [if_pos outside, if_pos outside]
    exact .none
  · rw [if_neg outside, if_neg outside, calls.1]
    cases returned : env.mallocBytes with
    | none => exact .none
    | some addr =>
        simp only
        rw [calls.2.1, calls.2.2.1]
        have alloced := twins.alloc heap (fits.fresh addr returned)
          ((env.junkBytes (size.toNat + 1)).set size.toNat 0)
          ((junkBytes (size.toNat + 1)).set size.toNat 0)
        cases registered : env.regMr with
        | none => exact .some ⟨_, rfl, alloced⟩
        | some rkey =>
            simp only
            have prepared := alloced.register addr rkey size.toNat
            generalize ready : (mem.alloc addr
              ((env.junkBytes (size.toNat + 1)).set size.toNat 0)).register addr rkey size.toNat = m
              at prepared
            generalize ready' : (mem'.alloc addr
              ((junkBytes (size.toNat + 1)).set size.toNat 0)).register addr rkey size.toNat = m'
              at prepared
            have other : (⟨db, m', []⟩ : World N) = World.at ⟨db, m, []⟩ m' := rfl
            rw [other, sendDataStr_at]
            cases posted : sendDataStr env ⟨db, m, []⟩ c (.region rkey addr) with
            | mk ret w =>
                rcases sendDataStr_cases posted with ⟨rfl, delivered, rfl⟩ | ⟨rfl, -, -⟩
                · simp only
                  rw [calls.2.2.2]
                  cases allocated : env.mallocValue with
                  | false =>
                      simp only [if_true]
                      exact .some ⟨m', rfl, prepared⟩
                  | true =>
                      simp only [Bool.true_eq_false, if_false]
                      have other' : World.at ⟨db, m, [] ++ [(c, .region rkey addr)]⟩ m' =
                        (⟨db, m', [(c, .region rkey addr)]⟩ : World N) := rfl
                      simp only [other']
                      cases failed : db.setItemFails env key with
                      | true =>
                          have failed' : db.setItemFails (env.refill junk junkBytes) key = true :=
                            failed
                          rw [setItem_fails failed, setItem_fails failed']
                          exact .some ⟨m', rfl, prepared⟩
                      | false =>
                          -- the buffer becomes the value, so its bytes agree
                          have agree := same
                            ⟨⟨by simp [returned], by simp [registered], delivered, allocated⟩, failed⟩
                          have fields : db.find key = none → junk = env.junk := agree.1
                          have bytes := set_last_eq (fits.bytes _) (filled _) (agree.2 key size rfl)
                          rw [bytes] at ready'
                          obtain ⟨ret, db₁, m₁, m₁', stored, stored', twins₁⟩ :=
                            twins.store junkBytes ⟨addr, size, true, some ⟨rkey, addr⟩⟩
                              (fun _ => fields) (congrArg Mem.block ready).symm
                              (congrArg Mem.block ready').symm prepared.region rfl
                          rw [stored, stored']
                          exact .some ⟨m₁', rfl, twins₁⟩
                · obtain ⟨db_eq, mem_eq⟩ := sendDataStr_heap posted
                  refine .some ⟨m', rfl, ?_⟩
                  rw [db_eq, mem_eq]
                  exact prepared

/-- A handler does the same on both heaps, whatever `malloc` leaves in memory that no record
gets. -/
theorem handle_twins {r : Request} (twins : Twins db mem mem') (heap : Heap db.find mem)
    (fits : env.Fits mem) (filled : ∀ n, (junkBytes n).length = n)
    (same : r.SameBytes env junk junkBytes db) :
    SameHandling (handle env ⟨db, mem, []⟩ c r)
      (handle (env.refill junk junkBytes) ⟨db, mem', []⟩ c r) := by
  have other : (⟨db, mem', []⟩ : World N) = World.at ⟨db, mem, []⟩ mem' := rfl
  have unchanged : mem = mem ∧ ∀ k, (db.find k).bind Item.value = (db.find k).bind Item.value :=
    ⟨rfl, fun _ => rfl⟩
  cases r with
  | setAsk key => exact serverSetAsk_twins twins same
  | setEager key value => exact parseDataSe_twins twins same
  | setRendezvous key size => exact serverSetRendezvous_twins twins heap fits filled same
  | setFin key =>
      simp only [handle]
      rw [other, serverSetFin_at]
      exact twins.quiet fun ret w handled =>
        (quiet_values key db mem).answers.serverSetFin unchanged handled
  | getAsk key =>
      simp only [handle]
      rw [other, serverGetAsk_at]
      exact twins.kept ((quiet_values key db mem).answers.serverGetAsk unchanged)
  | get key =>
      simp only [handle]
      rw [other, parseDataG0_at env junk junkBytes mem' _ c key (twins.block key)]
      exact twins.quiet fun ret w handled =>
        (quiet_values key db mem).answers.parseDataG0
          (fun _ same => same) unchanged handled
  | getFin key =>
      simp only [handle]
      rw [other, serverGetFin_at]
      exact twins.quiet fun ret w handled =>
        (quiet_values key db mem).answers.serverGetFin unchanged handled

theorem Twins.rdmaWrite (twins : Twins db mem mem') (addr : UInt64) (rkey : UInt32) (data : Bytes) :
    Twins db (mem.rdmaWrite addr rkey data) (mem'.rdmaWrite addr rkey data) where
  block k value shows := by
    have same := twins.block k value shows
    rcases eq_or_ne value.value addr with rfl | other
    · unfold Mem.rdmaWrite
      rw [twins.region, same]
      split
      next =>
        split
        next => simp only [Function.update_self]
        next => exact same
      next => exact same
    · rw [Mem.rdmaWrite_of_ne other, Mem.rdmaWrite_of_ne other]
      exact same
  region := by rw [Mem.rdmaWrite_region, Mem.rdmaWrite_region, twins.region]

theorem parseData_twins {buf : Bytes} (twins : Twins db mem mem') (heap : Heap db.find mem)
    (fits : env.Fits mem) (filled : ∀ n, (junkBytes n).length = n)
    (same : ∀ r, parseRequest buf = .request r → r.SameBytes env junk junkBytes db) :
    SameHandling (parseData env ⟨db, mem, []⟩ buf c)
      (parseData (env.refill junk junkBytes) ⟨db, mem', []⟩ buf c) := by
  unfold parseData
  cases parsed : parseRequest buf with
  | crash => exact .none
  | reject => exact .some ⟨mem', rfl, twins⟩
  | request r => exact handle_twins twins heap fits filled (same r parsed)

end Twins

/-! ## Two servers -/

/-- The same request with the same outcomes of the calls, or the same RDMA write. Only the bytes
that `malloc` leaves in new memory may differ. -/
def OtherMemory : StoreAction N → StoreAction N → Prop
  | .request env buf c, .request env' buf' c' =>
    env' = env.refill env'.junk env'.junkBytes ∧ buf' = buf ∧ c' = c
  | .rdmaWrite addr rkey data, .rdmaWrite addr' rkey' data' =>
    addr' = addr ∧ rkey' = rkey ∧ data' = data
  | _, _ => False

/-- Two servers and their actions. -/
abbrev TwinGuard (N : ℕ) := Guard (Option (Database N × Mem) × Option (Database N × Mem))
  (StoreAction N × StoreAction N) (List (Fin N × Reply) × List (Fin N × Reply))

/-- Both servers are sent the same. -/
def sameRequests : TwinGuard N
  | _, (s, s'), (action, action') =>
    (∀ t, s = some t → fitting [] t action) ∧ (∀ t, s' = some t → fitting [] t action') ∧
      OtherMemory action action'

/-- New memory that becomes part of a record of the first server has the same bytes in the
second. -/
def memoryAgrees : TwinGuard N
  | _, (some (db, _), _), (.request env buf _, .request env' _ _) =>
    ∀ r, parseRequest buf = .request r → r.SameBytes env env'.junk env'.junkBytes db
  | _, _, _ => True

/-- Equal lists of records, with equal bytes of every value. -/
def SameContents : Option (Database N × Mem) → Option (Database N × Mem) → Prop :=
  Option.Rel fun s s' => s'.1 = s.1 ∧ ∀ k, view s'.1 s'.2 k = view s.1 s.2 k

/-- The record after the first `as` on a key is empty when its memory was. -/
theorem fresh_ask_iff {env : Env N} {db : Database N} {mem : Mem} {key : Bytes} {c : Fin N}
    {ret : Ret} {w : World N} (absent : db.find key = none)
    (allocated : env.mallocItem = true ∧ env.mallocNode = true)
    (handled : handle env ⟨db, mem, []⟩ c (.setAsk key) = some (ret, w)) :
    w.db.find key = some { Item.blank N key with isSet := true } ↔
      env.junk = Junk.zeroed N := by
  have fine : db.setItemFails env key = false := by
    simp [Database.setItemFails, absent, allocated]
  obtain ⟨db', stored, find⟩ := setItem_succeeds fine mem none
  have valid : db.validSet key = true := by simp [Database.validSet, absent]
  simp only [handle, serverSetAsk, valid, Bool.true_eq_false, if_false, stored,
    Option.some.injEq] at handled
  have kept : w.db = db' := by
    unfold sendAck at handled
    split at handled
    next =>
      cases handled
      rfl
    next =>
      cases handled
      rfl
  rw [kept, find, Function.update_self, Database.recordOr, absent]
  simp only [Option.getD_none, Item.raw, Item.blank, Option.some.injEq, Item.mk.injEq, true_and]
  obtain ⟨numInGet, clientSet, clientGet⟩ := env.junk
  simp only [Junk.zeroed, Junk.mk.injEq]

/-- Two servers that differ only in what `malloc` leaves in memory that no record gets send the
same and hold the same. The record of a new key is empty after its first `as` when its memory
was. -/
theorem contents_of_twin {trace : List (List (Fin N × Reply) × List (Fin N × Reply))}
    {s s' : Option (Database N × Mem)}
    (run : (store N).twin.Run
      (fun trace s actions => sameRequests trace s actions ∧ memoryAgrees trace s actions)
      trace (s, s')) :
    ((∀ sent ∈ trace, sent.1 = sent.2) ∧ SameContents s s') ∧
      ∀ db mem, s = some (db, mem) → ∀ (env : Env N) key (c : Fin N) ret w,
        db.find key = none → env.mallocItem = true ∧ env.mallocNode = true →
        handle env ⟨db, mem, []⟩ c (.setAsk key) = some (ret, w) →
        (w.db.find key = some { Item.blank N key with isSet := true } ↔
          env.junk = Junk.zeroed N) := by
  refine ⟨?_, fun db mem _ env key c ret w absent allocated handled =>
    fresh_ask_iff absent allocated handled⟩
  have twin := run.twin (R := fun s s' => s'.1 = s.1 ∧ Twins s.1 s.2 s'.2 ∧ Heap s.1.find s.2)
    ?_ ?_
  · obtain ⟨related, same⟩ := twin
    refine ⟨same, ?_⟩
    cases related with
    | none => exact .none
    | @some t t' near =>
        obtain ⟨db, mem⟩ := t
        obtain ⟨db', mem'⟩ := t'
        obtain ⟨rfl, twins, -⟩ := near
        exact .some ⟨rfl, twins.view_eq⟩
  · refine ⟨rfl, ⟨fun _ _ shows => (by cases shows), rfl⟩, ?_⟩
    exact ⟨fun _ _ _ found => (by cases found), fun _ _ _ _ _ _ found => (by cases found)⟩
  · intro trace ⟨db, mem⟩ ⟨db', mem'⟩ action action' ⟨same, twins, heap⟩ ⟨⟨met, met', other⟩, agree⟩
    cases same
    have met := met _ rfl
    have met' := met' _ rfl
    cases action with
    | request env buf c =>
        cases action' with
        | request env' buf' c' =>
            obtain ⟨refilled, rfl, rfl⟩ := other
            have filled : ∀ n, (env'.junkBytes n).length = n := met'.1.bytes
            have handled := parseData_twins (c := c') twins heap met.1 filled agree
            rw [← refilled] at handled
            simp only [store]
            cases served : parseData env ⟨db, mem, []⟩ buf' c' with
            | none =>
                rw [served] at handled
                generalize parseData env' ⟨db, mem', []⟩ buf' c' = second at handled
                cases handled
                exact .none
            | some done =>
                obtain ⟨ret, w⟩ := done
                rw [served] at handled
                generalize parseData env' ⟨db, mem', []⟩ buf' c' = second at handled
                cases handled with
                | some there =>
                    obtain ⟨mem'', rfl, twins'⟩ := there
                    refine .some ⟨⟨rfl, twins', ?_⟩, rfl⟩
                    rcases parseData_cases served with ⟨-, -, same⟩ | ⟨r, -, ran⟩
                    · cases same
                      exact heap
                    · exact heap.handle (w := ⟨db, mem, []⟩) met.1 ran
        | rdmaWrite addr rkey data => exact absurd other id
    | rdmaWrite addr rkey data =>
        cases action' with
        | request env' buf' c' => exact absurd other id
        | rdmaWrite addr' rkey' data' =>
            obtain ⟨rfl, rfl, rfl⟩ := other
            exact .some ⟨⟨rfl, twins.rdmaWrite addr' rkey' data', heap.rdmaWrite data'⟩, rfl⟩

/-- Two sets of a key with other bytes in the memory for their values. The buffer of the second
one is lost, since its registration fails, and only this block differs. -/
theorem sets_on_other_bytes :
    ∃ (trace : List (List (Fin numClients × Reply) × List (Fin numClients × Reply)))
      (db : Database numClients) (mem mem' : Mem),
      (store numClients).twin.Run
        (fun trace s actions => sameRequests trace s actions ∧ memoryAgrees trace s actions)
        trace (some (db, mem), some (db, mem')) ∧
      mem.block 1 ≠ mem'.block 1 ∧ db.find keyK.bytes ≠ none ∧
        (∀ sent ∈ trace, sent.1 = sent.2) ∧ SameContents (some (db, mem)) (some (db, mem')) := by
  let ones : ℕ → Bytes := fun n => List.replicate n 1
  let stores := Env.reliable numClients 0 0
  let loses := { Env.reliable numClients 1 0 with regMr := none }
  let small := onWire (flagKeyText .se keyK.bytes valueV.bytes)
  let large := onWire (flagKeyText .sr keyK.bytes (ascii ['1']))
  let first : StoreAction numClients × StoreAction numClients :=
    (.request stores small 0, .request (stores.refill stores.junk ones) small 0)
  let second : StoreAction numClients × StoreAction numClients :=
    (.request loses large 0, .request (loses.refill loses.junk ones) large 0)
  have same : sameRequests [] (store numClients).twin.init first := by
    refine ⟨fun t there => ?_, fun t there => ?_, rfl, rfl, rfl⟩
    · cases there
      exact ⟨Env.fits_reliable rfl 0, by decide⟩
    · cases there
      exact ⟨⟨fun _ _ => rfl, fun _ => List.length_replicate⟩, by decide⟩
  have agree : memoryAgrees [] (store numClients).twin.init first := by
    intro r parsed
    have sets : parseRequest small = .request (.setEager keyK.bytes valueV.bytes) := by decide
    cases sets.symm.trans parsed
    exact fun _ => ⟨fun _ => rfl, fun _ _ other => by cases other⟩
  have lost : ∀ trace db mem mem', mem.block 1 = none → mem'.block 1 = none →
      sameRequests trace (some (db, mem), some (db, mem')) second ∧
        memoryAgrees trace (some (db, mem), some (db, mem')) second := by
    intro trace db mem mem' free free'
    refine ⟨⟨fun t there => ?_, fun t there => ?_, rfl, rfl, rfl⟩, fun r parsed => ?_⟩
    · cases there
      exact ⟨⟨fun addr given => (by cases given; exact free), fun _ => List.length_replicate⟩,
        by decide⟩
    · cases there
      exact ⟨⟨fun addr given => (by cases given; exact free'), fun _ => List.length_replicate⟩,
        by decide⟩
    · have sets : parseRequest large = .request (.setRendezvous keyK.bytes 1) := by decide
      cases sets.symm.trans parsed
      rintro ⟨⟨-, registered, -⟩, -⟩
      exact absurd rfl registered
  have run : (store numClients).twin.Run
      (fun trace s actions => sameRequests trace s actions ∧ memoryAgrees trace s actions)
      _ (some (_, _), some (_, _)) :=
    .step (.step .init ⟨same, agree⟩ rfl) (lost _ _ _ _ rfl rfl) rfl
  exact ⟨_, _, _, _, run, by decide, by decide, (contents_of_twin run).1⟩

/-- A client that never asked is answered when the memory of a new record says that it waits. -/
theorem memory_seen : ¬ ∀ (N : ℕ) trace s s', (store N).twin.Run sameRequests trace (s, s') →
    (∀ sent ∈ trace, sent.1 = sent.2) ∧ SameContents s s' := by
  intro unseen
  let env := Env.reliable numClients 0 0
  let env' := env.refill ⟨0, fun i => i = 1, fun _ => false⟩ env.junkBytes
  let buf := onWire (flagKeyText .se keyK.bytes valueV.bytes)
  have fits : fitting [] (store numClients).init (.request env buf 0) :=
    ⟨Env.fits_reliable rfl 0, by decide⟩
  have fits' : fitting [] (store numClients).init (.request env' buf 0) :=
    ⟨⟨fun _ _ => rfl, fun _ => List.length_replicate⟩, by decide⟩
  have same : sameRequests [] (store numClients).twin.init
      (.request env buf 0, .request env' buf 0) :=
    ⟨fun t there => (by cases there; exact fits), fun t there => (by cases there; exact fits'),
      rfl, rfl, rfl⟩
  have run : (store numClients).twin.Run sameRequests _ (_, _) := .step .init same rfl
  have sent := (unseen numClients _ _ _ run).1 _
    (List.mem_append_right _ (List.mem_singleton.mpr rfl))
  revert sent
  decide

end RdmaWiki
