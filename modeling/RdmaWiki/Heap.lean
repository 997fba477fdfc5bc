import RdmaWiki.Refinement
import RdmaWiki.Writers

/-!
What the records own on the server's heap.

`Heap` says that every stored value has its bytes, that a large value is
registered for remote access under its own descriptor, and that different
records have different bytes. It holds in every reachable state, whatever the
clients do, because the server frees only what a record owns and allocates only
what is free.
-/

namespace RdmaWiki

open CText StepMachine Locks

variable {N : ℕ}

/-- The value at its address: its bytes, and for a large value its region and a
terminator after the `size` bytes that a client may write. -/
structure Value.Held (value : Value) (mem : Mem) : Prop where
  block : ∃ bytes, mem.block value.value = some bytes
  large : value.isLarge = true → ∃ (rkey : UInt32) (n : ℕ) (body : Bytes),
    value.mr = some ⟨rkey, value.value⟩ ∧ value.size = n ∧
      mem.region value.value = some (rkey, n) ∧
      mem.block value.value = some (body ++ [0]) ∧ body.length = n

structure Heap (find : Bytes → Option (Item N)) (mem : Mem) : Prop where
  held : ∀ k item value, find k = some item → item.value = some value → value.Held mem
  apart : ∀ k k' item item' value value', find k = some item → item.value = some value →
    find k' = some item' → item'.value = some value' → value.value = value'.value → k = k'

/-- What shows under a key: the record, and the bytes of its value. -/
def view (db : Database N) (mem : Mem) (k : Bytes) :
    Option (Item N) × Option (Option Bytes) :=
  (db.find k, ((db.find k).bind Item.value).map fun value => mem.block value.value)

section Heap

variable {find : Bytes → Option (Item N)} {mem : Mem} {k : Bytes} {item : Item N}
  {value : Value} {addr : UInt64} {rkey : UInt32}

/-- A value depends on its own address only. -/
theorem Value.Held.of_same {mem' : Mem} (held : value.Held mem)
    (block : mem'.block value.value = mem.block value.value)
    (region : mem'.region value.value = mem.region value.value) : value.Held mem' where
  block := by rw [block]; exact held.block
  large large := by rw [block, region]; exact held.large large

/-- A record is rewritten with the value it had. -/
theorem Heap.keep (heap : Heap find mem) (old : Option Value)
    (before : old = (find k).bind Item.value) (same : item.value = old) :
    Heap (Function.update find k (some item)) mem := by
  have owned : ∀ k' item' value, Function.update find k (some item) k' = some item' →
      item'.value = some value → ∃ item₀, find k' = some item₀ ∧ item₀.value = some value := by
    intro k' item' value found stored
    rcases eq_or_ne k' k with rfl | other
    · rw [Function.update_self, Option.some.injEq] at found
      rw [← found, same, before] at stored
      exact Option.bind_eq_some_iff.mp stored
    · rw [Function.update_of_ne other] at found
      exact ⟨item', found, stored⟩
  constructor
  · intro k' item' value found stored
    obtain ⟨item₀, found₀, stored₀⟩ := owned k' item' value found stored
    exact heap.held k' item₀ value found₀ stored₀
  · intro k₁ k₂ item₁ item₂ value₁ value₂ found₁ stored₁ found₂ stored₂ same
    obtain ⟨item₃, found₃, stored₃⟩ := owned k₁ item₁ value₁ found₁ stored₁
    obtain ⟨item₄, found₄, stored₄⟩ := owned k₂ item₂ value₂ found₂ stored₂
    exact heap.apart k₁ k₂ item₃ item₄ value₁ value₂ found₃ stored₃ found₄ stored₄ same

/-- Releasing a value touches its own address only. -/
theorem Mem.release_elsewhere (mem : Mem) (a : UInt64) {old : Option Value}
    (own : ∀ value, old = some value → value.isLarge = true →
      ∃ rkey, value.mr = some ⟨rkey, value.value⟩)
    (other : ∀ value, old = some value → a ≠ value.value) :
    (mem.release old).block a = mem.block a ∧ (mem.release old).region a = mem.region a := by
  cases old with
  | none => exact ⟨rfl, rfl⟩
  | some value =>
      have different := other value rfl
      simp only [Mem.release]
      cases large : value.isLarge with
      | false => simp [Mem.free, different]
      | true =>
          obtain ⟨rkey, mr⟩ := own value rfl large
          simp [Mem.free, Mem.dereg, mr, different]

theorem Value.Held.inUse (held : value.Held mem) : mem.block value.value ≠ none := by
  obtain ⟨bytes, block⟩ := held.block
  rw [block]
  exact Option.some_ne_none bytes

/-- Memory changes where nothing is stored. -/
theorem Heap.elsewhere (heap : Heap find mem) {mem' : Mem}
    (others : ∀ a, mem.block a ≠ none → mem'.block a = mem.block a ∧
      mem'.region a = mem.region a) : Heap find mem' where
  held k item value found stored := by
    have held := heap.held k item value found stored
    obtain ⟨block, region⟩ := others value.value held.inUse
    exact held.of_same block region
  apart := heap.apart

/-- What shows changes with the record, as long as the memory in use does not. -/
theorem Heap.view_eq_iff {db db' : Database N} {mem' : Mem} (heap : Heap db.find mem)
    (same : ∀ a, mem.block a ≠ none → mem'.block a = mem.block a) :
    view db' mem' k = view db mem k ↔ db'.find k = db.find k := by
  constructor
  · intro views
    exact congrArg Prod.fst views
  · intro finds
    unfold view
    rw [finds]
    cases stored : (db.find k).bind Item.value with
    | none => rfl
    | some value =>
        obtain ⟨item, found, value_eq⟩ := Option.bind_eq_some_iff.mp stored
        rw [Option.map_some, Option.map_some, same _ (heap.held k item value found value_eq).inUse]

theorem Heap.held_old (heap : Heap find mem) (old : (find k).bind Item.value = some value) :
    value.Held mem := by
  obtain ⟨item, found, stored⟩ := Option.bind_eq_some_iff.mp old
  exact heap.held k item value found stored

/-- The old value of a record is registered under its own descriptor, if it is. -/
theorem Heap.old_own (heap : Heap find mem) (value : Value)
    (old : (find k).bind Item.value = some value) (large : value.isLarge = true) :
    ∃ rkey, value.mr = some ⟨rkey, value.value⟩ := by
  obtain ⟨rkey, n, body, mr, -⟩ := (heap.held_old old).large large
  exact ⟨rkey, mr⟩

/-- Releasing the old value of a record leaves the values of the others alone. -/
theorem Heap.release_other (heap : Heap find mem) {mem' : Mem} {k' : Bytes} {item' : Item N}
    (others : ∀ a, mem.block a ≠ none → mem'.block a = mem.block a ∧
      mem'.region a = mem.region a)
    (other : k' ≠ k) (found : find k' = some item') (stored : item'.value = some value) :
    (mem'.release ((find k).bind Item.value)).block value.value = mem.block value.value ∧
      (mem'.release ((find k).bind Item.value)).region value.value =
        mem.region value.value := by
  obtain ⟨block, region⟩ := Mem.release_elsewhere mem' value.value heap.old_own
    fun oldValue old clash => by
      obtain ⟨item₀, found₀, stored₀⟩ := Option.bind_eq_some_iff.mp old
      exact other (heap.apart k' k item' item₀ value oldValue found stored found₀ stored₀ clash)
  obtain ⟨block', region'⟩ :=
    others value.value (heap.held k' item' value found stored).inUse
  exact ⟨block.trans block', region.trans region'⟩

/-- Releasing the old value of a record leaves new memory alone. -/
theorem Heap.release_fresh (heap : Heap find mem) (mem' : Mem) (free : mem.block addr = none) :
    (mem'.release ((find k).bind Item.value)).block addr = mem'.block addr ∧
      (mem'.release ((find k).bind Item.value)).region addr = mem'.region addr :=
  Mem.release_elsewhere mem' addr heap.old_own
    fun _ old clash => (heap.held_old old).inUse (clash ▸ free)

/-- The old value of a record is released and the record gets a value of its own
in new memory, or none. -/
theorem Heap.replace (heap : Heap find mem) {mem' : Mem}
    (fresh : ∀ value, item.value = some value →
      value.Held mem' ∧ mem.block value.value = none)
    (others : ∀ a, mem.block a ≠ none → mem'.block a = mem.block a ∧
      mem'.region a = mem.region a) :
    Heap (Function.update find k (some item)) (mem'.release ((find k).bind Item.value)) := by
  constructor
  · intro k' item' value found stored
    rcases eq_or_ne k' k with rfl | other
    · rw [Function.update_self, Option.some.injEq] at found
      subst found
      obtain ⟨held, unused⟩ := fresh value stored
      obtain ⟨block, region⟩ := heap.release_fresh mem' unused
      exact held.of_same block region
    · rw [Function.update_of_ne other] at found
      obtain ⟨block, region⟩ := heap.release_other others other found stored
      exact (heap.held k' item' value found stored).of_same block region
  · intro k₁ k₂ item₁ item₂ value₁ value₂ found₁ stored₁ found₂ stored₂ same
    rcases eq_or_ne k₁ k with rfl | other₁
    · rcases eq_or_ne k₂ k₁ with rfl | other₂
      · rfl
      · rw [Function.update_self, Option.some.injEq] at found₁
        rw [Function.update_of_ne other₂] at found₂
        subst found₁
        obtain ⟨-, unused⟩ := fresh value₁ stored₁
        exact absurd (same ▸ unused) (heap.held k₂ item₂ value₂ found₂ stored₂).inUse
    · rw [Function.update_of_ne other₁] at found₁
      rcases eq_or_ne k₂ k with rfl | other₂
      · rw [Function.update_self, Option.some.injEq] at found₂
        subst found₂
        obtain ⟨-, unused⟩ := fresh value₂ stored₂
        exact absurd (same.symm ▸ unused) (heap.held k₁ item₁ value₁ found₁ stored₁).inUse
      · rw [Function.update_of_ne other₂] at found₂
        exact heap.apart k₁ k₂ item₁ item₂ value₁ value₂ found₁ stored₁ found₂ stored₂ same

/-- A small value in new memory. -/
theorem Value.held_small (bytes : Bytes) (n : Int) :
    (⟨addr, n, false, none⟩ : Value).Held (mem.alloc addr bytes) where
  block := ⟨bytes, by simp [Mem.alloc]⟩
  large large := by cases large

/-- A large value in new memory, registered for remote access. -/
theorem Value.held_large {bytes : Bytes} {n : ℕ} (length : bytes.length = n + 1) :
    (⟨addr, n, true, some ⟨rkey, addr⟩⟩ : Value).Held
      ((mem.alloc addr (bytes.set n 0)).register addr rkey n) where
  block := ⟨bytes.set n 0, by simp [Mem.alloc, Mem.register]⟩
  large _ := by
    refine ⟨rkey, n, bytes.take n, rfl, rfl, ?_, ?_, ?_⟩
    · simp [Mem.register]
    · have last : bytes.drop (n + 1) = [] := List.drop_eq_nil_of_le (by omega)
      simp only [Mem.alloc, Mem.register, Function.update_self, Option.some.injEq]
      rw [List.set_eq_take_append_cons_drop, if_pos (by omega), last]
    · rw [List.length_take]
      omega

/-- New memory leaves the memory in use alone. -/
theorem Mem.alloc_elsewhere (free : mem.block addr = none) (bytes : Bytes) (a : UInt64)
    (inUse : mem.block a ≠ none) :
    (mem.alloc addr bytes).block a = mem.block a ∧
      (mem.alloc addr bytes).region a = mem.region a := by
  have other : a ≠ addr := fun clash => inUse (clash ▸ free)
  simp [Mem.alloc, other]

theorem Mem.register_elsewhere (free : mem.block addr = none) (rkey : UInt32) (bytes : Bytes)
    (n : ℕ) (a : UInt64) (inUse : mem.block a ≠ none) :
    ((mem.alloc addr bytes).register addr rkey n).block a = mem.block a ∧
      ((mem.alloc addr bytes).register addr rkey n).region a = mem.region a := by
  have other : a ≠ addr := fun clash => inUse (clash ▸ free)
  simp [Mem.alloc, Mem.register, other]

/-- An RDMA write stays inside the bytes of a large value. -/
theorem Value.Held.rdmaWrite (held : value.Held mem) (data : Bytes) :
    value.Held (mem.rdmaWrite addr rkey data) := by
  unfold Mem.rdmaWrite
  split
  next key length bytes region block =>
    split
    next allowed =>
      rcases eq_or_ne value.value addr with rfl | other
      · refine ⟨⟨data ++ bytes.drop data.length, by simp⟩, fun large => ?_⟩
        obtain ⟨rkey', n, body, mr, size, region', block', length'⟩ := held.large large
        rw [region', Option.some.injEq, Prod.mk.injEq] at region
        obtain ⟨rfl, rfl⟩ := region
        rw [block', Option.some.injEq] at block
        have inside : data.length ≤ body.length := by omega
        refine ⟨rkey', n, data ++ body.drop data.length, mr, size, region', ?_, ?_⟩
        · simp only [Function.update_self, Option.some.injEq, ← block]
          rw [List.drop_append_of_le_length inside, List.append_assoc]
        · rw [List.length_append, List.length_drop]
          omega
      · exact held.of_same (by simp [other]) rfl
    next => exact held
  next => exact held

/-- An RDMA write elsewhere. -/
theorem Mem.rdmaWrite_of_ne {a : UInt64} (other : a ≠ addr) (data : Bytes) :
    (mem.rdmaWrite addr rkey data).block a = mem.block a := by
  unfold Mem.rdmaWrite
  split
  next =>
    split
    next => simp [other]
    next => rfl
  next => rfl

theorem Mem.rdmaWrite_region (data : Bytes) :
    (mem.rdmaWrite addr rkey data).region = mem.region := by
  unfold Mem.rdmaWrite
  split
  next =>
    split
    next => rfl
    next => rfl
  next => rfl

theorem Heap.rdmaWrite (heap : Heap find mem) (data : Bytes) :
    Heap find (mem.rdmaWrite addr rkey data) where
  held k item value found stored := (heap.held k item value found stored).rdmaWrite data
  apart := heap.apart

end Heap

section Handle

variable {env : Env N} {db : Database N} {w w' : World N} {mem mem' : Mem} {key : Bytes}
  {c : Fin N} {ret : Ret}

/-- What `malloc` promises: an address that is not in use, and as many bytes as were asked
for. -/
structure Env.Fits (env : Env N) (mem : Mem) : Prop where
  fresh : ∀ addr, env.mallocBytes = some addr → mem.block addr = none
  bytes : ∀ n, (env.junkBytes n).length = n

theorem Env.fits_reliable {addr : UInt64} (free : mem.block addr = none) (rkey : UInt32) :
    (Env.reliable N addr rkey).Fits mem where
  fresh addr' returned := by
    cases returned
    exact free
  bytes _ := List.length_replicate

theorem recordOr_value (junk : Junk N) (key : Bytes) :
    (db.recordOr junk key).value = (db.find key).bind Item.value := by
  cases found : db.find key with
  | none => simp [Database.recordOr, found, Item.raw]
  | some item => simp [Database.recordOr, found]

theorem record_value (key : Bytes) :
    (db.record key).value = (db.find key).bind Item.value :=
  recordOr_value (Junk.zeroed N) key

@[simp] theorem Item.woken_value (item : Item N) : item.woken.value = item.value := by
  unfold Item.woken
  split <;> rfl

/-- A writer that keeps the value of its record. -/
theorem Heap.update {change : Item N → Item N} (heap : Heap db.find mem)
    (keeps : ∀ item, (change item).key = item.key ∧ (change item).value = item.value) :
    Heap (db.update key change).2.find mem := by
  cases found : db.find key with
  | none =>
      rw [Database.update_absent found]
      exact heap
  | some item =>
      rw [(Database.find_update (fun item => (keeps item).1) found).2]
      exact heap.keep item.value (by rw [found, Option.bind_some]) (keeps item).2

theorem Heap.quiet (key : Bytes) : Quiet key fun w : World N => Heap w.db.find w.mem where
  update heap keeps := heap.update keeps
  send _ heap := heap

/-- `set_item` with a value in new memory, or none. -/
theorem Heap.setItem (heap : Heap db.find mem) (env : Env N) (key : Bytes) {value : Option Value}
    (fresh : ∀ v, value = some v → v.Held mem' ∧ mem.block v.value = none)
    (others : ∀ a, mem.block a ≠ none → mem'.block a = mem.block a ∧
      mem'.region a = mem.region a) :
    Heap (db.setItem env mem' key value).2.1.find (db.setItem env mem' key value).2.2 := by
  cases failed : db.setItemFails env key with
  | true =>
      rw [setItem_fails failed]
      exact heap.elsewhere others
  | false =>
      obtain ⟨db', stored, find⟩ := setItem_succeeds failed mem' value
      rw [stored, find, recordOr_value]
      exact heap.replace fresh others

/-- New memory is not in use. -/
theorem Env.Fits.elsewhere (fits : env.Fits mem) (grown : mem.GrownBy env mem') (a : UInt64)
    (inUse : mem.block a ≠ none) :
    mem'.block a = mem.block a ∧ mem'.region a = mem.region a :=
  grown a fun given => absurd (fits.fresh a given) inUse

/-- The value of a request is in order in its new memory. -/
theorem Request.Stores.held {r : Request} {value : Option Value} (fits : env.Fits w.mem)
    (stores : r.Stores env w value mem') (v : Value) (same : value = some v) :
    v.Held mem' ∧ w.mem.block v.value = none := by
  cases stores with
  | ask key free => cases same
  | eager key text given =>
      cases same
      exact ⟨Value.held_small _ _, fits.fresh _ given⟩
  | rendezvous key bounded given registered =>
      cases same
      exact ⟨Value.held_large (fits.bytes _), fits.fresh _ given⟩

/-- Handling a request keeps the heap in order, whatever fails. -/
theorem Heap.handle {r : Request} (heap : Heap w.db.find w.mem) (fits : env.Fits w.mem)
    (handled : handle env w c r = some (ret, w')) : Heap w'.db.find w'.mem := by
  have quiet := Heap.quiet (N := N) r.key
  refine handle_rule (P := fun w => Heap w.db.find w.mem) quiet.answers
    (fun _ holds => quiet.send _ holds) ?_ ?_ heap handled
  · intro mem grown
    exact heap.elsewhere (fits.elsewhere grown)
  · intro value mem sent stores _
    exact heap.setItem env r.key (stores.held fits) (fits.elsewhere stores.grown)

end Handle

/-- A client's own step changes the heap by an RDMA write at most. -/
theorem Client.proceed_mem {cl cl' : Client} {mem mem' : Mem}
    {results : List (Call × Result)} (next : cl.proceed mem = some (cl', mem', results)) :
    mem' = mem ∨ ∃ key value rkey addr, cl.phase = .setWrite key value rkey addr ∧
      mem' = mem.rdmaWrite addr rkey value.bytes := by
  unfold Client.proceed at next
  split at next
  next =>
    split at next
    next => cases next; exact .inl rfl
    next =>
      split at next
      all_goals cases next; exact .inl rfl
  next => cases next; exact .inl rfl
  next => cases next; exact .inl rfl
  next key value rkey addr phase =>
    cases next
    exact .inr ⟨key, value, rkey, addr, phase, rfl⟩
  all_goals first | (cases next; exact .inl rfl) | cases next

/-- In every reachable state the heap is in order. -/
theorem heap_of_run {guard : Guard (Config N) (Action N) (Event N)} {trace : List (Event N)}
    {cfg : Config N} (run : (protocol N).Run guard trace cfg) : Heap cfg.db.find cfg.mem := by
  refine run.invariant (fun _ cfg => Heap cfg.db.find cfg.mem) ?_ ?_
  · exact ⟨fun _ _ _ found => (by cases found), fun _ _ _ _ _ _ found => (by cases found)⟩
  · intro trace cfg action cfg' events before heap met next
    cases action with
    | invoke c call =>
        obtain ⟨-, -, rfl, -⟩ := Config.next_invoke next
        exact heap
    | proceed c =>
        obtain ⟨cl, mem, results, own, rfl, -⟩ := Config.next_proceed next
        rcases Client.proceed_mem own with rfl | ⟨key, value, rkey, addr, -, rfl⟩
        · exact heap
        · exact heap.rdmaWrite value.bytes
    | serve c addr rkey =>
        obtain ⟨buf, rest, queue, -, free, ⟨-, rfl, -⟩ | ⟨ret, w, served, rfl, -⟩⟩ :=
          Config.next_serve next
        · exact heap
        · unfold parseData at served
          split at served
          next => cases served
          next =>
            cases served
            exact heap
          next => exact heap.handle (w := ⟨cfg.db, cfg.mem, []⟩) (Env.fits_reliable free rkey) served

end RdmaWiki
