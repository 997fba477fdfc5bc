import RdmaWiki.Store

/-!
All memory of the server is its records' memory.

`Heap` says that every value of a record has its bytes, and its region if it is large. Here is the
other half: as long as no library call fails, what is allocated for values is the bytes of a
record's value, and what is registered is that of a large one, whatever the clients send
(`owned_of_run`). So what a set replaces is given back before the set is over.
-/

namespace RdmaWiki

open CText StepMachine

variable {N : ℕ}

/-- Requests are handled without a failing call, in memory that is not in use. -/
def reliably : Guard (Database N × Mem) (StoreAction N) (Fin N × Reply)
  | _, (_, mem), .request env _ _ =>
    ∃ addr rkey, env = .reliable N addr rkey ∧ mem.block addr = none
  | _, _, .rdmaWrite _ _ _ => True

/-- Memory is owned by the records. -/
structure Owned (find : Bytes → Option (Item N)) (mem : Mem) : Prop where
  block : ∀ a, mem.block a ≠ none →
    ∃ k value, (find k).bind Item.value = some value ∧ value.value = a
  region : ∀ a, mem.region a ≠ none →
    ∃ k value, (find k).bind Item.value = some value ∧ value.value = a ∧ value.isLarge = true

section Owned

variable {find : Bytes → Option (Item N)} {mem mem' : Mem} {k : Bytes} {item : Item N}
  {a addr : UInt64} {rkey : UInt32}

/-- A record is rewritten with the value it had. -/
theorem Owned.keep (owned : Owned find mem) (same : item.value = (find k).bind Item.value) :
    Owned (Function.update find k (some item)) mem := by
  have kept : ∀ k', (Function.update find k (some item) k').bind Item.value =
      (find k').bind Item.value := by
    intro k'
    rcases eq_or_ne k' k with rfl | other
    · rw [Function.update_self, Option.bind_some, same]
    · rw [Function.update_of_ne other]
  constructor
  · intro a used
    obtain ⟨k', value, stored, here⟩ := owned.block a used
    exact ⟨k', value, (kept k').trans stored, here⟩
  · intro a registered
    obtain ⟨k', value, stored, here⟩ := owned.region a registered
    exact ⟨k', value, (kept k').trans stored, here⟩

/-- What a record releases is given back. -/
theorem Heap.release_old (heap : Heap find mem) {value : Value}
    (old : (find k).bind Item.value = some value) :
    (mem'.release (some value)).block value.value = none ∧
      (value.isLarge = true → (mem'.release (some value)).region value.value = none) := by
  cases large : value.isLarge with
  | false => simp [Mem.release, large, Mem.free]
  | true =>
      obtain ⟨rkey, mr⟩ := heap.old_own value old large
      simp [Mem.release, large, mr, Mem.free, Mem.dereg]

/-- What is left in use after a release was in use before. -/
theorem Mem.release_le (mem : Mem) (old : Option Value) :
    ((mem.release old).block a ≠ none → mem.block a ≠ none) ∧
      ((mem.release old).region a ≠ none → mem.region a ≠ none) := by
  cases old with
  | none => exact ⟨id, id⟩
  | some value =>
      simp only [Mem.release]
      split
      · cases value.mr <;> simp [Mem.free, Mem.dereg, Function.update_apply]
      · simp [Mem.free, Function.update_apply]

/-- A record gets a value in new memory, or none, and its old value is released. -/
theorem Owned.replace (owned : Owned find mem) (heap : Heap find mem)
    (block : ∀ a, mem'.block a ≠ none → mem.block a ≠ none ∨
      ∃ value, item.value = some value ∧ value.value = a)
    (region : ∀ a, mem'.region a ≠ none → mem.region a ≠ none ∨
      ∃ value, item.value = some value ∧ value.value = a ∧ value.isLarge = true) :
    Owned (Function.update find k (some item)) (mem'.release ((find k).bind Item.value)) := by
  constructor
  · intro a used
    rcases block a ((Mem.release_le mem' _).1 used) with before | ⟨value, given, here⟩
    · obtain ⟨k', value, stored, here⟩ := owned.block a before
      rcases eq_or_ne k' k with rfl | other
      · -- the old value is gone
        rw [stored, ← here] at used
        exact absurd (heap.release_old stored).1 used
      · exact ⟨k', value, by rw [Function.update_of_ne other]; exact stored, here⟩
    · exact ⟨k, value, by rw [Function.update_self]; exact given, here⟩
  · intro a registered
    rcases region a ((Mem.release_le mem' _).2 registered) with before | ⟨value, given, here, large⟩
    · obtain ⟨k', value, stored, here, large⟩ := owned.region a before
      rcases eq_or_ne k' k with rfl | other
      · rw [stored, ← here] at registered
        exact absurd ((heap.release_old stored).2 large) registered
      · exact ⟨k', value, by rw [Function.update_of_ne other]; exact stored, here, large⟩
    · exact ⟨k, value, by rw [Function.update_self]; exact given, here, large⟩

/-- An RDMA write neither allocates nor registers. -/
theorem Owned.rdmaWrite (owned : Owned find mem) (data : Bytes) :
    Owned find (mem.rdmaWrite addr rkey data) := by
  constructor
  · intro a used
    apply owned.block
    rcases eq_or_ne a addr with rfl | other
    · intro free
      apply used
      unfold Mem.rdmaWrite
      split
      next block => rw [free] at block; cases block
      next => exact free
    · rwa [Mem.rdmaWrite_of_ne other] at used
  · intro a registered
    rw [Mem.rdmaWrite_region] at registered
    exact owned.region a registered

end Owned

section Requests

variable {w w' : World N} {c : Fin N} {r : Request} {addr : UInt64} {rkey : UInt32}

theorem World.Becomes.keeps {key : Bytes} {item item' : Item N}
    {replies : List (Fin N × Reply)} (becomes : w.Becomes w' key item' w.mem replies)
    (owned : Owned w.db.find w.mem) (found : w.db.find key = some item)
    (same : item'.value = item.value) : Owned w'.db.find w'.mem := by
  rw [becomes.find, becomes.mem]
  apply owned.keep
  rw [found, same, Option.bind_some]

/-- Handling a request leaves no memory behind. -/
theorem Effect.owned (effect : Effect addr rkey w c r w') (owned : Owned w.db.find w.mem)
    (heap : Heap w.db.find w.mem) : Owned w'.db.find w'.mem := by
  cases effect with
  | grantSet valid becomes =>
      rw [becomes.find, becomes.mem, record_value]
      exact owned.replace heap (fun _ used => .inl used) fun _ registered => .inl registered
  | setEager becomes =>
      rw [becomes.find, becomes.mem, record_value]
      refine owned.replace heap (fun a used => ?_) fun _ registered => .inl registered
      rcases eq_or_ne a addr with rfl | other
      · exact .inr ⟨_, Item.woken_value _, rfl⟩
      · simp only [Mem.alloc, Function.update_of_ne other] at used
        exact .inl used
  | setRendezvous becomes =>
      rw [becomes.find, becomes.mem, record_value]
      refine owned.replace heap (fun a used => ?_) fun a registered => ?_
      · rcases eq_or_ne a addr with rfl | other
        · exact .inr ⟨_, rfl, rfl⟩
        · simp only [Mem.alloc, Mem.register, Function.update_of_ne other] at used
          exact .inl used
      · rcases eq_or_ne a addr with rfl | other
        · exact .inr ⟨_, rfl, rfl, rfl⟩
        · simp only [Mem.alloc, Mem.register, Function.update_of_ne other] at registered
          exact .inl registered
  | deferSet found invalid becomes => exact becomes.keeps owned found rfl
  | setFin found becomes => exact becomes.keeps owned found (Item.woken_value _)
  | grantGet valid => exact owned
  | deferGet found locked becomes => exact becomes.keeps owned found rfl
  | lose absent => exact owned
  | getEager found stored small block becomes =>
      exact becomes.keeps owned found (Item.woken_value _)
  | getRendezvous found stored large registered becomes => exact becomes.keeps owned found rfl
  | getFin found becomes => exact becomes.keeps owned found (Item.woken_value _)

end Requests

section Runs

variable {sent : List (Fin N × Reply)} {db : Database N} {mem : Mem}

theorem reliable_heap_owned (run : (store N).Run reliably sent (db, mem)) :
    Heap db.find mem ∧ Owned db.find mem := by
  refine run.invariant (fun _ state => Heap state.1.find state.2 ∧ Owned state.1.find state.2) ?_ ?_
  · exact ⟨⟨fun _ _ _ found => (by cases found), fun _ _ _ _ _ _ found => (by cases found)⟩,
      fun _ used => absurd rfl used, fun _ registered => absurd rfl registered⟩
  · intro sent ⟨db, mem⟩ action ⟨db', mem'⟩ replies _ ⟨heap, owned⟩ met next
    cases action with
    | request env buf c =>
        obtain ⟨addr, rkey, rfl, free⟩ := met
        obtain ⟨ret, w, served, rfl⟩ := store_request next
        rcases parseData_cases served with ⟨-, -, same⟩ | ⟨r, -, handled⟩
        · cases same
          exact ⟨heap, owned⟩
        · exact ⟨heap.handle (w := ⟨db, mem, []⟩) (Env.fits_reliable free rkey) handled,
            (handle_effect addr rkey handled).owned owned heap⟩
    | rdmaWrite addr rkey data =>
        cases next
        exact ⟨heap.rdmaWrite data, owned.rdmaWrite data⟩

/-- Nothing leaks while nothing fails. Whatever texts the clients send and whatever they write by
RDMA, the memory that the server has allocated for values is exactly that of the values of its
records, and what it has registered exactly that of the large ones. -/
theorem owned_of_run (run : (store N).Run reliably sent (db, mem)) (a : UInt64) :
    (mem.block a ≠ none ↔
      ∃ k value, (db.find k).bind Item.value = some value ∧ value.value = a) ∧
    (mem.region a ≠ none ↔
      ∃ k value, (db.find k).bind Item.value = some value ∧ value.value = a ∧
        value.isLarge = true) := by
  obtain ⟨heap, owned⟩ := reliable_heap_owned run
  refine ⟨⟨owned.block a, ?_⟩, ⟨owned.region a, ?_⟩⟩
  · intro ⟨k, value, stored, here⟩
    rw [← here]
    exact (heap.held_old stored).inUse
  · intro ⟨k, value, stored, here, large⟩
    obtain ⟨rkey, n, body, -, -, registered, -⟩ := (heap.held_old stored).large large
    rw [← here, registered]
    exact Option.some_ne_none _

end Runs

/-- An `se` whose value gets the memory at `addr`. -/
def storeAt (addr : UInt64) : StoreAction numClients :=
  .request (.reliable numClients addr 0) (onWire (flagKeyText .se keyK.bytes valueV.bytes)) 0

theorem reliably_storeAt {sent : List (Fin numClients × Reply)} {db : Database numClients}
    {mem : Mem} (addr : UInt64) (free : mem.block addr = none) :
    reliably sent (db, mem) (storeAt addr) := ⟨addr, 0, rfl, free⟩

/-- After two sets of one key only the second value is left. -/
theorem owned_of_run_twice : ∃ sent, ∃ db : Database numClients, ∃ mem,
    (store numClients).Run reliably sent (db, mem) ∧ mem.block 0 = none ∧
      ∃ k value, (db.find k).bind Item.value = some value ∧ value.value = 1 := by
  have run : (store numClients).Run reliably _ _ :=
    .step .init (reliably_storeAt 0 rfl) rfl
  have run : (store numClients).Run reliably _ _ :=
    .step run (reliably_storeAt 1 rfl) rfl
  exact ⟨_, _, _, run, rfl, (owned_of_run run 1).1.mp (Option.some_ne_none _)⟩

end RdmaWiki
