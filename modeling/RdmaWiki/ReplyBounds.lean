import RdmaWiki.Store

/-!
The texts that the server formats, and the 4 KB they have.

A request is cut from a text of at most 4095 characters, so its key and its value leave room
for what the server puts around them. `Bounded` says of the records that their keys and their
small values are cut so; it holds in every state of the store, because small values are never
registered and no RDMA write reaches them. So every reply fits (`replies_fit`).
-/

namespace RdmaWiki

open CText StepMachine

variable {N : ℕ}

/-! ## What a request carries -/

/-- A value as a request carries it. -/
structure Carried (body : Bytes) : Prop where
  noNul : (0 : UInt8) ∉ body
  noColon : colon ∉ body
  short : body.length + 3 ≤ bufSize

/-- What a request in a buffer carries is cut from its text. -/
structure Request.Short (r : Request) : Prop where
  key : r.key.length + 1 ≤ 4 * KB
  value : ∀ key value, r = .setEager key value → Carried value

theorem InBuffer.request {buf : Bytes} {r : Request} (inBuffer : InBuffer buf)
    (parsed : parseRequest buf = .request r) : r.Short := by
  obtain ⟨terminated, within⟩ := inBuffer
  have room := length_text_lt terminated
  have page : 4 * KB = 4096 := rfl
  have size : bufSize = 4096 := rfl
  unfold parseRequest at parsed
  split at parsed
  next => cases parsed
  next flagToken rest scan =>
    have cut := strtok_length scan
    split at parsed
    next => cases parsed
    next two =>
      split at parsed
      next => cases parsed
      next flag _ =>
        split at parsed
        next => cases parsed
        next key rest' keyScan =>
          have keyCut := strtok_length keyScan
          split at parsed
          next => cases parsed
          next =>
            cases flag with
            | as | fs | ag | g0 | fg =>
                cases parsed
                exact ⟨by simp only [Request.key]; omega, fun _ _ same => by cases same⟩
            | sr =>
                simp only [parseRest] at parsed
                split at parsed
                next => cases parsed
                next =>
                  cases parsed
                  exact ⟨by simp only [Request.key]; omega, fun _ _ same => by cases same⟩
            | se =>
                simp only [parseRest] at parsed
                split at parsed
                next => cases parsed
                next value rest'' valueScan =>
                  have valueCut := strtok_length valueScan
                  cases parsed
                  refine ⟨by simp only [Request.key]; omega, fun key' value' same => ?_⟩
                  cases same
                  have inText (x : UInt8) (member : x ∈ value) : x ∈ text buf :=
                    strtok_rest_subset scan
                      (strtok_rest_subset keyScan (strtok_subset valueScan member))
                  exact ⟨fun member => text_noNul buf (inText 0 member), (strtok_token valueScan).2,
                    by omega⟩

/-! ## What the records hold -/

/-- A small value is a carried one with its NUL, in memory that is not registered. -/
structure Value.SmallIn (value : Value) (mem : Mem) : Prop where
  block : ∃ body, mem.block value.value = some (body ++ [0]) ∧ Carried body ∧
    value.size = body.length
  mr : value.mr = none
  region : mem.region value.value = none

/-- A value in its bounds. -/
structure Value.Within (value : Value) (mem : Mem) : Prop where
  small : value.isLarge = false → value.SmallIn mem
  large : value.isLarge = true → 0 ≤ value.size ∧ value.size < 2 ^ 31

/-- The records and the heap in their bounds. -/
structure Bounded (db : Database N) (mem : Mem) : Prop where
  key : ∀ k, db.find k ≠ none → k.length + 1 ≤ 4 * KB
  value : ∀ k value, (db.find k).bind Item.value = some value → value.Within mem
  unused : ∀ a, mem.block a = none → mem.region a = none

section Bounded

variable {db : Database N} {mem mem' : Mem} {env : Env N} {w w' : World N} {value : Value}
  {r : Request} {c : Fin N} {ret : Ret}

theorem Value.Within.of_same (within : value.Within mem)
    (block : mem'.block value.value = mem.block value.value)
    (region : mem'.region value.value = mem.region value.value) : value.Within mem' where
  small small := by
    obtain ⟨⟨body, held, carried, size⟩, mr, unregistered⟩ := within.small small
    exact ⟨⟨body, block.trans held, carried, size⟩, mr, region.trans unregistered⟩
  large := within.large

theorem Bounded.quiet (k : Bytes) : Quiet k fun w : World N => Bounded w.db w.mem where
  update bounded keeps := by
    refine ⟨fun key found => bounded.key key fun absent => found ?_, fun key value has => ?_,
      bounded.unused⟩
    · exact (Database.find_update_eq_none k key fun item => (keeps item).1).mpr absent
    · rw [Database.value_update k key keeps] at has
      exact bounded.value key value has
  send _ bounded := bounded

/-- A request gets new memory. -/
theorem Bounded.grow (bounded : Bounded db mem) (heap : Heap db.find mem) (fits : env.Fits mem)
    (grown : mem.GrownBy env mem') : Bounded db mem' where
  key := bounded.key
  value k value has := by
    obtain ⟨block, region⟩ := fits.elsewhere grown value.value (heap.held_old has).inUse
    exact (bounded.value k value has).of_same block region
  unused a free := by
    obtain ⟨block, region⟩ := grown a fun _ => free
    exact region.trans (bounded.unused a (block.symm.trans free))

/-- Memory that is freed is not registered any more. -/
theorem Mem.release_unused {old : Option Value}
    (unused : ∀ a, mem.block a = none → mem.region a = none)
    (own : ∀ value, old = some value → value.isLarge = true →
      ∃ rkey, value.mr = some ⟨rkey, value.value⟩)
    (small : ∀ value, old = some value → value.isLarge = false →
      mem.region value.value = none) (a : UInt64) :
    (mem.release old).block a = none → (mem.release old).region a = none := by
  cases old with
  | none => exact unused a
  | some value =>
      rcases eq_or_ne a value.value with rfl | other
      · intro _
        simp only [Mem.release]
        cases large : value.isLarge with
        | false => simpa [Mem.free] using small value rfl large
        | true =>
            obtain ⟨rkey, mr⟩ := own value rfl large
            simp [Mem.free, Mem.dereg, mr]
      · obtain ⟨block, region⟩ := Mem.release_elsewhere mem a own fun value' same => by
          cases same
          exact other
        rw [block, region]
        exact unused a

/-- A request stores a value in its bounds, in new memory. -/
theorem Request.Stores.within {given : Option Value} (short : r.Short) (bounded : Bounded w.db w.mem)
    (fits : env.Fits w.mem) (stores : r.Stores env w given mem) (same : given = some value) :
    value.Within mem := by
  cases stores with
  | ask key free => cases same
  | @eager key text addr returned =>
      cases same
      refine ⟨fun _ => ⟨⟨text, ?_, short.value key text rfl, rfl⟩, rfl, ?_⟩,
        fun large => (by cases large)⟩
      · simp [Mem.alloc]
      · exact bounded.unused addr (fits.fresh addr returned)
  | rendezvous key small returned registered =>
      cases same
      refine ⟨fun small => (by cases small), fun _ => ⟨Int.natCast_nonneg _, ?_⟩⟩
      unfold intMax at small
      simp only
      omega

/-- `set_item` with the value of a request. -/
theorem Bounded.setItem {given : Option Value} (bounded : Bounded w.db w.mem)
    (heap : Heap w.db.find w.mem) (fits : env.Fits w.mem) (short : r.Short)
    (stores : r.Stores env w given mem) :
    Bounded (w.db.setItem env mem r.key given).2.1 (w.db.setItem env mem r.key given).2.2 := by
  have grown := bounded.grow heap fits stores.grown
  have others := fits.elsewhere stores.grown
  cases failed : w.db.setItemFails env r.key with
  | true =>
      rw [setItem_fails failed]
      exact grown
  | false =>
      obtain ⟨db', stored, find⟩ := setItem_succeeds failed mem given
      rw [stored, recordOr_value]
      constructor
      · intro k found
        rcases eq_or_ne k r.key with rfl | other
        · exact short.key
        · rw [find, Function.update_of_ne other] at found
          exact bounded.key k found
      · intro k value has
        rcases eq_or_ne k r.key with rfl | other
        · rw [find, Function.update_self, Option.bind_some] at has
          have free := (stores.held fits value has).2
          obtain ⟨block, region⟩ := heap.release_fresh (k := r.key) mem free
          exact (stores.within short bounded fits has).of_same block region
        · rw [find, Function.update_of_ne other] at has
          obtain ⟨item, found, has'⟩ := Option.bind_eq_some_iff.mp has
          obtain ⟨block, region⟩ := heap.release_other others other found has'
          exact (bounded.value k value has).of_same block region
      · refine Mem.release_unused grown.unused heap.old_own fun value old small => ?_
        exact ((grown.value r.key value old).small small).region

/-- No RDMA write reaches a small value. -/
theorem Bounded.rdmaWrite (bounded : Bounded db mem) (addr : UInt64) (rkey : UInt32)
    (data : Bytes) : Bounded db (mem.rdmaWrite addr rkey data) where
  key := bounded.key
  value k value has := by
    have within := bounded.value k value has
    refine ⟨fun small => ?_, within.large⟩
    have unregistered := (within.small small).region
    have region : (mem.rdmaWrite addr rkey data).region value.value = mem.region value.value :=
      congrFun (Mem.rdmaWrite_region data) value.value
    have block : (mem.rdmaWrite addr rkey data).block value.value = mem.block value.value := by
      rcases eq_or_ne value.value addr with rfl | other
      · simp only [Mem.rdmaWrite, unregistered]
      · exact Mem.rdmaWrite_of_ne other data
    exact (within.of_same block region).small small
  unused a free := by
    rw [Mem.rdmaWrite_region]
    apply bounded.unused
    rcases eq_or_ne a addr with rfl | other
    · unfold Mem.rdmaWrite at free
      split at free
      next =>
        split at free
        next => simp at free
        next => exact free
      next => exact free
    · rw [Mem.rdmaWrite_of_ne other] at free
      exact free

/-! ## The replies -/

/-- A decimal number of at most `k` digits. -/
theorem length_decimal_le {n k : ℕ} (positive : 0 < k) (small : n < 10 ^ k) :
    (decimal n).length ≤ k := (length_decimal_le_iff positive).mpr small

/-- A descriptor has two numbers, of 32 and of 64 bits. -/
theorem region_fits (rkey : UInt32) (addr : UInt64) :
    (Reply.region rkey addr).bytes.length ≤ bufSize := by
  have first : (decimal rkey.toNat).length ≤ 10 :=
    length_decimal_le (by decide) (lt_trans rkey.toNat_lt (by decide))
  have second : (decimal addr.toNat).length ≤ 20 :=
    length_decimal_le (by decide) (lt_trans addr.toNat_lt (by decide))
  have room : bufSize = 4096 := rfl
  simp only [Reply.bytes, List.length_append, List.length_cons, List.length_nil]
  omega

theorem size_fits {n : Int} (bounds : 0 ≤ n ∧ n < 2 ^ 31) :
    (Reply.size n).bytes.length ≤ bufSize := by
  have digits : (decimal n.toNat).length ≤ 10 := length_decimal_le (by decide) (by omega)
  have room : bufSize = 4096 := rfl
  have flag : (ascii ['r', ':']).length = 2 := rfl
  simp only [Reply.bytes, decimalInt, if_neg (Int.not_lt.mpr bounds.1), List.length_append,
    List.length_cons, List.length_nil]
  omega

theorem eager_fits {body : Bytes} (carried : Carried body) :
    (Reply.eager body).bytes.length ≤ bufSize := by
  have short := carried.short
  have flag : (ascii ['e', ':']).length = 2 := rfl
  simp only [Reply.bytes, List.length_append, List.length_cons, List.length_nil]
  omega

/-- Every text that a request makes the server format fits. -/
theorem Bounded.texts_fit (bounded : Bounded w.db w.mem) {reply : Reply}
    (formatted : reply ∈ r.texts env w) : reply.bytes.length ≤ bufSize := by
  unfold Request.texts at formatted
  split at formatted
  next =>
    split at formatted
    next => cases formatted
    next =>
      split at formatted
      next =>
        rw [List.mem_singleton.mp formatted]
        exact region_fits _ _
      next => cases formatted
  next key =>
    split at formatted
    next => cases formatted
    next value has =>
      have within := bounded.value key value has
      split at formatted
      next small =>
        obtain ⟨⟨body, block, carried, -⟩, -⟩ := within.small small
        rw [block, Option.map_some, Option.toList_some, List.mem_singleton,
          text_append_nul carried.noNul] at formatted
        rw [formatted]
        exact eager_fits carried
      next large =>
        rcases List.mem_cons.mp formatted with rfl | second
        · exact size_fits (within.large (Bool.eq_true_of_not_eq_false large))
        · split at second
          next =>
            obtain ⟨mr, -, rfl⟩ := Option.map_eq_some_iff.mp (Option.mem_toList.mp second)
            exact region_fits _ _
          next => cases second
  all_goals cases formatted

/-- A request keeps the bounds, whatever fails, and all that is sent fits. -/
theorem Bounded.handle (bounded : Bounded w.db w.mem) (heap : Heap w.db.find w.mem)
    (fits : env.Fits w.mem) (short : r.Short)
    (fitted : ∀ message ∈ w.sent, message.2.bytes.length ≤ bufSize)
    (handled : handle env w c r = some (ret, w')) :
    Bounded w'.db w'.mem ∧ ∀ message ∈ w'.sent, message.2.bytes.length ≤ bufSize := by
  have quiet := Bounded.quiet (N := N) r.key
  have more {sent : List (Fin N × Reply)} {reply : Reply}
      (all : ∀ message ∈ sent, message.2.bytes.length ≤ bufSize)
      (fit : reply.bytes.length ≤ bufSize) (c : Fin N) :
      ∀ message ∈ sent ++ [(c, reply)], message.2.bytes.length ≤ bufSize := by
    intro message member
    rcases List.mem_append.mp member with earlier | last
    · exact all message earlier
    · rw [List.mem_singleton.mp last]
      exact fit
  refine handle_rule (P := fun w => Bounded w.db w.mem ∧
    ∀ message ∈ w.sent, message.2.bytes.length ≤ bufSize) ⟨?_, ?_⟩ ?_ ?_ ?_ ⟨bounded, fitted⟩ handled
  · exact fun ⟨bounded, all⟩ keeps => ⟨quiet.update bounded keeps, all⟩
  · rintro w c reply (rfl | rfl) ⟨bounded, all⟩
    · exact ⟨bounded, more all (by decide) c⟩
    · exact ⟨bounded, more all (by decide) c⟩
  · rintro w' reply formatted ⟨bounded', all⟩
    exact ⟨bounded', more all (bounded.texts_fit formatted) c⟩
  · exact fun mem grown => ⟨bounded.grow heap fits grown, fitted⟩
  · exact fun value mem sent stores ⟨_, all⟩ => ⟨bounded.setItem heap fits short stores, all⟩

end Bounded

/-- The bounds hold in every state of the store, and all that was sent fits. -/
theorem bounded_of_run {sent : List (Fin N × Reply)} {db : Database N} {mem : Mem}
    (run : (store N).Run fitting sent (db, mem)) :
    Bounded db mem ∧ ∀ message ∈ sent, message.2.bytes.length ≤ bufSize := by
  refine run.invariant (fun sent state => Bounded state.1 state.2 ∧
    ∀ message ∈ sent, message.2.bytes.length ≤ bufSize) ?_ ?_
  · exact ⟨⟨fun _ found => absurd rfl found, fun _ _ has => (by cases has), fun _ _ => rfl⟩,
      fun _ member => (by cases member)⟩
  · rintro sent ⟨db, mem⟩ action ⟨db', mem'⟩ replies before ⟨bounded, all⟩ met next
    have heap := store_heap before
    cases action with
    | request env buf c =>
        obtain ⟨fits, inBuffer⟩ := met
        obtain ⟨ret, w, served, rfl⟩ := store_request next
        have kept : Bounded db' mem' ∧
            ∀ message ∈ replies, message.2.bytes.length ≤ bufSize := by
          rcases parseData_cases served with ⟨-, -, same⟩ | ⟨r, parsed, handled⟩
          · cases same
            exact ⟨bounded, fun _ member => (by cases member)⟩
          · exact Bounded.handle (w := ⟨db, mem, []⟩) bounded heap fits (inBuffer.request parsed)
              (fun _ member => (by cases member)) handled
        refine ⟨kept.1, fun message member => ?_⟩
        rcases List.mem_append.mp member with earlier | now
        · exact all message earlier
        · exact kept.2 message now
    | rdmaWrite addr rkey data =>
        cases next
        rw [List.append_nil]
        exact ⟨bounded.rdmaWrite addr rkey data, all⟩

/-- In every state that requests in the buffers lead to, whatever they say and whatever fails:
the keys fit their array, the small values are as long as they say, have no `':'` and no region,
all that was sent fits the buffer, and so does all that the next request makes the server
format, whose key fits, too. -/
theorem replies_fit {sent : List (Fin N × Reply)} {db : Database N} {mem : Mem}
    (run : (store N).Run fitting sent (db, mem)) :
    (∀ item ∈ db, item.key.length + 1 ≤ 4 * KB) ∧
    (∀ item ∈ db, ∀ value, item.value = some value → value.isLarge = false →
      ∃ body, mem.block value.value = some (body ++ [0]) ∧ (0 : UInt8) ∉ body ∧
        value.size = body.length ∧ colon ∉ body ∧ value.mr = none) ∧
    (∀ message ∈ sent, message.2.bytes.length ≤ bufSize) ∧
    ∀ env buf r, env.Fits mem → InBuffer buf → parseRequest buf = .request r →
      r.key.length + 1 ≤ 4 * KB ∧
      ∀ reply ∈ r.texts env ⟨db, mem, []⟩, reply.bytes.length ≤ bufSize := by
  obtain ⟨bounded, all⟩ := bounded_of_run run
  have distinct := store_distinct run
  refine ⟨?_, ?_, all, ?_⟩
  · intro item member
    apply bounded.key
    rw [distinct.find_of_mem member]
    exact Option.some_ne_none item
  · intro item member value has small
    have stored : (db.find item.key).bind Item.value = some value := by
      rw [distinct.find_of_mem member, Option.bind_some, has]
    obtain ⟨⟨body, block, carried, size⟩, mr, -⟩ := (bounded.value _ value stored).small small
    exact ⟨body, block, carried.noNul, size, carried.noColon, mr⟩
  · intro env buf r fits inBuffer parsed
    exact ⟨(inBuffer.request parsed).key, fun reply formatted =>
      Bounded.texts_fit (w := ⟨db, mem, []⟩) bounded formatted⟩

/-- After the set of the value `v`. -/
theorem replies_fit_after_set : ∃ sent, ∃ db : Database numClients, ∃ mem,
    (store numClients).Run fitting sent (db, mem) ∧ sent = [(0, .ack)] ∧ db ≠ [] ∧
      ∀ message ∈ sent, message.2.bytes.length ≤ bufSize := by
  have fits : (Env.reliable numClients 0 0).Fits ⟨fun _ => none, fun _ => none⟩ :=
    Env.fits_reliable rfl 0
  have met : fitting [] (store numClients).init (.request (.reliable numClients 0 0)
      (onWire (flagKeyText .se keyK.bytes valueV.bytes)) 0) := ⟨fits, by decide⟩
  have run : (store numClients).Run fitting _ _ := .step .init met rfl
  exact ⟨_, _, _, run, rfl, List.cons_ne_nil _ _, (replies_fit run).2.2.1⟩

end RdmaWiki
