import RdmaWiki.TextBounds

/-!
The way of a large value to the server and back.

The length of the value goes through a text of at most nine digits, `atoi`, `malloc`, a field
of the record, a text again, `sscanf` and `malloc` at the client that gets it. Below a billion
bytes each of these gives it back, so the server registers exactly the bytes of the value, the
client writes exactly these, and while nobody stores another value there every get reads
exactly these (`moved_whole_iff`). The text of a billion leaves its buffer
(`billion_length_overflows`).
-/

namespace RdmaWiki

open CText StepMachine LibraryCalls

variable {N : ℕ}

/-! ## What the client does -/

namespace Api

/-- A set of a large value is refused, or writes the whole value where the descriptor says. -/
theorem kvSet_writes (patience : ℕ) (key : CString) {value : CString}
    (large : isEager value.bytes = false) :
    (kvSet patience key value).Ensures Fine fun log out => ∀ ret, out = .ok ret →
      (∃ contents, seen log = [contents]) ∨ ∃ granted described rkey addr,
        seen log = [granted, described] ∧ readRegion (text described) = some (.region rkey addr) ∧
        posted log = [.send (onWire (flagKey .as key.bytes)),
          .send (onWire (flagKeyText .sr key.bytes (sizeText value.bytes))),
          .write value.bytes rkey addr, .send (onWire (flagKey .fs key.bytes))] := by
  apply After.start
  refine after_bind did_nil (sprintf_does _) nofun fun log did => ?_
  refine after_bind did (sendDataStr_does _ _) nofun fun log did => ?_
  refine after_bind did (reply_does _) nofun fun log did => ?_
  refine after_look did fun contents log did => ?_
  split
  next => exact after_done fun _ _ => .inl ⟨contents, did.seen⟩
  next =>
    rw [large, if_neg Bool.false_ne_true]
    refine after_ensures (clientSetRendezvous_does patience key value) nofun fun log' ret does => ?_
    obtain ⟨rfl, described, rkey, addr, region, did'⟩ := does ret rfl
    refine after_bind (did.append did') (reply_does _) nofun fun log did => ?_
    exact after_done fun _ _ => .inr ⟨contents, described, rkey, addr, did.seen, region, did.posted⟩

/-- A get that looks twice has read where the descriptor says, into a buffer of its own. -/
theorem kvGet_reads (patience : ℕ) (key : CString) :
    (kvGet patience key).Ensures Fine fun log out => ∀ ret got, out = .ok (ret, got) →
      ∀ sized described, seen log = [sized, described] →
      ∃ (size : Int) (rkey : UInt32) (addr : UInt64) (bytes : Bytes),
        sized.head? ≠ some 'e'.toUInt8 ∧ readSize (text sized) = some (.size size) ∧
        readRegion (text described) = some (.region rkey addr) ∧
        posted log = [.send (onWire (flagKey .ag key.bytes)),
          .send (onWire (flagKey .g0 key.bytes)), .read size.toNat rkey addr,
          .send (onWire (flagKey .fg key.bytes))] ∧
        ⟨.malloc .value ((size + 1) % 2 ^ 64).toNat, true⟩ ∈ log ∧
        ⟨.valueBuf size.toNat, bytes⟩ ∈ log ∧ ret = .exitSuccess ∧
        got = some (text (bytes ++ [0])) := by
  refine (kvGet_does patience key).mono fun log out does ret got ends sized described looks => ?_
  obtain ⟨success, ⟨contents, once, -⟩ |
    ⟨sized', described', size, rkey, addr, bytes, twice, large, read, region, posts, buffer, last,
      result⟩⟩ := does ret got ends
  · rw [looks] at once
    cases once
  · rw [looks] at twice
    cases twice
    exact ⟨size, rkey, addr, bytes, large, read, region, posts, buffer, last, success, result⟩

end Api

/-! ## What the server keeps -/

/-- The record of `key` has the large value at `addr`, which is `body` and its NUL, and all of
`body` is registered. -/
structure Holds (key : Bytes) (addr : UInt64) (rkey : UInt32) (body : Bytes)
    (state : Database N × Mem) : Prop where
  record : (state.1.find key).bind Item.value =
    some ⟨addr, body.length, true, some ⟨rkey, addr⟩⟩
  block : state.2.block addr = some (body ++ [0])
  region : state.2.region addr = some (rkey, body.length)

/-- The request gives the record of `key` another value, or none. -/
def Request.Rewrites (db : Database N) (key : Bytes) : Request → Prop
  | .setAsk k => k = key ∧ db.validSet key = true
  | .setEager k _ => k = key
  | .setRendezvous k _ => k = key
  | .setFin _ | .getAsk _ | .get _ | .getFin _ => False

/-- Nobody stores another value under `key`, and nobody writes to `addr`. -/
def sparing (key : Bytes) (addr : UInt64) : Guard (Database N × Mem) (StoreAction N)
    (Fin N × Reply)
  | trace, (db, mem), .request env buf c => fitting trace (db, mem) (.request env buf c) ∧
    ∀ r, parseRequest buf = .request r → ¬ r.Rewrites db key
  | _, _, .rdmaWrite a _ _ => a ≠ addr

section Holds

variable {key body : Bytes} {addr : UInt64} {rkey : UInt32} {db : Database N} {mem : Mem}
  {env : Env N} {w w' : World N} {c : Fin N} {ret : Ret}

theorem Holds.quiet (key : Bytes) (addr : UInt64) (rkey : UInt32) (body k : Bytes) :
    Quiet k fun w : World N => Holds key addr rkey body (w.db, w.mem) where
  update holds keeps := ⟨(Database.value_update _ _ keeps).trans holds.record, holds.block,
    holds.region⟩
  send _ holds := holds

/-- Memory changes elsewhere. -/
theorem Holds.elsewhere {mem' : Mem} (holds : Holds key addr rkey body (db, mem))
    (same : mem'.block addr = mem.block addr ∧ mem'.region addr = mem.region addr) :
    Holds key addr rkey body (db, mem') :=
  ⟨holds.record, same.1.trans holds.block, same.2.trans holds.region⟩

theorem Holds.inUse (holds : Holds key addr rkey body (db, mem)) : mem.block addr ≠ none := by
  rw [holds.block]
  exact Option.some_ne_none _

/-- `set_item` for another key. -/
theorem Holds.setItem {mem' : Mem} {k : Bytes} (holds : Holds key addr rkey body (db, mem))
    (heap : Heap db.find mem) (env : Env N) (value : Option Value) (other : key ≠ k)
    (others : ∀ a, mem.block a ≠ none → mem'.block a = mem.block a ∧
      mem'.region a = mem.region a) :
    Holds key addr rkey body
      ((db.setItem env mem' k value).2.1, (db.setItem env mem' k value).2.2) := by
  cases failed : db.setItemFails env k with
  | true =>
      rw [setItem_fails failed]
      exact holds.elsewhere (others addr holds.inUse)
  | false =>
      obtain ⟨db', stored, find⟩ := setItem_succeeds failed mem' value
      obtain ⟨item, found, has⟩ := Option.bind_eq_some_iff.mp holds.record
      have record : (db'.find key).bind Item.value = (db.find key).bind Item.value := by
        rw [find, Function.update_of_ne other]
      have released := heap.release_other others other found has
      rw [stored, recordOr_value]
      exact ⟨record.trans holds.record, released.1.trans holds.block,
        released.2.trans holds.region⟩

/-- A handler keeps a large value, whatever fails, if its request does not rewrite it. -/
theorem Holds.handle {r : Request} (holds : Holds key addr rkey body (w.db, w.mem))
    (heap : Heap w.db.find w.mem) (fits : env.Fits w.mem) (keeps : ¬ r.Rewrites w.db key)
    (handled : handle env w c r = some (ret, w')) :
    Holds key addr rkey body (w'.db, w'.mem) := by
  have quiet := Holds.quiet (N := N) key addr rkey body r.key
  refine handle_rule (P := fun w => Holds key addr rkey body (w.db, w.mem)) quiet.answers
    (fun _ holds => quiet.send _ holds) ?_ ?_ holds handled
  · intro mem grown
    exact holds.elsewhere (fits.elsewhere grown addr holds.inUse)
  · intro value mem sent stores _
    have other : key ≠ r.key := by
      rintro rfl
      apply keeps
      cases stores with
      | ask key free => exact ⟨rfl, free⟩
      | eager key value given => rfl
      | rendezvous key bounded given registered => rfl
    exact holds.setItem heap env value other (fits.elsewhere stores.grown)

/-- A large value is kept for as long as it is spared. -/
theorem holds_of_run {sent : List (Fin N × Reply)} {start state : Database N × Mem}
    (heap : Heap start.1.find start.2) (holds : Holds key addr rkey body start)
    (run : ((store N).resume start).Run (sparing key addr) sent state) :
    Heap state.1.find state.2 ∧ Holds key addr rkey body state := by
  refine run.resumed (fun state => Heap state.1.find state.2 ∧ Holds key addr rkey body state)
    ⟨heap, holds⟩ ?_
  rintro sent ⟨db, mem⟩ action ⟨db', mem'⟩ replies ⟨heap, holds⟩ met next
  cases action with
  | request env buf c =>
      obtain ⟨⟨fits, -⟩, keeps⟩ := met
      obtain ⟨ret, w, served, rfl⟩ := store_request next
      rcases parseData_cases served with ⟨-, -, same⟩ | ⟨r, parsed, handled⟩
      · cases same
        exact ⟨heap, holds⟩
      · exact ⟨heap.handle (w := ⟨db, mem, []⟩) fits handled,
          holds.handle (w := ⟨db, mem, []⟩) heap fits (keeps r parsed) handled⟩
  | rdmaWrite a key' data =>
      have other : addr ≠ a := fun same => met same.symm
      cases next
      exact ⟨heap.rdmaWrite data, holds.elsewhere
        ⟨Mem.rdmaWrite_of_ne other data, congrFun (Mem.rdmaWrite_region data) addr⟩⟩

/-- A get of a large value is answered with its size and its descriptor. -/
theorem Holds.get (holds : Holds key addr rkey body (db, mem)) (first : env.Delivers 0)
    (second : env.Delivers 1) (c : Fin N) :
    ∃ db', RdmaWiki.handle env ⟨db, mem, []⟩ c (.get key) = some (.exitSuccess,
      ⟨db', mem, [(c, .size body.length), (c, .region rkey addr)]⟩) := by
  obtain ⟨item, found, has⟩ := Option.bind_eq_some_iff.mp holds.record
  refine ⟨(db.update key fun item => { item with numInGet := item.numInGet + 1 }).2, ?_⟩
  simp [RdmaWiki.handle, parseDataG0, Database.getValue, found, has, serverGetRendezvous,
    sendDataStr, first.1, first.2, second.1, second.2]

/-- An RDMA read of the whole region gives the value. -/
theorem Holds.read (holds : Holds key addr rkey body (db, mem)) :
    mem.rdmaRead addr rkey body.length = body := by
  have region : mem.region addr = some (rkey, body.length) := holds.region
  have block : mem.block addr = some (body ++ [0]) := holds.block
  simp only [Mem.rdmaRead, region, block]
  rw [if_pos ⟨True.intro, le_refl _⟩, List.take_left]

/-- An RDMA write of the whole region replaces the value. -/
theorem Holds.write {data : Bytes} (holds : Holds key addr rkey body (db, mem))
    (length : data.length = body.length) :
    Holds key addr rkey data (db, mem.rdmaWrite addr rkey data) := by
  have region : mem.region addr = some (rkey, body.length) := holds.region
  have block : mem.block addr = some (body ++ [0]) := holds.block
  refine ⟨?_, ?_, ?_⟩
  · rw [length]
    exact holds.record
  · simp only [Mem.rdmaWrite, region, block]
    rw [if_pos ⟨True.intro, length.le⟩, length, List.drop_left]
    exact Function.update_self ..
  · rw [length, ← region]
    exact congrFun (Mem.rdmaWrite_region data) addr

/-- What the server needs to take a large value: memory, which is registered, and the one
message. -/
structure Env.Takes (env : Env N) (db : Database N) (mem : Mem) (key : Bytes) (addr : UInt64)
    (rkey : UInt32) : Prop where
  fits : env.Fits mem
  given : env.mallocBytes = some addr
  registered : env.regMr = some rkey
  value : env.mallocValue = true
  delivers : env.Delivers 0
  stores : db.setItemFails env key = false

/-- The server registers as many bytes as it is told, and a NUL follows them. -/
theorem Env.Takes.registers (takes : env.Takes db mem key addr rkey) (heap : Heap db.find mem)
    {n : ℕ} (bounded : (n : Int) < intMax) (c : Fin N) :
    ∃ db' mem' body, RdmaWiki.handle env ⟨db, mem, []⟩ c (.setRendezvous key n) =
        some (.exitSuccess, ⟨db', mem', [(c, .region rkey addr)]⟩) ∧
      body.length = n ∧ Holds key addr rkey body (db', mem') := by
  have free := takes.fits.fresh addr takes.given
  have small : ¬ ((n : Int) < 0 ∨ intMax ≤ (n : Int)) := by omega
  have length : (env.junkBytes (n + 1)).length = n + 1 := takes.fits.bytes (n + 1)
  obtain ⟨db', stored, find⟩ := setItem_succeeds takes.stores
    ((mem.alloc addr ((env.junkBytes (n + 1)).set n 0)).register addr rkey n)
    (some ⟨addr, n, true, some ⟨rkey, addr⟩⟩)
  rw [recordOr_value] at stored
  obtain ⟨block, region⟩ := heap.release_fresh (k := key)
    ((mem.alloc addr ((env.junkBytes (n + 1)).set n 0)).register addr rkey n) free
  have last : (env.junkBytes (n + 1)).set n 0 = (env.junkBytes (n + 1)).take n ++ [0] := by
    rw [List.set_eq_take_append_cons_drop, if_pos (by omega),
      List.drop_eq_nil_of_le (by omega)]
  have taken : ((env.junkBytes (n + 1)).take n).length = n := by
    rw [List.length_take]
    omega
  refine ⟨db', ((mem.alloc addr ((env.junkBytes (n + 1)).set n 0)).register addr rkey n).release
    ((db.find key).bind Item.value), (env.junkBytes (n + 1)).take n, ?_, taken, ?_, ?_, ?_⟩
  · simp only [RdmaWiki.handle, serverSetRendezvous, if_neg small, takes.given, takes.registered,
      Int.toNat_natCast, sendDataStr, List.length_nil, takes.delivers.1, takes.delivers.2,
      takes.value, Bool.true_eq_false, if_false, List.nil_append, stored]
  · rw [find, Function.update_self, taken]
    rfl
  · rw [block, ← last]
    simp [Mem.alloc, Mem.register]
  · rw [region, taken]
    simp [Mem.register]

end Holds

/-! ## The whole way -/

/-- A large value goes to the server and back. -/
structure MovedWhole (key value : CString) : Prop where
  /-- the text of the length and its NUL fit `msg_size` -/
  printed : (sizeText value.bytes).length + 1 ≤ 10
  /-- `atoi` gives the length back -/
  parsed : atoi (sizeText value.bytes) = value.bytes.length
  /-- the server registers the bytes of the value, of which there are no more and no fewer,
  and tells the client where they are -/
  registered : ∀ N sent, ∀ db : Database N, ∀ mem, (store N).Run fitting sent (db, mem) →
    ∀ env c addr rkey, env.Takes db mem key.bytes addr rkey →
    ∃ db' mem' body, parseData env ⟨db, mem, []⟩
        (onWire (flagKeyText .sr key.bytes (sizeText value.bytes))) c =
          some (.exitSuccess, ⟨db', mem', [(c, .region rkey addr)]⟩) ∧
      body.length = value.bytes.length ∧ Holds key.bytes addr rkey body (db', mem')
  /-- the client writes the value where it is told, and the write covers the region -/
  written : ∀ patience log ret got,
    ((Call.kvSet key value).api patience).Path log (.ok (ret, got)) →
    (∀ e ∈ log, Fine e) → ∀ granted described rkey addr, seen log = [granted, described] →
    (Reply.region rkey addr).bytes <+: described →
    posted log = [.send (onWire (flagKey .as key.bytes)),
        .send (onWire (flagKeyText .sr key.bytes (sizeText value.bytes))),
        .write value.bytes rkey addr, .send (onWire (flagKey .fs key.bytes))] ∧
      ∀ N, ∀ db : Database N, ∀ mem body, body.length = value.bytes.length →
        Holds key.bytes addr rkey body (db, mem) →
        Holds key.bytes addr rkey value.bytes (db, mem.rdmaWrite addr rkey value.bytes)
  /-- for as long as the value is spared, the server tells whoever gets it its size and where
  it is -/
  told : ∀ N addr rkey before, ∀ start : Database N × Mem, (store N).Run fitting before start →
    Holds key.bytes addr rkey value.bytes start → ∀ sent db mem,
    ((store N).resume start).Run (sparing key.bytes addr) sent (db, mem) →
    ∀ env c, env.Delivers 0 → env.Delivers 1 →
    ∃ db', parseData env ⟨db, mem, []⟩ (onWire (flagKey .g0 key.bytes)) c =
      some (.exitSuccess,
        ⟨db', mem, [(c, .size value.bytes.length), (c, .region rkey addr)]⟩)
  /-- and the client that is told this reads the value into a buffer with room for it and a
  NUL, and returns it -/
  fetched : ∀ N addr rkey before, ∀ start : Database N × Mem, (store N).Run fitting before start →
    Holds key.bytes addr rkey value.bytes start → ∀ sent db mem,
    ((store N).resume start).Run (sparing key.bytes addr) sent (db, mem) →
    ∀ patience log ret got, ((Call.kvGet key).api patience).Path log (.ok (ret, got)) →
    (∀ e ∈ log, Fine e) → ∀ sized described, seen log = [sized, described] →
    (Reply.size value.bytes.length).bytes <+: sized →
    (Reply.region rkey addr).bytes <+: described →
    (∀ n bytes, ⟨.valueBuf n, bytes⟩ ∈ log → bytes = mem.rdmaRead addr rkey n) →
    posted log = [.send (onWire (flagKey .ag key.bytes)),
        .send (onWire (flagKey .g0 key.bytes)), .read value.bytes.length rkey addr,
        .send (onWire (flagKey .fg key.bytes))] ∧
      ⟨.malloc .value (value.bytes.length + 1), true⟩ ∈ log ∧
      ret = .exitSuccess ∧ got = some value.bytes

/-- The length of a large value has at most nine digits if all of its way is to go well, and
then it does. -/
theorem moved_whole_iff {key value : CString} (is_word : IsWord key.bytes)
    (bounded : key.bytes.length ≤ 255) (large : isEager value.bytes = false) :
    MovedWhole key value ↔ value.bytes.length < 10 ^ 9 := by
  have digits : (sizeText value.bytes).length ≤ 9 ↔ value.bytes.length < 10 ^ 9 :=
    length_decimal_le_iff (by decide)
  have page : 4 * KB = 4096 := rfl
  constructor
  · intro moved
    exact digits.mp (Nat.le_of_succ_le_succ moved.printed)
  · intro short
    have sized : atoi (sizeText value.bytes) = value.bytes.length := atoi_decimal (by omega)
    have within : key.bytes.length < 4 * KB := by omega
    refine ⟨Nat.succ_le_succ (digits.mpr short), sized, ?_, ?_, ?_, ?_⟩
    · intro N sent db mem run env c addr rkey takes
      have small : (value.bytes.length : Int) < intMax := by
        unfold intMax
        omega
      obtain ⟨db', mem', body, handled, length, holds⟩ :=
        takes.registers (store_heap run) small c
      refine ⟨db', mem', body, ?_, length, holds⟩
      have parsed := (parseRequest_setRendezvous_iff key.noNul).mpr ⟨⟨is_word, within⟩, sized⟩
      rw [parseData, parseRequest_onWire, parsed]
      exact handled
    · intro patience log ret got path clean granted described rkey addr twice region
      obtain ⟨out, path, same⟩ := api_set_path path
      refine ⟨?_, fun N db mem body length holds => holds.write length.symm⟩
      cases out with
      | error s => cases same
      | ok ret' =>
          rcases Api.kvSet_writes patience key large log _ path clean ret' rfl with
            ⟨contents, once⟩ | ⟨granted', described', rkey', addr', twice', region', posts⟩
          · rw [twice] at once
            cases once
          · rw [twice] at twice'
            cases twice'
            rw [readRegion_bytes region] at region'
            cases region'
            exact posts
    · intro N addr rkey before start reached holds sent db mem run env c first second
      have later := (holds_of_run (store_heap reached) holds run).2
      obtain ⟨db', handled⟩ := later.get first second c
      refine ⟨db', ?_⟩
      have parsed := (key_decoded_iff .g0 .get (fun _ => rfl) (fun _ _ => Request.get.inj)
        within).mpr is_word
      rw [parseData, parsed]
      exact handled
    · intro N addr rkey before start reached holds sent db mem run patience log ret got path clean
        sized' described twice size region reads
      have later := (holds_of_run (store_heap reached) holds run).2
      obtain ⟨n, rkey', addr', bytes, -, size', region', posts, buffer, last, success, result⟩ :=
        Api.kvGet_reads patience key log _ path clean ret got rfl _ _ twice
      rw [readRegion_bytes region] at region'
      cases region'
      rw [readSize_bytes ⟨Int.natCast_nonneg _, by omega⟩ size] at size'
      cases size'
      rw [Int.toNat_natCast] at posts last
      have room : (((value.bytes.length : Int) + 1) % 2 ^ 64).toNat = value.bytes.length + 1 := by
        omega
      rw [room] at buffer
      have whole : bytes = value.bytes := (reads _ _ last).trans later.read
      rw [whole, text_append_nul value.noNul] at result
      exact ⟨posts, buffer, success, result⟩

/-- A value of 5000 characters goes the whole way. -/
theorem moved_whole_letters : MovedWhole keyK (letters 5000) := by
  refine (moved_whole_iff (by decide) (by decide) ?_).mpr ?_
  · rw [isEager, length_letters]
    decide
  · rw [length_letters]
    decide

/-- A billion characters have a length of ten digits, and a NUL follows them. -/
theorem billion_length_overflows : ¬ ∀ value : CString, isEager value.bytes = false →
    (sizeText value.bytes).length + 1 ≤ 10 := by
  intro printed
  have digits : (decimal (10 ^ 9)).length ≤ 9 ↔ 10 ^ 9 < 10 ^ 9 :=
    length_decimal_le_iff (by decide)
  have short := printed (letters (10 ^ 9)) (by rw [isEager, length_letters]; decide)
  rw [sizeText, length_letters] at short
  exact absurd (digits.mp (Nat.le_of_succ_le_succ short)) (by decide)

end RdmaWiki
