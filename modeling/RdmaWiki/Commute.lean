import RdmaWiki.Contents

/-!
Requests on different keys commute.

A handler sees the record of the key of its request, with the bytes of its value, and
nothing else (`Effect.local`), and it changes nothing that another key shows
(`Effect.view_other`). Nobody is answered by requests on two keys, because no client waits
for two records. So two requests on different keys lead to the same records and send every
client the same replies in either order (`commute_of_run`).
-/

namespace RdmaWiki

open CText StepMachine Locks

variable {N : ℕ}

/-- The client's ask was handled and is not answered, so the client sends nothing. -/
def Client.Blocked (cl : Client) : Prop :=
  cl.requests = [] ∧ cl.replies = [] ∧ match cl.phase with
    | .setAsk _ _ => True
    | .getAsk _ => True
    | _ => False

/-- A request in a client's buffer, with the address and the rkey that `malloc` and
`ibv_reg_mr` return while it is handled. -/
structure Arrival (N : ℕ) where
  client : Fin N
  buf : Bytes
  addr : UInt64
  rkey : UInt32

/-- The request is handled, at an address that is not in use. -/
def Arrival.handle (x : Arrival N) (db : Database N) (mem : Mem) : Option (World N) :=
  if (mem.block x.addr).isSome then none
  else (parseData (.reliable N x.addr x.rkey) ⟨db, mem, []⟩ x.buf x.client).map Prod.snd

/-- Two requests are handled, `x` before `y`. -/
def handleTwo (x y : Arrival N) (db : Database N) (mem : Mem) : Option (World N) :=
  (x.handle db mem).bind fun w =>
    (y.handle w.db w.mem).map fun w' => { w' with sent := w.sent ++ w'.sent }

/-- The requests name different keys, as the server reads them. -/
def Arrival.Apart (x y : Arrival N) : Prop :=
  ∀ r r', parseRequest x.buf = .request r → parseRequest y.buf = .request r' → r.key ≠ r'.key

/-- The same record shows under every key, and every client was sent the same replies. -/
structure World.Same (w w' : World N) : Prop where
  view : ∀ k, view w.db w.mem k = RdmaWiki.view w'.db w'.mem k
  sent : ∀ d, sentTo d w.sent = sentTo d w'.sent

/-! ## Locality -/

section Local

variable {db db' : Database N} {mem mem' : Mem} {c : Fin N} {addr : UInt64} {rkey : UInt32}
  {r : Request} {w w' : World N} {key k : Bytes} {item item' : Item N} {m m' : Mem}
  {replies replies' : List (Fin N × Reply)}

theorem validSet_congr (same : db.find k = db'.find k) : db.validSet k = db'.validSet k := by
  unfold Database.validSet
  rw [same]

theorem validGet_congr (same : db.find k = db'.find k) : db.validGet k = db'.validGet k := by
  unfold Database.validGet
  rw [same]

theorem record_congr (same : db.find k = db'.find k) : db.record k = db'.record k := by
  unfold Database.record
  rw [same]

/-- Two handlings end alike: the same shows under the key, and they sent the same. -/
structure Alike (k : Bytes) (w w' : World N) : Prop where
  view : view w.db w.mem k = RdmaWiki.view w'.db w'.mem k
  sent : w.sent = w'.sent

/-- Handlings that leave the same record, with the same bytes, and send the same. -/
theorem Alike.of_becomes (becomes : World.Becomes ⟨db, mem, []⟩ w key item m replies)
    (becomes' : World.Becomes ⟨db', mem', []⟩ w' key item' m' replies') (same : item = item')
    (sent : replies = replies')
    (bytes : ∀ value, item.value = some value → m.block value.value = m'.block value.value) :
    Alike key w w' := by
  subst same sent
  constructor
  · unfold RdmaWiki.view
    rw [becomes.find_self, becomes'.find_self, becomes.mem, becomes'.mem, Option.bind_some]
    cases stored : item.value with
    | none => rfl
    | some value => simp only [Option.map_some, bytes value stored]
  · rw [becomes.sent, becomes'.sent]

/-- A value that shows has its bytes. -/
theorem view_bytes (same : view db mem k = view db' mem' k) (found : db.find k = some item)
    {value : Value} (stored : item.value = some value) :
    mem.block value.value = mem'.block value.value := by
  have finds : db.find k = db'.find k := congrArg Prod.fst same
  have blocks := congrArg Prod.snd same
  unfold view at blocks
  rw [← finds, found, Option.bind_some, stored, Option.map_some, Option.map_some,
    Option.some.injEq] at blocks
  exact blocks

/-- A handler depends on what shows under the key of its request only. -/
theorem Effect.local (same : view db mem r.key = view db' mem' r.key)
    (heap : Heap db.find mem) (heap' : Heap db'.find mem') (free : mem.block addr = none)
    (free' : mem'.block addr = none) (effect : Effect addr rkey ⟨db, mem, []⟩ c r w)
    (effect' : Effect addr rkey ⟨db', mem', []⟩ c r w') : Alike r.key w w' := by
  have finds : db.find r.key = db'.find r.key := congrArg Prod.fst same
  -- both handlings find the same record
  have unique {item item' : Item N} (found : db.find r.key = some item)
      (found' : db'.find r.key = some item') : item = item' := by
    rw [finds, found', Option.some.injEq] at found
    exact found.symm
  have bytes {item : Item N} (found : db.find r.key = some item) (value : Value)
      (stored : item.value = some value) : mem.block value.value = mem'.block value.value :=
    view_bytes same found stored
  cases effect with
  | @grantSet key _ valid becomes =>
      cases effect' with
      | grantSet valid' becomes' =>
          have records : db.record key = db'.record key := record_congr finds
          refine .of_becomes becomes becomes' (by simp only [records]) rfl fun value stored => ?_
          cases stored
      | deferSet found' invalid' becomes' =>
          cases valid.symm.trans ((validSet_congr finds).trans invalid')
  | @deferSet key item _ found invalid becomes =>
      cases effect' with
      | grantSet valid' becomes' =>
          cases invalid.symm.trans ((validSet_congr finds).trans valid')
      | deferSet found' invalid' becomes' =>
          cases unique found found'
          exact .of_becomes becomes becomes' rfl rfl fun value stored => bytes found value stored
  | @setEager key v _ becomes =>
      cases effect' with
      | setEager becomes' =>
          have records : db.record key = db'.record key := record_congr finds
          refine .of_becomes becomes becomes' (by simp only [records]) (by simp only [records])
            fun value stored => ?_
          rw [Item.woken_value] at stored
          cases stored
          rw [record_value, record_value, (heap.release_fresh _ free).1,
            (heap'.release_fresh _ free').1]
          simp [Mem.alloc]
  | @setRendezvous key n _ becomes =>
      cases effect' with
      | setRendezvous becomes' =>
          have records : db.record key = db'.record key := record_congr finds
          refine .of_becomes becomes becomes' (by simp only [records]) rfl fun value stored => ?_
          cases stored
          rw [record_value, record_value, (heap.release_fresh _ free).1,
            (heap'.release_fresh _ free').1]
          simp [Mem.alloc, Mem.register]
  | @setFin key item _ found becomes =>
      cases effect' with
      | setFin found' becomes' =>
          cases unique found found'
          refine .of_becomes becomes becomes' rfl rfl fun value stored => ?_
          rw [Item.woken_value] at stored
          exact bytes found value stored
  | @grantGet key valid =>
      cases effect' with
      | grantGet valid' => exact ⟨same, rfl⟩
      | deferGet found' locked' becomes' =>
          have valid : db'.validGet key = true := (validGet_congr finds).symm.trans valid
          simp [Database.validGet, found', locked'] at valid
  | @deferGet key item _ found locked becomes =>
      cases effect' with
      | grantGet valid' =>
          have valid : db.validGet key = true := (validGet_congr finds).trans valid'
          simp [Database.validGet, found, locked] at valid
      | deferGet found' locked' becomes' =>
          cases unique found found'
          exact .of_becomes becomes becomes' rfl rfl fun value stored => bytes found value stored
  | @lose key absent =>
      cases effect' with
      | lose absent' => exact ⟨same, rfl⟩
      | getEager found' => cases absent.symm.trans (finds.trans found')
      | getRendezvous found' => cases absent.symm.trans (finds.trans found')
  | @getEager key item value text _ found stored small block becomes =>
      cases effect' with
      | lose absent' => cases found.symm.trans (finds.trans absent')
      | getEager found' stored' small' block' becomes' =>
          cases unique found found'
          cases stored.symm.trans stored'
          cases (block.symm.trans (bytes found value stored)).trans block'
          refine .of_becomes becomes becomes' rfl rfl fun value stored => ?_
          rw [Item.woken_value] at stored
          exact bytes found value stored
      | getRendezvous found' stored' large' =>
          cases unique found found'
          cases stored.symm.trans stored'
          cases small.symm.trans large'
  | @getRendezvous key item value mr _ found stored large registered becomes =>
      cases effect' with
      | lose absent' => cases found.symm.trans (finds.trans absent')
      | getEager found' stored' small' =>
          cases unique found found'
          cases stored.symm.trans stored'
          cases large.symm.trans small'
      | getRendezvous found' stored' large' registered' becomes' =>
          cases unique found found'
          cases stored.symm.trans stored'
          cases registered.symm.trans registered'
          exact .of_becomes becomes becomes' rfl rfl fun value stored => bytes found value stored
  | @getFin key item _ found becomes =>
      cases effect' with
      | getFin found' becomes' =>
          cases unique found found'
          refine .of_becomes becomes becomes' rfl rfl fun value stored => ?_
          rw [Item.woken_value] at stored
          exact bytes found value stored

/-- A handler changes nothing that another key shows. -/
theorem handle_view_other {ret : Ret} (heap : Heap db.find mem) (free : mem.block addr = none)
    (handled : handle (.reliable N addr rkey) ⟨db, mem, []⟩ c r = some (ret, w))
    (other : k ≠ r.key) : view w.db w.mem k = view db mem k := by
  have find := handle_elsewhere other handled
  let cfg : Config N := { Config.start N with db := db, mem := mem }
  have order : Heap cfg.db.find cfg.mem := heap
  have kept : Kept cfg w k := by
    rcases (handle_effect addr rkey handled).kept_or_replaces order free k with
      ⟨kept, -⟩ | replaces
    · exact kept
    · cases replaces <;> exact absurd rfl other
  unfold view
  rw [find]
  cases stored : (db.find k).bind Item.value with
  | none => rfl
  | some value => rw [Option.map_some, Option.map_some, kept.block value stored]

end Local

/-! ## Requests in either order -/

section Arrivals

variable {x y : Arrival N} {db db' : Database N} {mem mem' : Mem} {w w' : World N} {k : Bytes}

/-- A request that is handled was rejected by the parser or reached a handler. -/
theorem Arrival.handled (handled : x.handle db mem = some w) :
    mem.block x.addr = none ∧
      ((parseRequest x.buf = .reject ∧ w = ⟨db, mem, []⟩) ∨
        ∃ r ret, parseRequest x.buf = .request r ∧
          RdmaWiki.handle (.reliable N x.addr x.rkey) ⟨db, mem, []⟩ x.client r =
            some (ret, w)) := by
  unfold Arrival.handle at handled
  split at handled
  next => cases handled
  next free =>
    simp only [Bool.not_eq_true, Option.isSome_eq_false_iff, Option.isNone_iff_eq_none] at free
    refine ⟨free, ?_⟩
    obtain ⟨⟨ret, w₁⟩, parsed, rfl⟩ := Option.map_eq_some_iff.mp handled
    unfold parseData at parsed
    split at parsed
    next => cases parsed
    next rejected =>
      cases parsed
      exact .inl ⟨rejected, rfl⟩
    next r request => exact .inr ⟨r, ret, request, parsed⟩

theorem Arrival.heap (heap : Heap db.find mem) (handled : x.handle db mem = some w) :
    Heap w.db.find w.mem := by
  obtain ⟨free, ⟨-, rfl⟩ | ⟨r, ret, -, ran⟩⟩ := Arrival.handled handled
  · exact heap
  · exact heap.handle (w := ⟨db, mem, []⟩) (Env.fits_reliable free x.rkey) ran

/-- Only what shows under the key of the request changes. -/
theorem Arrival.view_other (heap : Heap db.find mem) (handled : x.handle db mem = some w)
    (other : ∀ r, parseRequest x.buf = .request r → k ≠ r.key) :
    view w.db w.mem k = view db mem k := by
  obtain ⟨free, ⟨-, rfl⟩ | ⟨r, ret, parsed, ran⟩⟩ := Arrival.handled handled
  · rfl
  · exact handle_view_other heap free ran (other r parsed)

/-- Two handlings of a request that find the same under its key send the same and leave
the same there. -/
theorem Arrival.alike (heap : Heap db.find mem) (heap' : Heap db'.find mem')
    (same : ∀ r, parseRequest x.buf = .request r → view db mem r.key = view db' mem' r.key)
    (handled : x.handle db mem = some w) (handled' : x.handle db' mem' = some w') :
    w.sent = w'.sent ∧
      ∀ r, parseRequest x.buf = .request r → view w.db w.mem r.key = view w'.db w'.mem r.key := by
  obtain ⟨free, ⟨rejected, rfl⟩ | ⟨r, ret, parsed, ran⟩⟩ := Arrival.handled handled
  · obtain ⟨-, ⟨-, rfl⟩ | ⟨r', ret', parsed', -⟩⟩ := Arrival.handled handled'
    · exact ⟨rfl, same⟩
    · cases rejected.symm.trans parsed'
  · obtain ⟨free', ⟨rejected', -⟩ | ⟨r', ret', parsed', ran'⟩⟩ := Arrival.handled handled'
    · cases parsed.symm.trans rejected'
    · cases parsed.symm.trans parsed'
      have alike := (handle_effect x.addr x.rkey ran).local (same r parsed) heap heap' free free'
        (handle_effect x.addr x.rkey ran')
      refine ⟨alike.sent, fun r' parsed' => ?_⟩
      cases parsed.symm.trans parsed'
      exact alike.view

variable {trace : List (Event N)} {cfg : Config N} {c d : Fin N}

/-- Another client is sent something only when it waits for the record of the request. -/
theorem Arrival.sent_other (linked : Linked trace cfg)
    (handled : x.handle cfg.db cfg.mem = some w) (other : d ≠ x.client) :
    sentTo d w.sent = [] ∨ ∃ r, parseRequest x.buf = .request r ∧
      ((cfg.clients d).pos = .waitSet r.key ∨ (cfg.clients d).pos = .waitGet r.key) := by
  obtain ⟨-, ⟨-, rfl⟩ | ⟨r, ret, parsed, ran⟩⟩ := Arrival.handled handled
  · exact .inl rfl
  · rcases linked.sent_other (handle_effect x.addr x.rkey ran) other with nothing | waits
    · exact .inl nothing
    · exact .inr ⟨r, parsed, waits⟩

/-- A client that is not blocked waits for no record. -/
theorem Client.Shape.not_waiting {cl : Client} (shape : cl.Shape) (active : ¬ cl.Blocked)
    (k : Bytes) : cl.pos ≠ .waitSet k ∧ cl.pos ≠ .waitGet k := by
  constructor
  · intro waits
    obtain ⟨key, value, -, rfl⟩ := shape.waitSet waits
    exact active ⟨rfl, rfl, True.intro⟩
  · intro waits
    obtain ⟨key, -, rfl⟩ := shape.waitGet waits
    exact active ⟨rfl, rfl, True.intro⟩

/-- No client is answered by requests on two keys. -/
theorem sent_once (linked : Linked trace cfg) (clients : x.client ≠ y.client)
    (active : ¬ (cfg.clients x.client).Blocked) (active' : ¬ (cfg.clients y.client).Blocked)
    (apart : x.Apart y) (handled : x.handle cfg.db cfg.mem = some w)
    (handled' : y.handle cfg.db cfg.mem = some w') (d : Fin N) :
    sentTo d w.sent = [] ∨ sentTo d w'.sent = [] := by
  rcases eq_or_ne d x.client with rfl | notFirst
  · right
    rcases Arrival.sent_other linked handled' clients with nothing | ⟨r, -, waits | waits⟩
    · exact nothing
    · exact absurd waits ((linked.shape _).not_waiting active r.key).1
    · exact absurd waits ((linked.shape _).not_waiting active r.key).2
  rcases eq_or_ne d y.client with rfl | notSecond
  · left
    rcases Arrival.sent_other linked handled clients.symm with nothing | ⟨r, -, waits | waits⟩
    · exact nothing
    · exact absurd waits ((linked.shape _).not_waiting active' r.key).1
    · exact absurd waits ((linked.shape _).not_waiting active' r.key).2
  · rcases Arrival.sent_other linked handled notFirst with nothing | ⟨r, parsed, waits⟩
    · exact .inl nothing
    rcases Arrival.sent_other linked handled' notSecond with nothing | ⟨r', parsed', waits'⟩
    · exact .inr nothing
    -- a client waits for one record at a time
    · exfalso
      apply apart r r' parsed parsed'
      rcases waits with waits | waits <;> rcases waits' with waits' | waits'
      · exact Pos.waitSet.inj (waits.symm.trans waits')
      · cases waits.symm.trans waits'
      · cases waits.symm.trans waits'
      · exact Pos.waitGet.inj (waits.symm.trans waits')

/-- Requests on different keys commute. In every reachable state, two requests of two
clients that are not blocked, on different keys, leave the same record under every key and
send every client the same replies, whichever is handled first. -/
theorem commute_of_run {guard : Guard (Config N) (Action N) (Event N)}
    (run : (protocol N).Run guard trace cfg) (clients : x.client ≠ y.client)
    (active : ¬ (cfg.clients x.client).Blocked) (active' : ¬ (cfg.clients y.client).Blocked)
    (apart : x.Apart y) (first : handleTwo x y cfg.db cfg.mem = some w)
    (second : handleTwo y x cfg.db cfg.mem = some w') : w.Same w' := by
  have linked := linked_of_run run
  have heap := heap_of_run run
  obtain ⟨w₁, ranX, more⟩ := Option.bind_eq_some_iff.mp first
  obtain ⟨w₁₂, ranXY, rfl⟩ := Option.map_eq_some_iff.mp more
  obtain ⟨w₂, ranY, more'⟩ := Option.bind_eq_some_iff.mp second
  obtain ⟨w₂₁, ranYX, rfl⟩ := Option.map_eq_some_iff.mp more'
  have heap₁ := Arrival.heap heap ranX
  have heap₂ := Arrival.heap heap ranY
  have apartX : ∀ r, parseRequest x.buf = .request r →
      ∀ r', parseRequest y.buf = .request r' → r.key ≠ r'.key :=
    fun r parsed r' parsed' => apart r r' parsed parsed'
  have apartY : ∀ r', parseRequest y.buf = .request r' →
      ∀ r, parseRequest x.buf = .request r → r'.key ≠ r.key :=
    fun r' parsed' r parsed => (apart r r' parsed parsed').symm
  -- each request finds and does the same, first or second
  obtain ⟨sentX, viewX⟩ := Arrival.alike heap heap₂
    (fun r parsed => (Arrival.view_other heap ranY (apartX r parsed)).symm) ranX ranYX
  obtain ⟨sentY, viewY⟩ := Arrival.alike heap heap₁
    (fun r' parsed' => (Arrival.view_other heap ranX (apartY r' parsed')).symm) ranY ranXY
  constructor
  · intro k
    by_cases ofX : ∃ r, parseRequest x.buf = .request r ∧ k = r.key
    · obtain ⟨r, parsed, rfl⟩ := ofX
      exact (Arrival.view_other heap₁ ranXY (apartX r parsed)).trans (viewX r parsed)
    have otherX : ∀ r, parseRequest x.buf = .request r → k ≠ r.key :=
      fun r parsed same => ofX ⟨r, parsed, same⟩
    by_cases ofY : ∃ r', parseRequest y.buf = .request r' ∧ k = r'.key
    · obtain ⟨r', parsed', rfl⟩ := ofY
      exact (viewY r' parsed').symm.trans
        (Arrival.view_other heap₂ ranYX (apartY r' parsed')).symm
    have otherY : ∀ r', parseRequest y.buf = .request r' → k ≠ r'.key :=
      fun r' parsed' same => ofY ⟨r', parsed', same⟩
    calc view w₁₂.db w₁₂.mem k = view w₁.db w₁.mem k := Arrival.view_other heap₁ ranXY otherY
      _ = view cfg.db cfg.mem k := Arrival.view_other heap ranX otherX
      _ = view w₂.db w₂.mem k := (Arrival.view_other heap ranY otherY).symm
      _ = view w₂₁.db w₂₁.mem k := (Arrival.view_other heap₂ ranYX otherX).symm
  · intro d
    change sentTo d (w₁.sent ++ w₁₂.sent) = sentTo d (w₂.sent ++ w₂₁.sent)
    rw [sentTo_append, sentTo_append, ← sentX, ← sentY]
    rcases sent_once linked clients active active' apart ranX ranY d with nothing | nothing <;>
      simp [nothing]

end Arrivals

/-- Client 0 ends its set of `k`, for which client 2 waits, and client 1 asks to set `j`. -/
theorem commute_beside_wait : ∃ trace, ∃ cfg : Config 3,
    (protocol 3).Run wordKeys trace cfg ∧ ∃ x y w w', handleTwo x y cfg.db cfg.mem = some w ∧
      handleTwo y x cfg.db cfg.mem = some w' ∧ w.Same w' ∧ sentTo 2 w.sent = [.ack] := by
  obtain ⟨trace, cfg, run, ends⟩ := Machine.Run.of_exec (protocol 3) wordKeys
    [.invoke 0 (.kvSet keyK valueV), .serve 0 0 0, .invoke 2 (.kvGet keyK), .serve 2 0 0,
      .proceed 0]
    (fun _ cfg =>
      (cfg.clients 0).phase == .setEager keyK valueV && (cfg.clients 1).phase == .idle &&
        ((handleTwo ⟨0, onWire (flagKeyText .se keyK.bytes valueV.bytes), 0, 0⟩
          ⟨1, onWire (flagKey .as (ascii ['j'])), 1, 0⟩ cfg.db cfg.mem).any
            fun w => sentTo 2 w.sent == [.ack]) &&
        (handleTwo ⟨1, onWire (flagKey .as (ascii ['j'])), 1, 0⟩
          ⟨0, onWire (flagKeyText .se keyK.bytes valueV.bytes), 0, 0⟩ cfg.db cfg.mem).isSome)
    (by decide +kernel)
  simp only [Bool.and_eq_true, beq_iff_eq, Option.any_eq_true, Option.isSome_iff_exists] at ends
  obtain ⟨⟨⟨sets, idle⟩, w, first, woken⟩, w', second⟩ := ends
  refine ⟨trace, cfg, run, _, _, w, w', first, second, ?_, woken⟩
  refine commute_of_run run (by decide) ?_ ?_ ?_ first second
  · intro blocked
    rw [Client.Blocked, sets] at blocked
    exact blocked.2.2
  · intro blocked
    rw [Client.Blocked, idle] at blocked
    exact blocked.2.2
  · intro r r' parsed parsed'
    have reads : parseRequest (onWire (flagKeyText .se keyK.bytes valueV.bytes)) =
        .request (.setEager keyK.bytes valueV.bytes) := by decide +kernel
    have reads' : parseRequest (onWire (flagKey .as (ascii ['j']))) =
        .request (.setAsk (ascii ['j'])) := by decide +kernel
    cases reads.symm.trans parsed
    cases reads'.symm.trans parsed'
    decide

end RdmaWiki
