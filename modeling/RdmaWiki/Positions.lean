import RdmaWiki.Protocol
import RdmaWiki.Locks

/-!
The points of the protocol.

`Client.Shape` lists what a client's two queues hold in each phase, and
`Client.pos` reads off the client's position in the lock discipline. A client's
own step keeps both (`Client.Shape.proceed`).
-/

namespace RdmaWiki

open CText

variable {N : ℕ}

/-- The call in progress. -/
def Phase.call : Phase → Option Call
  | .idle => none
  | .setAsk key value => some (.kvSet key value)
  | .setEager key value => some (.kvSet key value)
  | .setRendezvous key value => some (.kvSet key value)
  | .setWrite key value _ _ => some (.kvSet key value)
  | .setFin key value => some (.kvSet key value)
  | .getAsk key => some (.kvGet key)
  | .get key => some (.kvGet key)
  | .getEager key _ => some (.kvGet key)
  | .getRendezvous key _ => some (.kvGet key)
  | .getRead key _ _ _ => some (.kvGet key)
  | .getFin key _ => some (.kvGet key)

/-- The record that the call in progress is about. -/
def Client.record (cl : Client) : Option Bytes :=
  cl.phase.call.bind fun call => serverKey call.key.bytes

/-- The position of a client on the record of its call. -/
def Client.posOn (cl : Client) (k : Bytes) : Pos Bytes :=
  match cl.phase, cl.requests, cl.replies with
  | .setAsk _ _, _ :: _, _ => .askSet k
  | .setAsk _ _, [], [] => .waitSet k
  | .setAsk _ _, [], .ack :: _ => .inSet k
  | .setEager _ _, _, [] => .inSet k
  | .setRendezvous _ _, _, _ => .inSet k
  | .setWrite _ _ _ _, _, _ => .inSet k
  | .setFin _ _, _, [] => .inSet k
  | .getAsk _, _ :: _, _ => .askGet k
  | .getAsk _, [], [] => .waitGet k
  | .getAsk _, [], _ :: _ => .granted k
  | .get _, _ :: _, _ => .granted k
  | .get _, [], [] => .lost k
  | .get _, [], .size _ :: _ => .reading k
  | .getRendezvous _ _, _, _ => .reading k
  | .getRead _ _ _ _, _, _ => .reading k
  | .getFin _ _, _, [] => .reading k
  | _, _, _ => .out

/-- The position of a client. A call whose key has no token is about no record. -/
def Client.pos (cl : Client) : Pos Bytes :=
  match cl.record with
  | none => .out
  | some k => cl.posOn k

/-- The points of the protocol: what a client's queues hold in each phase. A call
gets past its first request only when its key has a token `k`. -/
inductive Client.Shape : Client → Prop
  | idle : Shape ⟨.idle, [], []⟩
  | setAsk {key value : CString} :
    Shape ⟨.setAsk key value, [onWire (flagKey .as key.bytes)], []⟩
  | setWait {key value : CString} {k : Bytes} (named : serverKey key.bytes = some k) :
    Shape ⟨.setAsk key value, [], []⟩
  | setGranted {key value : CString} {k : Bytes} (named : serverKey key.bytes = some k) :
    Shape ⟨.setAsk key value, [], [.ack]⟩
  | setRefused {key value : CString} {k : Bytes} (named : serverKey key.bytes = some k) :
    Shape ⟨.setAsk key value, [], [.nack]⟩
  | setEager {key value : CString} {k : Bytes} (named : serverKey key.bytes = some k)
    (eager : isEager value.bytes = true) :
    Shape ⟨.setEager key value, [onWire (flagKeyText .se key.bytes value.bytes)], []⟩
  | setEagerDone {key value : CString} {k : Bytes} (named : serverKey key.bytes = some k)
    (eager : isEager value.bytes = true) : Shape ⟨.setEager key value, [], [.ack]⟩
  | setSize {key value : CString} {k : Bytes} (named : serverKey key.bytes = some k)
    (large : isEager value.bytes = false) :
    Shape ⟨.setRendezvous key value,
      [onWire (flagKeyText .sr key.bytes (sizeText value.bytes))], []⟩
  | setRegion {key value : CString} {k : Bytes} {rkey : UInt32} {addr : UInt64}
    (named : serverKey key.bytes = some k) (large : isEager value.bytes = false) :
    Shape ⟨.setRendezvous key value, [], [.region rkey addr]⟩
  | setWrite {key value : CString} {k : Bytes} {rkey : UInt32} {addr : UInt64}
    (named : serverKey key.bytes = some k) (large : isEager value.bytes = false) :
    Shape ⟨.setWrite key value rkey addr, [], []⟩
  | setFin {key value : CString} {k : Bytes} (named : serverKey key.bytes = some k)
    (large : isEager value.bytes = false) :
    Shape ⟨.setFin key value, [onWire (flagKey .fs key.bytes)], []⟩
  | setDone {key value : CString} {k : Bytes} (named : serverKey key.bytes = some k)
    (large : isEager value.bytes = false) : Shape ⟨.setFin key value, [], [.ack]⟩
  | getAsk {key : CString} : Shape ⟨.getAsk key, [onWire (flagKey .ag key.bytes)], []⟩
  | getWait {key : CString} {k : Bytes} (named : serverKey key.bytes = some k) :
    Shape ⟨.getAsk key, [], []⟩
  | getGranted {key : CString} {k : Bytes} (named : serverKey key.bytes = some k) :
    Shape ⟨.getAsk key, [], [.ack]⟩
  | get {key : CString} {k : Bytes} (named : serverKey key.bytes = some k) :
    Shape ⟨.get key, [onWire (flagKey .g0 key.bytes)], []⟩
  | getLost {key : CString} {k : Bytes} (named : serverKey key.bytes = some k) :
    Shape ⟨.get key, [], []⟩
  | getEagerSent {key : CString} {k v : Bytes} (named : serverKey key.bytes = some k) :
    Shape ⟨.get key, [], [.eager v, .ack]⟩
  | getEager {key : CString} {k v : Bytes} (named : serverKey key.bytes = some k) :
    Shape ⟨.getEager key v, [], [.ack]⟩
  | getSizeSent {key : CString} {k : Bytes} {n : Int} {rkey : UInt32} {addr : UInt64}
    (named : serverKey key.bytes = some k) :
    Shape ⟨.get key, [], [.size n, .region rkey addr]⟩
  | getRegion {key : CString} {k : Bytes} {n : Int} {rkey : UInt32} {addr : UInt64}
    (named : serverKey key.bytes = some k) :
    Shape ⟨.getRendezvous key n, [], [.region rkey addr]⟩
  | getRead {key : CString} {k : Bytes} {n : Int} {rkey : UInt32} {addr : UInt64}
    (named : serverKey key.bytes = some k) : Shape ⟨.getRead key n rkey addr, [], []⟩
  | getFin {key : CString} {k v : Bytes} (named : serverKey key.bytes = some k) :
    Shape ⟨.getFin key v, [onWire (flagKey .fg key.bytes)], []⟩
  | getDone {key : CString} {k v : Bytes} (named : serverKey key.bytes = some k) :
    Shape ⟨.getFin key v, [], [.ack]⟩

section Client

variable {cl cl' : Client} {mem mem' : Mem} {results : List (Call × Result)} {key : CString}
  {k : Bytes} {p : Pos Bytes}

theorem Client.pos_eq (named : serverKey key.bytes = some k)
    (about : cl.record = serverKey key.bytes) (point : cl.posOn k = p) : cl.pos = p := by
  rw [Client.pos, about, named]
  exact point

/-- A position on a record is that of a call about the record. -/
theorem Client.record_of_pos (about : cl.pos.key = some k) : cl.record = some k := by
  unfold Client.pos at about
  split at about
  next => cases about
  next k' named =>
    have own : (cl.posOn k').key = none ∨ (cl.posOn k').key = some k' := by
      unfold Client.posOn
      split <;> simp [Pos.key]
    rcases own with outside | on
    · rw [outside] at about
      cases about
    · rw [on] at about
      rw [named, about]

/-- A call about no record. -/
theorem Client.pos_unnamed (unnamed : serverKey key.bytes = none)
    (about : cl.record = serverKey key.bytes) : cl.pos = .out := by
  rw [Client.pos, about, unnamed]

/-- Two points of one call with the same position. -/
theorem Client.pos_keep (named : serverKey key.bytes = some k)
    (about' : cl'.record = serverKey key.bytes) (about : cl.record = serverKey key.bytes)
    (point : cl'.posOn k = cl.posOn k) : cl'.pos = cl.pos :=
  (pos_eq named about' point).trans (pos_eq named about rfl).symm

/-- A call returns from a point outside. -/
theorem Client.pos_return {requests : List Bytes} {replies : List Reply}
    (named : serverKey key.bytes = some k) (about : cl.record = serverKey key.bytes)
    (point : cl.posOn k = .out) : Client.pos ⟨.idle, requests, replies⟩ = cl.pos :=
  (pos_eq named about point).symm

/-- The steps from one point of the protocol to the next, with the memory before and after
and the calls that return. -/
inductive Client.Goes (mem : Mem) : Client → Client → Mem → List (Call × Result) → Prop
  | refuse {key value : CString} {k : Bytes} (named : serverKey key.bytes = some k) :
    Goes mem ⟨.setAsk key value, [], [.nack]⟩ ⟨.idle, [], []⟩ mem [(.kvSet key value, .refused)]
  | setEager {key value : CString} {k : Bytes} (named : serverKey key.bytes = some k)
    (eager : isEager value.bytes = true) :
    Goes mem ⟨.setAsk key value, [], [.ack]⟩
      ⟨.setEager key value, [onWire (flagKeyText .se key.bytes value.bytes)], []⟩ mem []
  | setSize {key value : CString} {k : Bytes} (named : serverKey key.bytes = some k)
    (large : isEager value.bytes = false) :
    Goes mem ⟨.setAsk key value, [], [.ack]⟩ ⟨.setRendezvous key value,
      [onWire (flagKeyText .sr key.bytes (sizeText value.bytes))], []⟩ mem []
  | storeEager {key value : CString} {k : Bytes} (named : serverKey key.bytes = some k) :
    Goes mem ⟨.setEager key value, [], [.ack]⟩ ⟨.idle, [], []⟩ mem [(.kvSet key value, .stored)]
  | setWrite {key value : CString} {k : Bytes} {rkey : UInt32} {addr : UInt64}
    (named : serverKey key.bytes = some k) (large : isEager value.bytes = false) :
    Goes mem ⟨.setRendezvous key value, [], [.region rkey addr]⟩
      ⟨.setWrite key value rkey addr, [], []⟩ mem []
  | setFin {key value : CString} {k : Bytes} {rkey : UInt32} {addr : UInt64}
    (named : serverKey key.bytes = some k) (large : isEager value.bytes = false) :
    Goes mem ⟨.setWrite key value rkey addr, [], []⟩
      ⟨.setFin key value, [onWire (flagKey .fs key.bytes)], []⟩
      (mem.rdmaWrite addr rkey value.bytes) []
  | storeLarge {key value : CString} {k : Bytes} (named : serverKey key.bytes = some k) :
    Goes mem ⟨.setFin key value, [], [.ack]⟩ ⟨.idle, [], []⟩ mem [(.kvSet key value, .stored)]
  | get {key : CString} {k : Bytes} (named : serverKey key.bytes = some k) :
    Goes mem ⟨.getAsk key, [], [.ack]⟩ ⟨.get key, [onWire (flagKey .g0 key.bytes)], []⟩ mem []
  | getEager {key : CString} {k v : Bytes} (named : serverKey key.bytes = some k) :
    Goes mem ⟨.get key, [], [.eager v, .ack]⟩ ⟨.getEager key v, [], [.ack]⟩ mem []
  | loadEager {key : CString} {k v : Bytes} (named : serverKey key.bytes = some k) :
    Goes mem ⟨.getEager key v, [], [.ack]⟩ ⟨.idle, [], []⟩ mem [(.kvGet key, .value v)]
  | getSize {key : CString} {k : Bytes} {n : Int} {rkey : UInt32} {addr : UInt64}
    (named : serverKey key.bytes = some k) :
    Goes mem ⟨.get key, [], [.size n, .region rkey addr]⟩
      ⟨.getRendezvous key n, [], [.region rkey addr]⟩ mem []
  | getRead {key : CString} {k : Bytes} {n : Int} {rkey : UInt32} {addr : UInt64}
    (named : serverKey key.bytes = some k) :
    Goes mem ⟨.getRendezvous key n, [], [.region rkey addr]⟩
      ⟨.getRead key n rkey addr, [], []⟩ mem []
  | getFin {key : CString} {k : Bytes} {n : Int} {rkey : UInt32} {addr : UInt64}
    (named : serverKey key.bytes = some k) :
    Goes mem ⟨.getRead key n rkey addr, [], []⟩
      ⟨.getFin key (text (mem.rdmaRead addr rkey n.toNat ++ [0])),
        [onWire (flagKey .fg key.bytes)], []⟩ mem []
  | loadLarge {key : CString} {k v : Bytes} (named : serverKey key.bytes = some k) :
    Goes mem ⟨.getFin key v, [], [.ack]⟩ ⟨.idle, [], []⟩ mem [(.kvGet key, .value v)]

/-- A client at a point of the protocol goes on to the next. -/
theorem Client.Shape.goes (shape : cl.Shape)
    (next : cl.proceed mem = some (cl', mem', results)) : Client.Goes mem cl cl' mem' results := by
  cases shape with
  | setGranted named =>
      have granted : Reply.ack.bytes.head? ≠ some 'F'.toUInt8 := by decide
      simp only [Client.proceed, if_neg granted] at next
      split at next
      next eager =>
        cases next
        exact .setEager named eager
      next large =>
        cases next
        exact .setSize named (by simpa using large)
  | setRefused named =>
      have refused : Reply.nack.bytes.head? = some 'F'.toUInt8 := by decide
      simp only [Client.proceed, if_pos refused] at next
      cases next
      exact .refuse named
  | setEagerDone named eager => cases next; exact .storeEager named
  | setRegion named large => cases next; exact .setWrite named large
  | setWrite named large => cases next; exact .setFin named large
  | setDone named large => cases next; exact .storeLarge named
  | getGranted named => cases next; exact .get named
  | getEagerSent named => cases next; exact .getEager named
  | getEager named => cases next; exact .loadEager named
  | getSizeSent named => cases next; exact .getSize named
  | getRegion named => cases next; exact .getRead named
  | getRead named => cases next; exact .getFin named
  | getDone named => cases next; exact .loadLarge named
  | idle | setAsk | setWait | setEager | setSize | setFin | getAsk | getWait | get | getLost |
    getFin => cases next

/-- A client's own step keeps it at a point of the protocol and keeps its
position. -/
theorem Client.Shape.proceed (shape : cl.Shape)
    (next : cl.proceed mem = some (cl', mem', results)) : cl'.Shape ∧ cl'.pos = cl.pos := by
  cases shape.goes next with
  | refuse named | storeEager named | storeLarge named | loadEager named | loadLarge named =>
      exact ⟨.idle, pos_return named rfl rfl⟩
  | setEager named eager => exact ⟨.setEager named eager, pos_keep named rfl rfl rfl⟩
  | setSize named large => exact ⟨.setSize named large, pos_keep named rfl rfl rfl⟩
  | setWrite named large => exact ⟨.setWrite named large, pos_keep named rfl rfl rfl⟩
  | setFin named large => exact ⟨.setFin named large, pos_keep named rfl rfl rfl⟩
  | get named => exact ⟨.get named, pos_keep named rfl rfl rfl⟩
  | getEager named => exact ⟨.getEager named, pos_keep named rfl rfl rfl⟩
  | getSize named => exact ⟨.getRegion named, pos_keep named rfl rfl rfl⟩
  | getRead named => exact ⟨.getRead named, pos_keep named rfl rfl rfl⟩
  | getFin named => exact ⟨.getFin named, pos_keep named rfl rfl rfl⟩

/-- A client's own step goes on with its call or ends it. -/
theorem Client.proceed_call {call : Call} (next : cl.proceed mem = some (cl', mem', results))
    (during : cl'.phase.call = some call) : cl.phase.call = some call := by
  unfold Client.proceed at next
  split at next
  case h_1 phase _ =>
    rw [phase]
    split at next
    next => cases next; cases during
    next =>
      split at next
      all_goals cases next; exact during
  all_goals cases next
  all_goals simp_all [Phase.call]

/-- A waiting setter has sent `as` and received nothing. -/
theorem Client.Shape.waitSet (shape : cl.Shape) (waits : cl.pos = .waitSet k) :
    ∃ key value, serverKey key.bytes = some k ∧ cl = ⟨.setAsk key value, [], []⟩ := by
  cases shape with
  | setWait named =>
      cases (pos_eq named rfl rfl).symm.trans waits
      exact ⟨_, _, named, rfl⟩
  | setAsk =>
      unfold Client.pos at waits
      split at waits <;> cases waits
  | getAsk =>
      unfold Client.pos at waits
      split at waits <;> cases waits
  | idle => cases waits
  | _ named => cases (pos_eq named rfl rfl).symm.trans waits

/-- A waiting getter has sent `ag` and received nothing. -/
theorem Client.Shape.waitGet (shape : cl.Shape) (waits : cl.pos = .waitGet k) :
    ∃ key, serverKey key.bytes = some k ∧ cl = ⟨.getAsk key, [], []⟩ := by
  cases shape with
  | getWait named =>
      cases (pos_eq named rfl rfl).symm.trans waits
      exact ⟨_, named, rfl⟩
  | setAsk =>
      unfold Client.pos at waits
      split at waits <;> cases waits
  | getAsk =>
      unfold Client.pos at waits
      split at waits <;> cases waits
  | idle => cases waits
  | _ named => cases (pos_eq named rfl rfl).symm.trans waits

end Client

/-! ## What the server reads -/

section Parsing

variable {key value : CString} {buf k : Bytes} {flag : Flag}

/-- A request that ends with the key crashes the parse or names the key's first
token. -/
theorem request_flagKey (flag : Flag) (key : CString) (request : Bytes → Request)
    (short : ∀ k, flag.shortRequest k = some (request k)) :
    parseRequest (onWire (flagKey flag key.bytes)) = .crash ∨
      ∃ k, serverKey key.bytes = some k ∧
        parseRequest (onWire (flagKey flag key.bytes)) = .request (request k) := by
  rw [parseRequest_onWire]
  cases scan : strtok colon key.bytes with
  | none => exact .inl (parseRequest_flagKey_crash key.noNul scan)
  | some cut =>
      obtain ⟨k, rest⟩ := cut
      have shape := parseRequest_flag (text_flagKey flag key.noNul)
      obtain ⟨skipped, scan'⟩ := strtok_append_delim [] scan
      rw [scan'] at shape
      rcases Nat.lt_or_ge k.length (4 * KB) with fits | tooLong
      · refine .inr ⟨k, by rw [serverKey, scan]; rfl, ?_⟩
        exact parseRequest_flagKey key.noNul scan fits (short k)
      · rw [shape]
        exact .inl (if_pos tooLong)

/-- A request with a third field crashes the parse or goes on to the field after
the key's first token. -/
theorem request_flagKeyText {x : Bytes} (named : serverKey key.bytes = some k)
    (noNul : (0 : UInt8) ∉ x) :
    parseRequest (onWire (flagKeyText flag key.bytes x)) = .crash ∨
      ∃ skipped, parseRequest (onWire (flagKeyText flag key.bytes x)) =
        parseRest flag k (skipped ++ x) := by
  obtain ⟨⟨token, rest⟩, scan, rfl⟩ := Option.map_eq_some_iff.mp named
  have shape := parseRequest_flag (text_flagKeyText flag key.noNul noNul)
  obtain ⟨skipped, scan'⟩ := strtok_append_delim x scan
  rw [scan', ← parseRequest_onWire] at shape
  rw [shape]
  rcases Nat.lt_or_ge token.length (4 * KB) with fits | tooLong
  · exact .inr ⟨skipped, if_neg (Nat.not_le.mpr fits)⟩
  · exact .inl (if_pos tooLong)

theorem request_setEager (named : serverKey key.bytes = some k) :
    parseRequest (onWire (flagKeyText .se key.bytes value.bytes)) = .crash ∨
      ∃ v, parseRequest (onWire (flagKeyText .se key.bytes value.bytes)) =
        .request (.setEager k v) := by
  rcases request_flagKeyText named value.noNul with crash | ⟨skipped, parsed⟩
  · exact .inl crash
  · rw [parsed, parseRest]
    split
    next => exact .inl rfl
    next v _ _ => exact .inr ⟨v, rfl⟩

theorem request_setRendezvous (named : serverKey key.bytes = some k) :
    parseRequest (onWire (flagKeyText .sr key.bytes (sizeText value.bytes))) = .crash ∨
      ∃ size, parseRequest (onWire (flagKeyText .sr key.bytes (sizeText value.bytes))) =
        .request (.setRendezvous k size) := by
  rcases request_flagKeyText named (sizeText_noNul value.bytes) with crash | ⟨skipped, parsed⟩
  · exact .inl crash
  · rw [parsed, parseRest]
    split
    next => exact .inl rfl
    next size _ _ => exact .inr ⟨atoi size, rfl⟩

/-- A client whose oldest request the server reads as `r`. -/
inductive Client.Sends : Client → Request → Prop
  | setAsk {key value : CString} {k : Bytes} (named : serverKey key.bytes = some k) :
    Sends ⟨.setAsk key value, [onWire (flagKey .as key.bytes)], []⟩ (.setAsk k)
  | setEager {key value : CString} {k v : Bytes} (named : serverKey key.bytes = some k)
    (eager : isEager value.bytes = true) :
    Sends ⟨.setEager key value, [onWire (flagKeyText .se key.bytes value.bytes)], []⟩
      (.setEager k v)
  | setRendezvous {key value : CString} {k : Bytes} {size : Int}
    (named : serverKey key.bytes = some k) (large : isEager value.bytes = false) :
    Sends ⟨.setRendezvous key value,
      [onWire (flagKeyText .sr key.bytes (sizeText value.bytes))], []⟩
      (.setRendezvous k size)
  | setFin {key value : CString} {k : Bytes} (named : serverKey key.bytes = some k)
    (large : isEager value.bytes = false) :
    Sends ⟨.setFin key value, [onWire (flagKey .fs key.bytes)], []⟩ (.setFin k)
  | getAsk {key : CString} {k : Bytes} (named : serverKey key.bytes = some k) :
    Sends ⟨.getAsk key, [onWire (flagKey .ag key.bytes)], []⟩ (.getAsk k)
  | get {key : CString} {k : Bytes} (named : serverKey key.bytes = some k) :
    Sends ⟨.get key, [onWire (flagKey .g0 key.bytes)], []⟩ (.get k)
  | getFin {key : CString} {k v : Bytes} (named : serverKey key.bytes = some k) :
    Sends ⟨.getFin key v, [onWire (flagKey .fg key.bytes)], []⟩ (.getFin k)

/-- At every point of the protocol at most one request is under way, and the server
reads it as the request meant or crashes. -/
theorem Client.Shape.reads {cl : Client} {rest : List Bytes} (shape : cl.Shape)
    (queue : cl.requests = buf :: rest) :
    rest = [] ∧ (parseRequest buf = .crash ∨
      ∃ r, parseRequest buf = .request r ∧ cl.Sends r) := by
  cases shape with
  | @setAsk key value =>
      cases queue
      rcases request_flagKey .as key Request.setAsk fun _ => rfl with
        crash | ⟨k, named, parsed⟩
      · exact ⟨rfl, .inl crash⟩
      · exact ⟨rfl, .inr ⟨_, parsed, .setAsk named⟩⟩
  | setEager named eager =>
      cases queue
      rcases request_setEager named with crash | ⟨v, parsed⟩
      · exact ⟨rfl, .inl crash⟩
      · exact ⟨rfl, .inr ⟨_, parsed, .setEager named eager⟩⟩
  | setSize named large =>
      cases queue
      rcases request_setRendezvous named with crash | ⟨size, parsed⟩
      · exact ⟨rfl, .inl crash⟩
      · exact ⟨rfl, .inr ⟨_, parsed, .setRendezvous named large⟩⟩
  | @setFin key value _ _ large =>
      cases queue
      rcases request_flagKey .fs key Request.setFin fun _ => rfl with
        crash | ⟨k, named, parsed⟩
      · exact ⟨rfl, .inl crash⟩
      · exact ⟨rfl, .inr ⟨_, parsed, .setFin named large⟩⟩
  | @getAsk key =>
      cases queue
      rcases request_flagKey .ag key Request.getAsk fun _ => rfl with
        crash | ⟨k, named, parsed⟩
      · exact ⟨rfl, .inl crash⟩
      · exact ⟨rfl, .inr ⟨_, parsed, .getAsk named⟩⟩
  | @get key _ _ =>
      cases queue
      rcases request_flagKey .g0 key Request.get fun _ => rfl with
        crash | ⟨k, named, parsed⟩
      · exact ⟨rfl, .inl crash⟩
      · exact ⟨rfl, .inr ⟨_, parsed, .get named⟩⟩
  | @getFin key _ _ _ =>
      cases queue
      rcases request_flagKey .fg key Request.getFin fun _ => rfl with
        crash | ⟨k, named, parsed⟩
      · exact ⟨rfl, .inl crash⟩
      · exact ⟨rfl, .inr ⟨_, parsed, .getFin named⟩⟩
  | idle | setWait | setGranted | setRefused | setEagerDone | setRegion | setWrite | setDone |
    getWait | getGranted | getLost | getEagerSent | getEager | getSizeSent | getRegion |
    getRead | getDone => cases queue

/-! ### Calls about a word -/

/-- The length of the key of a call whose texts fit. -/
theorem Call.key_fits {call : Call} (fits : call.fits = true) :
    call.key.bytes.length < 4 * KB := by
  cases call with
  | kvSet key value =>
      simp only [Call.fits, Bool.and_eq_true, decide_eq_true_iff] at fits
      have within := fits.1
      simp only [flagKey, bufSize, List.length_append, List.length_cons, List.length_nil] at within
      change key.bytes.length < 4 * KB
      omega
  | kvGet key =>
      simp only [Call.fits, decide_eq_true_iff] at fits
      simp only [flagKey, bufSize, List.length_append, List.length_cons, List.length_nil] at fits
      change key.bytes.length < 4 * KB
      omega

/-- A value that goes the rendezvous way has less than a billion bytes when its
length text fits. -/
theorem Call.size_fits {key value : CString} (fits : (Call.kvSet key value).fits = true)
    (large : isEager value.bytes = false) : value.bytes.length < 10 ^ 9 := by
  simp only [Call.fits, large, Bool.false_eq_true, if_false, Bool.and_eq_true,
    decide_eq_true_iff] at fits
  have within : (decimal value.bytes.length).length ≤ 9 := by
    have room := fits.2.2
    rw [sizeText] at room
    omega
  exact (length_decimal_le_iff (by decide)).mp within

/-- The request that a phase waits to be handled, for a call about a word. An
eager set has none when the value has no token. -/
def Phase.request : Phase → Option Request
  | .setAsk key _ => some (.setAsk key.bytes)
  | .setEager key value =>
    (strtok colon value.bytes).map fun cut => .setEager key.bytes cut.1
  | .setRendezvous key value => some (.setRendezvous key.bytes value.bytes.length)
  | .setFin key _ => some (.setFin key.bytes)
  | .getAsk key => some (.getAsk key.bytes)
  | .get key => some (.get key.bytes)
  | .getFin key _ => some (.getFin key.bytes)
  | _ => none

/-- The server reads the request of a call about a word exactly, or crashes for
want of a value token. -/
theorem Client.Shape.reads_word {cl : Client} {rest : List Bytes} {call : Call}
    (shape : cl.Shape) (queue : cl.requests = buf :: rest)
    (during : cl.phase.call = some call) (word : IsWord call.key.bytes)
    (fits : call.fits = true) :
    parseRequest buf =
      match cl.phase.request with
      | none => .crash
      | some r => .request r := by
  have within := Call.key_fits fits
  cases shape with
  | @setAsk key value =>
      cases queue
      cases during
      rw [parseRequest_onWire]
      exact parseRequest_flagKey key.noNul (strtok_isWord word) within rfl
  | @setEager key value _ named eager =>
      cases queue
      cases during
      rw [parseRequest_onWire, parseRequest_word key.noNul value.noNul word within, parseRest]
      cases scan : strtok colon value.bytes <;> simp [Phase.request, scan]
  | @setSize key value _ named large =>
      cases queue
      cases during
      have bound := Call.size_fits fits large
      have sized : atoi (sizeText value.bytes) = value.bytes.length :=
        atoi_decimal (by omega)
      rw [parseRequest_onWire,
        parseRequest_word key.noNul (sizeText_noNul value.bytes) word within, parseRest,
        strtok_isWord (sizeText_isWord value.bytes)]
      simp only [sized, Phase.request]
  | @setFin key value _ named large =>
      cases queue
      cases during
      rw [parseRequest_onWire]
      exact parseRequest_flagKey key.noNul (strtok_isWord word) within rfl
  | @getAsk key =>
      cases queue
      cases during
      rw [parseRequest_onWire]
      exact parseRequest_flagKey key.noNul (strtok_isWord word) within rfl
  | @get key _ named =>
      cases queue
      cases during
      rw [parseRequest_onWire]
      exact parseRequest_flagKey key.noNul (strtok_isWord word) within rfl
  | @getFin key _ v named =>
      cases queue
      cases during
      rw [parseRequest_onWire]
      exact parseRequest_flagKey key.noNul (strtok_isWord word) within rfl
  | idle | setWait | setGranted | setRefused | setEagerDone | setRegion | setWrite | setDone |
    getWait | getGranted | getLost | getEagerSent | getEager | getSizeSent | getRegion |
    getRead | getDone => cases queue

end Parsing

end RdmaWiki
