import RdmaWiki.Completions

/-!
The server loop over its completion queues and buffers.

`serverLoop N` is `receive_query` repeated forever on `N` connections, with the
clients as its surroundings: a client may land a request in the buffer of its
connection and access the server's memory by RDMA at any time, and completions
appear on the queues at any time and in any order. The server polls the queues in
turn, calls `parse_data` on the buffer of the connection whose poll returned
something, and sends the replies one by one, each followed by a wait for its
completion. An ACK or NACK is written over the first byte of the buffer, which is
restored after the wait; any other reply is printed into the buffer.

The database is the server's own, so the effects of a handler are carried out when
it is called and only its sends are steps of their own.
-/

namespace RdmaWiki

open CText StepMachine

/-- Where the server is. -/
inductive ServerPc (N : ℕ)
  /-- `pp_wait_completions_clients` polls the queue of this connection next -/
  | polling (index : Fin N)
  /-- `parse_data` on the buffer of this connection next -/
  | parsing (c : Fin N)
  /-- replies of the handler still to be sent -/
  | sending (todo : List (Fin N × Reply))
  /-- inside the wait of a send to `c`, with the byte that `send_ACK` saved -/
  | waiting (c : Fin N) (first : Option UInt8) (todo : List (Fin N × Reply))
  | crashed
deriving DecidableEq

structure ServerState (N : ℕ) where
  conns : Fin N → Conn
  db : Database N
  mem : Mem
  prevIndex : Fin N
  pc : ServerPc N

inductive ServerAction (N : ℕ)
  /-- a request of `c` lands in the buffer -/
  | land (c : Fin N) (message : CString)
  /-- a client writes to the server's memory -/
  | rdmaWrite (addr : UInt64) (rkey : UInt32) (data : Bytes)
  | complete (c : Fin N) (wc : Wc)
  /-- `ibv_poll_cq` returns `n` completions -/
  | poll (n : ℕ)
  | parse (addr : UInt64) (rkey : UInt32)
  | send
deriving DecidableEq

inductive ServerEvent (N : ℕ)
  | landed (c : Fin N) (message : CString)
  /-- a call of `parse_data` and the text that it cuts apart -/
  | parsed (c : Fin N) (text : Bytes)
  | posted (c : Fin N) (reply : Reply)
deriving DecidableEq

variable {N : ℕ}

/-- The text of a buffer after `n` calls of `strtok`, which puts a NUL over the
delimiter that ends a token. -/
def strtokCut (delim : UInt8) : ℕ → Bytes → Bytes
  | 0, s => s
  | n + 1, s =>
    let skipped := s.takeWhile (· = delim)
    let rest := s.dropWhile (· = delim)
    match rest.dropWhile (· ≠ delim) with
    | [] => s
    | _ :: more => skipped ++ rest.takeWhile (· ≠ delim) ++ 0 :: strtokCut delim n more

/-- How often `parse_data` calls `strtok` on a text. -/
def strtokCalls (s : Bytes) : ℕ :=
  match strtok colon s with
  | none => 1
  | some (flagToken, _) =>
    match Flag.ofText flagToken with
    | none => 1
    | some .se => 3
    | some .sr => 3
    | some _ => 2

/-- What `parse_data` leaves of the buffer. -/
def Conn.cut (conn : Conn) : Conn :=
  let s := text conn.buf
  { conn with buf := writeFront (strtokCut colon (strtokCalls s) s) conn.buf }

/-- The server end of a reply: the buffer it is sent from, and the byte that
`send_ACK` and `send_NACK` save. -/
def Conn.send (conn : Conn) (reply : Reply) : Conn × Option UInt8 :=
  match reply with
  | .ack => ({ conn with buf := writeFront (ascii ['T']) conn.buf }.post, conn.buf.head?)
  | .nack => ({ conn with buf := writeFront (ascii ['F']) conn.buf }.post, conn.buf.head?)
  | .eager _ => ({ conn with buf := writeFront reply.bytes conn.buf }.post, none)
  | .size _ => ({ conn with buf := writeFront reply.bytes conn.buf }.post, none)
  | .region _ _ => ({ conn with buf := writeFront reply.bytes conn.buf }.post, none)

/-- The end of `send_ACK` and `send_NACK`. -/
def Conn.restore (conn : Conn) (first : Option UInt8) : Conn :=
  { conn with buf := writeFront first.toList conn.buf }

namespace ServerState

def setConn (s : ServerState N) (c : Fin N) (conn : Conn) : ServerState N :=
  { s with conns := Function.update s.conns c conn }

/-- One poll. The waits of the sends work on a copy of the context, so that their
`routs` is lost. -/
def poll [NeZero N] (s : ServerState N) (n : ℕ) : Option (ServerState N) :=
  match s.pc with
  | .polling index =>
    match (s.conns index).poll n with
    | none => none
    | some (batch, conn) =>
      match ppWaitCompletions 1 (.start conn.routs) [batch] with
      | none => some { s with pc := .polling (index + 1) }
      | some (wait, _) =>
        some { s.setConn index { conn with routs := wait.routs } with
          prevIndex := index
          pc := .parsing index }
  | .waiting c first todo =>
    match (s.conns c).poll n with
    | none => none
    | some (batch, conn) =>
      match ppWaitCompletions 1 (.start conn.routs) [batch] with
      | none => some s
      | some _ => some { s.setConn c (conn.restore first) with pc := .sending todo }
  | _ => none

/-- `parse_data` on the buffer of the connection whose completions were taken. -/
def parse (s : ServerState N) (addr : UInt64) (rkey : UInt32) :
    Option (ServerState N × List (ServerEvent N)) :=
  match s.pc with
  | .parsing c =>
    if (s.mem.block addr).isSome then none
    else
      let conn := s.conns c
      let events := [.parsed c (text conn.buf)]
      match parseData (.reliable N addr rkey) ⟨s.db, s.mem, []⟩ conn.buf c with
      | none => some ({ s.setConn c conn.cut with pc := .crashed }, events)
      | some (_, w) =>
        some ({ s.setConn c conn.cut with
          db := w.db
          mem := w.mem
          pc := .sending w.sent }, events)
  | _ => none

/-- The next reply, or the next `receive_query` when all are sent. -/
def send [NeZero N] (s : ServerState N) : Option (ServerState N × List (ServerEvent N)) :=
  match s.pc with
  | .sending [] => some ({ s with pc := .polling (s.prevIndex + 1) }, [])
  | .sending ((c, reply) :: todo) =>
    match (s.conns c).send reply with
    | (conn, first) =>
      some ({ s.setConn c conn with pc := .waiting c first todo }, [.posted c reply])
  | _ => none

def next [NeZero N] (s : ServerState N) :
    ServerAction N → Option (ServerState N × List (ServerEvent N))
  | .land c message =>
    if (onWire message.bytes).length ≤ bufSize then
      some (s.setConn c ((s.conns c).land (onWire message.bytes)), [.landed c message])
    else none
  | .rdmaWrite addr rkey data => some ({ s with mem := s.mem.rdmaWrite addr rkey data }, [])
  | .complete c wc => ((s.conns c).complete wc).map fun conn => (s.setConn c conn, [])
  | .poll n => (s.poll n).map fun s => (s, [])
  | .parse addr rkey => s.parse addr rkey
  | .send => s.send

/-- Every connection is open and nothing was sent. -/
def start (N : ℕ) [NeZero N] : ServerState N where
  conns := fun _ => .start true
  db := []
  mem := ⟨fun _ => none, fun _ => none⟩
  prevIndex := 0
  pc := .polling (0 + 1)

end ServerState

def serverLoop (N : ℕ) [NeZero N] : Machine (ServerState N) (ServerAction N) (ServerEvent N) where
  init := .start N
  next := ServerState.next

/-! ## What a step does -/

section Steps

variable {s s' : ServerState N} {n : ℕ} {events : List (ServerEvent N)}

@[simp] theorem ServerState.setConn_pc (s : ServerState N) (c : Fin N) (conn : Conn) :
    (s.setConn c conn).pc = s.pc := rfl

@[simp] theorem ServerState.setConn_self (s : ServerState N) (c : Fin N) (conn : Conn) :
    (s.setConn c conn).conns c = conn := Function.update_self ..

theorem ServerState.setConn_of_ne (s : ServerState N) {c d : Fin N} (other : d ≠ c)
    (conn : Conn) : (s.setConn c conn).conns d = s.conns d := Function.update_of_ne other ..

/-- What the changed end shares with the one before it is the same everywhere. -/
theorem ServerState.setConn_same {α : Type} (f : Conn → α) (s : ServerState N) {c : Fin N}
    {conn : Conn} (same : f conn = f (s.conns c)) (d : Fin N) :
    f ((s.setConn c conn).conns d) = f (s.conns d) := by
  rcases eq_or_ne d c with rfl | other
  · rw [s.setConn_self, same]
  · rw [s.setConn_of_ne other]

/-- A poll of `receive_query` counts what it finds on the handle, and a poll of the wait of a
send on a copy. -/
theorem ServerState.poll_takes [NeZero N] (polled : s.poll n = some s') :
    ∃ c batch conn, (s.conns c).poll n = some (batch, conn) ∧
      ((s.pc = .polling c ∧ (batch = [] ∧ s' = { s with pc := .polling (c + 1) } ∨
        batch ≠ [] ∧ s' = { s.setConn c { conn with
            routs := ((Wait.start conn.routs).absorb batch).routs } with
          prevIndex := c
          pc := .parsing c })) ∨
      ∃ first todo, s.pc = .waiting c first todo ∧ (batch = [] ∧ s' = s ∨
        batch ≠ [] ∧ s' = { s.setConn c (conn.restore first) with pc := .sending todo })) := by
  unfold ServerState.poll at polled
  split at polled
  next index here =>
    split at polled
    next => cases polled
    next batch conn taken =>
      refine ⟨index, batch, conn, taken, .inl ⟨here, ?_⟩⟩
      rw [ppWaitCompletions_poll] at polled
      rcases eq_or_ne batch [] with rfl | nonempty
      · cases polled
        exact .inl ⟨rfl, rfl⟩
      · rw [if_neg nonempty] at polled
        cases polled
        exact .inr ⟨nonempty, rfl⟩
  next c first todo here =>
    split at polled
    next => cases polled
    next batch conn taken =>
      refine ⟨c, batch, conn, taken, .inr ⟨first, todo, here, ?_⟩⟩
      rw [ppWaitCompletions_poll] at polled
      rcases eq_or_ne batch [] with rfl | nonempty
      · cases polled
        exact .inl ⟨rfl, rfl⟩
      · rw [if_neg nonempty] at polled
        cases polled
        exact .inr ⟨nonempty, rfl⟩
  next => cases polled

/-- A poll finds nothing, or a batch is taken for a call of `parse_data`, or a batch
ends the wait of a send. -/
theorem ServerState.poll_cases [NeZero N] (polled : s.poll n = some s') :
    (n = 0 ∧ (s' = s ∨
      ∃ index, s.pc = .polling index ∧ s' = { s with pc := .polling (index + 1) })) ∨
    (∃ index batch conn routs, s.pc = .polling index ∧
      (s.conns index).poll n = some (batch, conn) ∧ batch ≠ [] ∧
      s' = { s.setConn index { conn with routs := routs } with
        prevIndex := index
        pc := .parsing index }) ∨
    (∃ c first todo batch conn, s.pc = .waiting c first todo ∧
      (s.conns c).poll n = some (batch, conn) ∧ batch ≠ [] ∧
      s' = { s.setConn c (conn.restore first) with pc := .sending todo }) := by
  obtain ⟨c, batch, conn, taken, ends⟩ := ServerState.poll_takes polled
  have size : batch.length = n := (Conn.poll_counts taken).2.2.2
  rcases ends with ⟨here, ⟨rfl, rfl⟩ | ⟨nonempty, rfl⟩⟩ |
    ⟨first, todo, here, ⟨rfl, rfl⟩ | ⟨nonempty, rfl⟩⟩
  · exact .inl ⟨size.symm, .inr ⟨c, here, rfl⟩⟩
  · exact .inr (.inl ⟨c, batch, conn, _, here, taken, nonempty, rfl⟩)
  · exact .inl ⟨size.symm, .inl rfl⟩
  · exact .inr (.inr ⟨c, first, todo, batch, conn, here, taken, nonempty, rfl⟩)

/-- A call of `parse_data` cuts the buffer of the connection apart, and sends what the
handler wants to send, or crashes. -/
theorem ServerState.parse_cases {addr : UInt64} {rkey : UInt32}
    (parsed : s.parse addr rkey = some (s', events)) :
    ∃ c, s.pc = .parsing c ∧ events = [.parsed c (text (s.conns c).buf)] ∧
      s'.conns = (s.setConn c (s.conns c).cut).conns ∧
      (s'.pc = .crashed ∨ ∃ todo, s'.pc = .sending todo) := by
  unfold ServerState.parse at parsed
  split at parsed
  next c here =>
    split at parsed
    next => cases parsed
    next =>
      simp only at parsed
      split at parsed
      next =>
        cases parsed
        exact ⟨c, here, rfl, rfl, .inl rfl⟩
      next ret w handled =>
        cases parsed
        exact ⟨c, here, rfl, rfl, .inr ⟨w.sent, rfl⟩⟩
  next => cases parsed

/-- The server goes on to its next poll, or sends a reply. -/
theorem ServerState.send_cases [NeZero N] (sent : s.send = some (s', events)) :
    (s.pc = .sending [] ∧ events = [] ∧
      s' = { s with pc := .polling (s.prevIndex + 1) }) ∨
    (∃ c reply todo, s.pc = .sending ((c, reply) :: todo) ∧ events = [.posted c reply] ∧
      s' = { s.setConn c ((s.conns c).send reply).1 with
        pc := .waiting c ((s.conns c).send reply).2 todo }) := by
  unfold ServerState.send at sent
  split at sent
  next here =>
    cases sent
    exact .inl ⟨here, rfl, rfl⟩
  next c reply todo here =>
    cases sent
    exact .inr ⟨c, reply, todo, here, rfl, rfl⟩
  next => cases sent

theorem Conn.send_counts (conn : Conn) (reply : Reply) :
    (conn.send reply).1.sends = conn.sends + 1 ∧ (conn.send reply).1.recvs = conn.recvs := by
  cases reply <;> exact ⟨Nat.add_right_comm .., rfl⟩

end Steps

/-! ## Messages and calls -/

/-- The messages of `c`, oldest first. -/
def arrivals (c : Fin N) (trace : List (ServerEvent N)) : List Bytes :=
  trace.filterMap fun
    | .landed d message => if d = c then some message.bytes else none
    | _ => none

/-- The texts of the calls of `parse_data` for `c`, oldest first. -/
def parseCalls (c : Fin N) (trace : List (ServerEvent N)) : List Bytes :=
  trace.filterMap fun
    | .parsed d text => if d = c then some text else none
    | _ => none

/-- The ask of a set of `keyK`, as the client formats it. -/
def askText : CString := ⟨text (flagKey .as keyK.bytes), by decide⟩

/-- The eager set of `keyK` to `valueV`, as the client formats it. -/
def setText : CString := ⟨text (flagKeyText .se keyK.bytes valueV.bytes), by decide⟩

/-- Client 0 asks to set, and the server posts the ACK. -/
def ackPosted : List (ServerAction numClients) :=
  [.land 0 askText, .complete 0 .recv, .poll 0, .poll 1, .parse 0 0, .send]

section Calls

variable (c d : Fin N) (message : CString) (body : Bytes) (reply : Reply)

@[simp] theorem arrivals_append (trace events : List (ServerEvent N)) :
    arrivals c (trace ++ events) = arrivals c trace ++ arrivals c events :=
  List.filterMap_append

@[simp] theorem parseCalls_append (trace events : List (ServerEvent N)) :
    parseCalls c (trace ++ events) = parseCalls c trace ++ parseCalls c events :=
  List.filterMap_append

@[simp] theorem arrivals_landed :
    arrivals c [.landed d message] = if d = c then [message.bytes] else [] := by
  rcases eq_or_ne d c with rfl | other <;> simp [arrivals, *]

@[simp] theorem arrivals_parsed : arrivals c [.parsed d body] = [] := rfl

@[simp] theorem arrivals_posted : arrivals c [.posted d reply] = [] := rfl

@[simp] theorem parseCalls_landed : parseCalls c [.landed d message] = [] := rfl

@[simp] theorem parseCalls_parsed :
    parseCalls c [.parsed d body] = if d = c then [body] else [] := by
  rcases eq_or_ne d c with rfl | other <;> simp [parseCalls, *]

@[simp] theorem parseCalls_posted : parseCalls c [.posted d reply] = [] := rfl

theorem arrivals_noNul {trace : List (ServerEvent N)} (arrived : body ∈ arrivals c trace) :
    (0 : UInt8) ∉ body := by
  obtain ⟨event, -, found⟩ := List.mem_filterMap.mp arrived
  split at found
  next d message =>
    split at found
    next =>
      cases found
      exact message.noNul
    next => cases found
  next => cases found

end Calls

end RdmaWiki
