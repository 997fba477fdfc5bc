import RdmaWiki.Completions

/-!
One client over its completion queue and its buffer.

`clientLoop` runs `kv_set` and `kv_get` on one connection, with the server as its
surroundings: the server answers every request in order, with a reply of the form
that the request asks for, and a reply lands in `ctx->buf` at any time after the
request is sent; completions appear on the queue at any time and in any order. A call
formats its requests into `ctx->buf`, waits for the completion of each send and RDMA
operation, waits for each reply, and then looks at `ctx->buf`.

What a call does with a reply is `Client.proceed`; this machine gives it the reply
that the client makes of its buffer. Of the two NULs that `sprintf` puts behind a
request, the buffer gets one.
-/

namespace RdmaWiki

open CText StepMachine

/-- Where a client is inside a phase of its call. -/
inductive ClientStage
  /-- no call in progress -/
  | rest
  /-- format a request and send it -/
  | post (request : Bytes)
  /-- post the RDMA operation -/
  | rdma
  /-- in the wait for the send or the RDMA operation -/
  | posted
  /-- in the wait for a reply -/
  | awaiting
  /-- after the last wait of the phase -/
  | reading
  /-- a conversion failed, and the call goes on with an uninitialised variable -/
  | lost
deriving DecidableEq

/-- A reply that the server owes. -/
inductive Owed
  /-- to `as` -/
  | answer
  | ack
  | region
  /-- to `g0`, with the reply that follows it -/
  | value
deriving DecidableEq

/-- `conn.routs` stays as it is, since the calls wait on copies of the context. `landed`
are the replies so far, and `turn` of them were meant for waits that are over. -/
structure ClientState where
  phase : Phase
  stage : ClientStage
  conn : Conn
  owed : List Owed
  landed : List Reply
  turn : ℕ

inductive ClientAction
  | invoke (call : Call)
  /-- the next step outside the waits; an RDMA read sees the server's memory -/
  | step (mem : Mem)
  | land (reply : Reply)
  | complete (wc : Wc)
  /-- `ibv_poll_cq` returns `n` completions -/
  | poll (n : ℕ)

inductive ClientEvent
  /-- a wait is over and took this many completions -/
  | took (n : ℕ)
  /-- the client looks at its buffer for the reply that is meant for this step -/
  | read (phase : Phase) (reply : Option Reply) (buf : Bytes)
  | returned (call : Call) (result : Result)
deriving DecidableEq

/-- The replies that a phase waits for, and the one that follows an answer to `g0`. -/
def Phase.wants : Phase → List Owed
  | .idle => []
  | .setAsk _ _ => [.answer]
  | .setEager _ _ => [.ack]
  | .setRendezvous _ _ => [.region]
  | .setWrite _ _ _ _ => []
  | .setFin _ _ => [.ack]
  | .getAsk _ => [.ack]
  | .get _ => [.value]
  | .getEager _ _ => [.ack]
  | .getRendezvous _ _ => [.region]
  | .getRead _ _ _ _ => []
  | .getFin _ _ => [.ack]

/-- What the server still owes after a reply, if that reply is due. A size is an `int`
that is not negative. -/
def answer : List Owed → Reply → Option (List Owed)
  | .answer :: rest, .ack => some rest
  | .answer :: rest, .nack => some rest
  | .ack :: rest, .ack => some rest
  | .region :: rest, .region _ _ => some rest
  | .value :: rest, .eager v => if (0 : UInt8) ∈ v then none else some (.ack :: rest)
  | .value :: rest, .size n => if 0 ≤ n ∧ n < 2 ^ 31 then some (.region :: rest) else none
  | _, _ => none

/-- A due reply settles what is owed first, or half of it. -/
theorem answer_cases {owed owed' : List Owed} {reply : Reply}
    (answers : answer owed reply = some owed') :
    ∃ first rest, owed = first :: rest ∧
      ((first = .answer ∧ (reply = .ack ∨ reply = .nack) ∧ owed' = rest) ∨
      (first = .ack ∧ reply = .ack ∧ owed' = rest) ∨
      (first = .region ∧ (∃ rkey addr, reply = .region rkey addr) ∧ owed' = rest) ∨
      (first = .value ∧ (∃ v, reply = .eager v ∧ (0 : UInt8) ∉ v) ∧ owed' = .ack :: rest) ∨
      (first = .value ∧ (∃ n, reply = .size n ∧ 0 ≤ n ∧ n < 2 ^ 31) ∧
        owed' = .region :: rest)) := by
  unfold answer at answers
  split at answers
  next rest =>
    cases answers
    exact ⟨_, _, rfl, .inl ⟨rfl, .inl rfl, rfl⟩⟩
  next rest =>
    cases answers
    exact ⟨_, _, rfl, .inl ⟨rfl, .inr rfl, rfl⟩⟩
  next rest =>
    cases answers
    exact ⟨_, _, rfl, .inr (.inl ⟨rfl, rfl, rfl⟩)⟩
  next rest rkey addr =>
    cases answers
    exact ⟨_, _, rfl, .inr (.inr (.inl ⟨rfl, ⟨rkey, addr, rfl⟩, rfl⟩))⟩
  next rest v =>
    split at answers
    next => cases answers
    next noNul =>
      cases answers
      exact ⟨_, _, rfl, .inr (.inr (.inr (.inl ⟨rfl, ⟨v, rfl, noNul⟩, rfl⟩)))⟩
  next rest n =>
    split at answers
    next bounds =>
      cases answers
      exact ⟨_, _, rfl, .inr (.inr (.inr (.inr ⟨rfl, ⟨n, rfl, bounds⟩, rfl⟩)))⟩
    next => cases answers
  next => cases answers

/-! ## Looking at the buffer -/

/-- `sscanf(buf, "%u:%lu", &rkey, &r_addr)`, if it sets both. -/
def readRegion (s : Bytes) : Option Reply :=
  match scanUlong s with
  | none => none
  | some (rkey, rest) =>
    match rest with
    | [] => none
    | c :: rest =>
      if c = colon then (scanUlong rest).map fun found => .region rkey.toUInt32 found.1
      else none

/-- `sscanf(buf, "r:%d", &size)`, if it sets the size. -/
def readSize (s : Bytes) : Option Reply :=
  if s.take 2 = ascii ['r', ':'] then
    (scanInt (s.drop 2)).map fun found => .size (longToInt found.1)
  else none

/-- Whether the client looks at the buffer after the wait of a phase. -/
def Phase.looks : Phase → Bool
  | .setAsk _ _ => true
  | .setRendezvous _ _ => true
  | .get _ => true
  | .getRendezvous _ _ => true
  | _ => false

/-- The reply that the client makes of its buffer. Where it does not look, the reply
makes no difference. -/
def Phase.reads (phase : Phase) (buf : Bytes) : Option Reply :=
  match phase with
  | .setAsk _ _ => if buf.head? = some 'F'.toUInt8 then some .nack else some .ack
  | .setRendezvous _ _ => readRegion (text buf)
  | .get _ =>
    if buf.head? = some 'e'.toUInt8 then some (.eager (text (buf.drop 2)))
    else readSize (text buf)
  | .getRendezvous _ _ => readRegion (text buf)
  | _ => some .ack

/-! ## Steps -/

/-- How a phase starts, given the request that it sends. -/
def Phase.enter (phase : Phase) (requests : List Bytes) : ClientStage :=
  match requests with
  | request :: _ => .post request
  | [] =>
    match phase with
    | .idle => .rest
    | .setWrite _ _ _ _ => .rdma
    | .getRead _ _ _ _ => .rdma
    | _ => .awaiting

/-- The request that a phase starts with. -/
def ClientStage.requests : ClientStage → List Bytes
  | .post request => [request]
  | _ => []

/-- After a phase the call has consumed the reply that the phase waited for, if any. After
an answer to `g0` it waits for a second reply; else it is over, or sends a request, or is
at an RDMA operation. -/
theorem proceed_cases {phase : Phase} {replies : List Reply} {mem mem' : Mem} {cl : Client}
    {results : List (Call × Result)}
    (went : Client.proceed ⟨phase, [], replies⟩ mem = some (cl, mem', results)) :
    cl.requests = (cl.phase.enter cl.requests).requests ∧
    (phase.wants = [] ∧ cl.replies = replies ∨
      phase.wants ≠ [] ∧ ∃ reply, replies = reply :: cl.replies) ∧
    (phase.wants = [.value] ∧ cl.phase.enter cl.requests = .awaiting ∧
        ((∃ v, replies.head? = some (.eager v)) ∧ cl.phase.wants = [.ack] ∨
          (∃ n, replies.head? = some (.size n)) ∧ cl.phase.wants = [.region]) ∨
      phase.wants ≠ [.value] ∧ (cl.phase.enter cl.requests = .rest ∨
        (∃ request, cl.phase.enter cl.requests = .post request) ∨
        cl.phase.enter cl.requests = .rdma ∧ cl.phase.wants = [])) := by
  cases phase with
  | idle => cases replies <;> cases went
  | setAsk key value =>
      cases replies with
      | nil => cases went
      | cons reply rest =>
          simp only [Client.proceed] at went
          split at went
          next =>
            cases went
            exact ⟨rfl, .inr ⟨by simp [Phase.wants], _, rfl⟩,
              .inr ⟨by simp [Phase.wants], .inl rfl⟩⟩
          next =>
            split at went <;>
            · cases went
              exact ⟨rfl, .inr ⟨by simp [Phase.wants], _, rfl⟩,
                .inr ⟨by simp [Phase.wants], .inr (.inl ⟨_, rfl⟩)⟩⟩
  | setWrite key value rkey addr =>
      cases went
      exact ⟨rfl, .inl ⟨rfl, rfl⟩, .inr ⟨by simp [Phase.wants], .inr (.inl ⟨_, rfl⟩)⟩⟩
  | getRead key size rkey addr =>
      cases went
      exact ⟨rfl, .inl ⟨rfl, rfl⟩, .inr ⟨by simp [Phase.wants], .inr (.inl ⟨_, rfl⟩)⟩⟩
  | get key =>
      rcases replies with _ | ⟨_ | _ | v | n | _, rest⟩ <;> cases went
      · exact ⟨rfl, .inr ⟨by simp [Phase.wants], _, rfl⟩, .inl ⟨rfl, rfl, .inl ⟨⟨v, rfl⟩, rfl⟩⟩⟩
      · exact ⟨rfl, .inr ⟨by simp [Phase.wants], _, rfl⟩, .inl ⟨rfl, rfl, .inr ⟨⟨n, rfl⟩, rfl⟩⟩⟩
  | setRendezvous key value =>
      rcases replies with _ | ⟨_ | _ | _ | _ | _, rest⟩ <;> cases went
      exact ⟨rfl, .inr ⟨by simp [Phase.wants], _, rfl⟩,
        .inr ⟨by simp [Phase.wants], .inr (.inr ⟨rfl, rfl⟩)⟩⟩
  | getRendezvous key size =>
      rcases replies with _ | ⟨_ | _ | _ | _ | _, rest⟩ <;> cases went
      exact ⟨rfl, .inr ⟨by simp [Phase.wants], _, rfl⟩,
        .inr ⟨by simp [Phase.wants], .inr (.inr ⟨rfl, rfl⟩)⟩⟩
  | getAsk key =>
      cases replies <;> cases went
      exact ⟨rfl, .inr ⟨by simp [Phase.wants], _, rfl⟩,
        .inr ⟨by simp [Phase.wants], .inr (.inl ⟨_, rfl⟩)⟩⟩
  | setEager key value =>
      cases replies <;> cases went
      exact ⟨rfl, .inr ⟨by simp [Phase.wants], _, rfl⟩, .inr ⟨by simp [Phase.wants], .inl rfl⟩⟩
  | setFin key value =>
      cases replies <;> cases went
      exact ⟨rfl, .inr ⟨by simp [Phase.wants], _, rfl⟩, .inr ⟨by simp [Phase.wants], .inl rfl⟩⟩
  | getEager key v =>
      cases replies <;> cases went
      exact ⟨rfl, .inr ⟨by simp [Phase.wants], _, rfl⟩, .inr ⟨by simp [Phase.wants], .inl rfl⟩⟩
  | getFin key v =>
      cases replies <;> cases went
      exact ⟨rfl, .inr ⟨by simp [Phase.wants], _, rfl⟩, .inr ⟨by simp [Phase.wants], .inl rfl⟩⟩

namespace ClientState

/-- The call goes on with the phase of `cl`. -/
def advance (s : ClientState) (cl : Client) : ClientState :=
  { s with phase := cl.phase, stage := cl.phase.enter cl.requests }

def invoke (s : ClientState) (call : Call) : Option (ClientState × List ClientEvent) :=
  if s.stage = .rest ∧ call.fits then some (s.advance (Client.invoke ⟨.idle, [], []⟩ call), [])
  else none

/-- The end of a phase: look at the buffer, if the phase has waited for a reply. -/
def finish (s : ClientState) (mem : Mem) : Option (ClientState × List ClientEvent) :=
  if s.phase.wants = [] then
    match Client.proceed ⟨s.phase, [], []⟩ mem with
    | none => none
    | some (cl, _, results) =>
      some (s.advance cl, results.map fun (call, result) => .returned call result)
  else
    let looked := if s.phase.looks then
      [.read s.phase s.landed[s.turn]? s.conn.buf] else []
    match s.phase.reads s.conn.buf with
    | none => some ({ s with stage := .lost }, looked)
    | some reply =>
      match Client.proceed ⟨s.phase, [], [reply]⟩ mem with
      | none => none
      | some (cl, _, results) =>
        some ({ s.advance cl with turn := s.turn + 1 },
          looked ++ results.map fun (call, result) => .returned call result)

def step (s : ClientState) (mem : Mem) : Option (ClientState × List ClientEvent) :=
  match s.stage with
  | .post request =>
    some ({ s with
      stage := .posted
      conn := { s.conn with buf := writeFront request s.conn.buf }.post
      owed := s.owed ++ s.phase.wants }, [])
  | .rdma => some ({ s with stage := .posted, conn := s.conn.post }, [])
  | .reading => s.finish mem
  | _ => none

/-- One poll of a wait. -/
def poll (s : ClientState) (n : ℕ) : Option (ClientState × List ClientEvent) :=
  if s.stage = .posted ∨ s.stage = .awaiting then
    match s.conn.poll n with
    | none => none
    | some (batch, conn) =>
      match ppWaitCompletions 1 (.start conn.routs) [batch] with
      | none => some (s, [])
      | some _ =>
        some ({ s with
          conn := conn
          stage := if s.stage = .posted ∧ s.phase.wants ≠ [] then .awaiting else .reading },
          [.took n])
  else none

def next (s : ClientState) : ClientAction → Option (ClientState × List ClientEvent)
  | .invoke call => s.invoke call
  | .step mem => s.step mem
  | .land reply =>
    if reply.bytes.length ≤ bufSize then
      (answer s.owed reply).map fun owed =>
        ({ s with
          conn := s.conn.land reply.bytes
          owed := owed
          landed := s.landed ++ [reply] }, [])
    else none
  | .complete wc => (s.conn.complete wc).map fun conn => ({ s with conn := conn }, [])
  | .poll n => s.poll n

/-- One poll: it finds nothing, or it ends the wait. -/
theorem poll_cases {s s' : ClientState} {n : ℕ} {events : List ClientEvent}
    (polled : s.poll n = some (s', events)) :
    (s.stage = .posted ∨ s.stage = .awaiting) ∧
      ((s' = s ∧ events = []) ∨
      ∃ batch conn, s.conn.poll n = some (batch, conn) ∧ batch ≠ [] ∧ events = [.took n] ∧
        s' = { s with
          conn := conn
          stage := if s.stage = .posted ∧ s.phase.wants ≠ [] then .awaiting else .reading }) := by
  unfold poll at polled
  split at polled
  next waits =>
    refine ⟨waits, ?_⟩
    split at polled
    next => cases polled
    next batch conn taken =>
      rw [ppWaitCompletions_poll] at polled
      rcases eq_or_ne batch [] with rfl | nonempty
      · cases polled
        exact .inl ⟨rfl, rfl⟩
      · rw [if_neg nonempty] at polled
        cases polled
        exact .inr ⟨batch, conn, taken, nonempty, rfl, rfl⟩
  next => cases polled

/-- The end of a phase: an RDMA phase goes on, a reply is not understood, or the call
goes on with what it made of the buffer. -/
theorem finish_cases {s s' : ClientState} {mem : Mem} {events : List ClientEvent}
    (finished : s.finish mem = some (s', events)) :
    (s.phase.wants = [] ∧ ∃ cl mem' results,
      Client.proceed ⟨s.phase, [], []⟩ mem = some (cl, mem', results) ∧ s' = s.advance cl ∧
      events = results.map fun (call, result) => .returned call result) ∨
    (s.phase.wants ≠ [] ∧ ∃ looked,
      looked = (if s.phase.looks then
        [ClientEvent.read s.phase s.landed[s.turn]? s.conn.buf] else []) ∧
      ((s.phase.reads s.conn.buf = none ∧ s' = { s with stage := .lost } ∧ events = looked) ∨
      ∃ reply cl mem' results, s.phase.reads s.conn.buf = some reply ∧
        Client.proceed ⟨s.phase, [], [reply]⟩ mem = some (cl, mem', results) ∧
        s' = { s.advance cl with turn := s.turn + 1 } ∧
        events = looked ++ results.map fun (call, result) => .returned call result)) := by
  unfold finish at finished
  split at finished
  next empty =>
    split at finished
    next => cases finished
    next cl mem' results went =>
      cases finished
      exact .inl ⟨empty, cl, mem', results, went, rfl, rfl⟩
  next wants =>
    simp only at finished
    refine .inr ⟨wants, _, rfl, ?_⟩
    split at finished
    next unread =>
      cases finished
      exact .inl ⟨unread, rfl, rfl⟩
    next reply read =>
      split at finished
      next => cases finished
      next cl mem' results went =>
        cases finished
        exact .inr ⟨reply, cl, mem', results, read, went, rfl, rfl⟩

end ClientState

/-- An open connection. -/
def clientLoop : Machine ClientState ClientAction ClientEvent where
  init := ⟨.idle, .rest, .start false, [], [], 0⟩
  next := ClientState.next

/-- A server without values. -/
def emptyHeap : Mem := ⟨fun _ => none, fun _ => none⟩

end RdmaWiki
