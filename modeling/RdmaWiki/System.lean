import RdmaWiki.ReplyBytes
import RdmaWiki.RequestBytes
import RdmaWiki.Refinement

/-!
The clients and the server together.

`system N` puts `N` client loops and the server loop side by side, and each of them is what the
others have around them. A request that a client posts is on its way until it lands in the buffer
of its connection, and a reply that the server posts until it lands in the buffer of its client.
An RDMA operation meets the server's memory at any moment between its posting and the end of its
wait. Completions appear and polls are made as in the two loops. No library call and no work
request fails, `malloc` returns zeroed memory, and the adapter lets every queue pair use the key
of a region.

Every part of a run of the system is a run of its loop (`client_of_run`, `server_of_run`).
-/

namespace RdmaWiki

open CText StepMachine

/-- The queues are in order of posting, the oldest first. -/
structure SystemState (N : ℕ) where
  clients : Fin N → ClientState
  server : ServerState N
  /-- requests that have not landed -/
  requests : Fin N → List Bytes
  /-- replies that have not landed -/
  replies : Fin N → List Reply
  /-- the server's memory as it was when the RDMA operation of a client took place -/
  met : Fin N → Option Mem

inductive SystemAction (N : ℕ)
  | invoke (c : Fin N) (call : Call)
  /-- the next step of a client outside its waits -/
  | step (c : Fin N)
  | pollClient (c : Fin N) (n : ℕ)
  | completeClient (c : Fin N) (wc : Wc)
  /-- the RDMA operation that a client has posted takes place -/
  | transfer (c : Fin N)
  | landReply (c : Fin N)
  | landRequest (c : Fin N)
  | completeServer (c : Fin N) (wc : Wc)
  | pollServer (n : ℕ)
  | parse (addr : UInt64) (rkey : UInt32)
  | send
deriving DecidableEq

inductive SystemEvent (N : ℕ)
  | invoked (c : Fin N) (call : Call)
  | client (c : Fin N) (event : ClientEvent)
  | server (event : ServerEvent N)
deriving DecidableEq

variable {N : ℕ}

/-- The server's memory after the RDMA operation of a phase. -/
def Phase.transfer (mem : Mem) : Phase → Option Mem
  | .setWrite _ value rkey addr => some (mem.rdmaWrite addr rkey value.bytes)
  | .getRead _ _ _ _ => some mem
  | _ => none

/-- The string that a request is. -/
def requestText (request : Bytes) : CString := ⟨text request, text_noNul request⟩

/-- The replies to `c` that are posted, oldest first. -/
def postedTo (c : Fin N) (events : List (ServerEvent N)) : List Reply :=
  events.filterMap fun
    | .posted d reply => if d = c then some reply else none
    | _ => none

namespace SystemState

/-- The client goes on, and what it has posted is on its way. -/
def putClient (s : SystemState N) (c : Fin N) (cl : ClientState) (requests : List Bytes) :
    SystemState N :=
  { s with
    clients := Function.update s.clients c cl
    requests := Function.update s.requests c (s.requests c ++ requests) }

/-- A step of a client that sends nothing. -/
def nextClient (s : SystemState N) (c : Fin N) (action : ClientAction) :
    Option (SystemState N × List (SystemEvent N)) :=
  ((s.clients c).next action).map fun (cl, events) =>
    (s.putClient c cl [], events.map (.client c))

/-- A step of a client outside its waits. It goes on after an RDMA operation with what this has
met. -/
def step (s : SystemState N) (c : Fin N) : Option (SystemState N × List (SystemEvent N)) :=
  let cl := s.clients c
  if cl.stage = .reading ∧ cl.phase.wants = [] ∧ s.met c = none then none
  else
    (cl.next (.step ((s.met c).getD s.server.mem))).map fun (cl', events) =>
      ({ s.putClient c cl' cl.stage.requests with met := Function.update s.met c none },
        events.map (.client c))

def transfer (s : SystemState N) (c : Fin N) : Option (SystemState N × List (SystemEvent N)) :=
  let cl := s.clients c
  if (cl.stage = .posted ∨ cl.stage = .reading) ∧ s.met c = none then
    (cl.phase.transfer s.server.mem).map fun mem =>
      ({ s with
        server := { s.server with mem := mem }
        met := Function.update s.met c (some s.server.mem) }, [])
  else none

def landReply (s : SystemState N) (c : Fin N) : Option (SystemState N × List (SystemEvent N)) :=
  match s.replies c with
  | [] => none
  | reply :: rest =>
    { s with replies := Function.update s.replies c rest }.nextClient c (.land reply)

/-- A step of the server. The replies that it posts are on their way. -/
def nextServer [NeZero N] (s : SystemState N) (action : ServerAction N) :
    Option (SystemState N × List (SystemEvent N)) :=
  (s.server.next action).map fun (server, events) =>
    ({ s with
      server := server
      replies := fun c => s.replies c ++ postedTo c events }, events.map .server)

def landRequest [NeZero N] (s : SystemState N) (c : Fin N) :
    Option (SystemState N × List (SystemEvent N)) :=
  match s.requests c with
  | [] => none
  | request :: rest =>
    { s with requests := Function.update s.requests c rest }.nextServer
      (.land c (requestText request))

def next [NeZero N] (s : SystemState N) :
    SystemAction N → Option (SystemState N × List (SystemEvent N))
  | .invoke c call =>
    (s.nextClient c (.invoke call)).map fun (s, events) => (s, .invoked c call :: events)
  | .step c => s.step c
  | .pollClient c n => s.nextClient c (.poll n)
  | .completeClient c wc => s.nextClient c (.complete wc)
  | .transfer c => s.transfer c
  | .landReply c => s.landReply c
  | .landRequest c => s.landRequest c
  | .completeServer c wc => s.nextServer (.complete c wc)
  | .pollServer n => s.nextServer (.poll n)
  | .parse addr rkey => s.nextServer (.parse addr rkey)
  | .send => s.nextServer .send

/-- Every connection is open and nothing was sent. -/
def start (N : ℕ) [NeZero N] : SystemState N where
  clients := fun _ => clientLoop.init
  server := .start N
  requests := fun _ => []
  replies := fun _ => []
  met := fun _ => none

end SystemState

def system (N : ℕ) [NeZero N] : Machine (SystemState N) (SystemAction N) (SystemEvent N) where
  init := .start N
  next := SystemState.next

/-! ## The parts of a run -/

/-- The events of `c`. -/
def clientTrace (c : Fin N) (trace : List (SystemEvent N)) : List ClientEvent :=
  trace.filterMap fun
    | .client d event => if d = c then some event else none
    | _ => none

/-- The events of the server. -/
def serverTrace (trace : List (SystemEvent N)) : List (ServerEvent N) :=
  trace.filterMap fun
    | .server event => some event
    | _ => none

/-! ## The message level -/

/-- The replies that the server has still to post. -/
def ServerPc.todo : ServerPc N → List (Fin N × Reply)
  | .sending todo => todo
  | .waiting _ _ todo => todo
  | _ => []

/-- The message-level client. It has gone on once its RDMA operation has taken place. -/
def SystemState.client (s : SystemState N) (c : Fin N) : Client :=
  let cl := (s.clients c).client
  match s.met c with
  | none => cl
  | some mem =>
    match cl.proceed mem with
    | none => cl
    | some (cl', _, _) => cl'

/-- The message-level state: a request that has landed is in the queue of its client until it is
parsed, and a reply that is on its way or still to be posted is in its queue, too. -/
def SystemState.config (trace : List (SystemEvent N)) (s : SystemState N) : Config N where
  clients := fun c =>
    { phase := (s.client c).phase
      requests := (unread c (serverTrace trace)).map onWire ++ s.requests c ++
        (s.client c).requests
      replies := (s.client c).replies ++ s.replies c ++ sentTo c s.server.pc.todo }
  db := s.server.db
  mem := s.server.mem
  up := s.server.pc ≠ .crashed

/-- What an observer sees of the message level: the calls and their results. -/
def Event.visible : Event N → Option (Fin N × Call × Option Result)
  | .inv c call => some (c, call, none)
  | .res c call result => some (c, call, some result)
  | .wokenGet _ _ => none

/-- The same of the system. -/
def SystemEvent.visible : SystemEvent N → Option (Fin N × Call × Option Result)
  | .invoked c call => some (c, call, none)
  | .client c (.returned call result) => some (c, call, some result)
  | _ => none

/-! ## Schedules -/

/-- The conditions of the two loops, a condition on the calls and one on what is handled. -/
def orderly (P : Call → Prop) (Q : Config N → Fin N → Prop) :
    Guard (SystemState N) (SystemAction N) (SystemEvent N)
  | _, _, .invoke _ call => P call
  | _, s, .landReply c => (s.clients c).landed.length ≤ (s.clients c).turn
  | trace, s, .landRequest c =>
    ∀ request ∈ (s.requests c).head?,
      bufferKept (serverTrace trace) s.server (.land c (requestText request))
  | trace, s, .parse addr rkey =>
    bufferKept (serverTrace trace) s.server (.parse addr rkey) ∧
      ∀ c, s.server.pc = .parsing c → Q (s.config trace) c
  | trace, s, .send => bufferKept (serverTrace trace) s.server .send
  | _, _, _ => True

instance {P : Call → Prop} {Q : Config N → Fin N → Prop} [DecidablePred P]
    [∀ cfg, DecidablePred (Q cfg)] (trace : List (SystemEvent N)) (s : SystemState N)
    (action : SystemAction N) : Decidable (orderly P Q trace s action) := by
  unfold orderly
  split <;> infer_instance

/-- The two conditions on the message level. -/
def asking (P : Call → Prop) (Q : Config N → Fin N → Prop) :
    Guard (Config N) (Action N) (Event N)
  | _, _, .invoke _ call => P call
  | _, _, .proceed _ => True
  | _, cfg, .serve c _ _ => Q cfg c

/-! ## What a step does -/

section Steps

variable (c d : Fin N) (trace events : List (SystemEvent N)) (call : Call)
  (own : List ClientEvent) (shown : List (ServerEvent N))

@[simp] theorem clientTrace_append :
    clientTrace c (trace ++ events) = clientTrace c trace ++ clientTrace c events :=
  List.filterMap_append

@[simp] theorem serverTrace_append :
    serverTrace (trace ++ events) = serverTrace trace ++ serverTrace events :=
  List.filterMap_append

@[simp] theorem clientTrace_invoked :
    clientTrace c (.invoked d call :: events) = clientTrace c events := rfl

@[simp] theorem serverTrace_invoked :
    serverTrace (.invoked d call :: events) = serverTrace events := rfl

@[simp] theorem clientTrace_client :
    clientTrace c (own.map (SystemEvent.client c)) = own := by
  simp [clientTrace, List.filterMap_map]

theorem clientTrace_client_of_ne {c d : Fin N} (other : d ≠ c) (own : List ClientEvent) :
    clientTrace c (own.map (SystemEvent.client d)) = [] := by
  simp [clientTrace, List.filterMap_map, other]

@[simp] theorem serverTrace_client : serverTrace (own.map (SystemEvent.client c)) = [] := by
  simp [serverTrace, List.filterMap_map]

@[simp] theorem clientTrace_server : clientTrace c (shown.map SystemEvent.server) = [] := by
  simp [clientTrace, List.filterMap_map]

@[simp] theorem serverTrace_server : serverTrace (shown.map SystemEvent.server) = shown := by
  simp [serverTrace, List.filterMap_map]

end Steps

end RdmaWiki
