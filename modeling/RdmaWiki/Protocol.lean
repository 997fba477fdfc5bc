import RdmaWiki.Handled
import RdmaWiki.Lib.StepMachine

/-!
The message-level protocol: `N` clients running `kv_set` and `kv_get` calls
against the server.

Every wait of a client is paired with the message it is meant for, each client
has a FIFO queue of requests to the server and one of replies back, and the
server handles one request at a time with `parseData`. A client's RDMA write
and RDMA read are steps of their own and act directly on the server's heap.
`protocol N` is the resulting machine; its actions are a new call, the next
step of a client's call, and the handling of a client's oldest request. No library call
and no work request fails, and `malloc` returns zeroed memory at any address that is
not in use (`Env.reliable`). A call whose texts do not fit the
client's buffers has no defined behaviour, so it has no step here.
-/

namespace RdmaWiki

open CText StepMachine

/-- `NUM_CLIENTS` as the source configures it. -/
abbrev numClients : ℕ := 2

instance : NeZero numClients := ⟨Nat.succ_ne_zero 1⟩

/-- An API call. -/
inductive Call
  | kvSet (key value : CString)
  | kvGet (key : CString)
deriving DecidableEq

def Call.key : Call → CString
  | .kvSet key _ => key
  | .kvGet key => key

/-- The mode choice of `kv_set`. -/
def isEager (value : Bytes) : Bool := value.length < 4 * KB - 3

/-- The bytes of `ctx->buf`. -/
def bufSize : ℕ := 4 * KB

/-- Every text that the call formats stays inside its buffer: `ctx->buf`, and ten
bytes for the length text. -/
def Call.fits : Call → Bool
  | .kvGet key => (flagKey .ag key.bytes).length ≤ bufSize
  | .kvSet key value =>
    (flagKey .as key.bytes).length ≤ bufSize &&
      if isEager value.bytes then
        (flagKeyText .se key.bytes value.bytes).length ≤ bufSize
      else
        (flagKeyText .sr key.bytes (sizeText value.bytes)).length ≤ bufSize &&
          (sizeText value.bytes).length + 1 ≤ 10

/-- What a call returns: a set was carried out or answered `F` (`kv_set` returns
`EXIT_SUCCESS` for both), a get produced a string. -/
inductive Result
  | stored
  | refused
  | value (v : Bytes)
deriving DecidableEq

/-- Where a client is inside its call: the wait or the RDMA operation it has
reached. -/
inductive Phase
  | idle
  /-- `as` sent -/
  | setAsk (key value : CString)
  /-- `se` sent -/
  | setEager (key value : CString)
  /-- `sr` sent -/
  | setRendezvous (key value : CString)
  /-- descriptor read, RDMA write next -/
  | setWrite (key value : CString) (rkey : UInt32) (addr : UInt64)
  /-- `fs` sent -/
  | setFin (key value : CString)
  /-- `ag` sent -/
  | getAsk (key : CString)
  /-- `g0` sent -/
  | get (key : CString)
  /-- value received eagerly, final ACK next -/
  | getEager (key : CString) (v : Bytes)
  /-- size received, descriptor next -/
  | getRendezvous (key : CString) (size : Int)
  /-- descriptor read, RDMA read next -/
  | getRead (key : CString) (size : Int) (rkey : UInt32) (addr : UInt64)
  /-- `fg` sent -/
  | getFin (key : CString) (v : Bytes)
deriving DecidableEq

/-- A client: its phase, its requests not yet handled and the replies it has not
yet consumed, oldest first. -/
structure Client where
  phase : Phase
  requests : List Bytes
  replies : List Reply
deriving DecidableEq

structure Config (N : ℕ) where
  clients : Fin N → Client
  db : Database N
  mem : Mem
  /-- no handler has crashed the server -/
  up : Bool

inductive Action (N : ℕ)
  | invoke (c : Fin N) (call : Call)
  | proceed (c : Fin N)
  | serve (c : Fin N) (addr : UInt64) (rkey : UInt32)
deriving DecidableEq

/-- Visible events: calls, returns, and the ACKs by which `server_pending` grants
a get to a waiting client. -/
inductive Event (N : ℕ)
  | inv (c : Fin N) (call : Call)
  | res (c : Fin N) (call : Call) (result : Result)
  | wokenGet (d : Fin N) (key : CString)
deriving DecidableEq

variable {N : ℕ}

/-- An RDMA write: it changes memory only inside a region registered under the
given key. The adapter is taken to let every queue pair of the server use a key, also one
of the other clients than the setter, in whose protection domain the server registers it. -/
def Mem.rdmaWrite (mem : Mem) (addr : UInt64) (rkey : UInt32) (data : Bytes) : Mem :=
  match mem.region addr, mem.block addr with
  | some (key, length), some bytes =>
    if key = rkey ∧ data.length ≤ length then
      { mem with block :=
        Function.update mem.block addr (some (data ++ bytes.drop data.length)) }
    else mem
  | _, _ => mem

/-- An RDMA read into a zeroed buffer of `n` bytes, which stays as it is when the
access is refused. Which queue pairs may use a key is taken as for `Mem.rdmaWrite`. -/
def Mem.rdmaRead (mem : Mem) (addr : UInt64) (rkey : UInt32) (n : ℕ) : Bytes :=
  match mem.region addr, mem.block addr with
  | some (key, length), some bytes =>
    if key = rkey ∧ n ≤ length then bytes.take n else List.replicate n 0
  | _, _ => List.replicate n 0

/-- The first step of a call: format and send the ask. -/
def Client.invoke (cl : Client) : Call → Client
  | .kvSet key value =>
    { cl with
      phase := .setAsk key value
      requests := cl.requests ++ [onWire (flagKey .as key.bytes)] }
  | .kvGet key =>
    { cl with
      phase := .getAsk key
      requests := cl.requests ++ [onWire (flagKey .ag key.bytes)] }

/-- The next step of a call: consume the reply it waits for, or perform the RDMA
operation it has reached, and send what follows. No step is possible while the
awaited reply is missing. -/
def Client.proceed (cl : Client) (mem : Mem) :
    Option (Client × Mem × List (Call × Result)) :=
  match cl.phase, cl.replies with
  | .setAsk key value, reply :: rest =>
    if reply.bytes.head? = some 'F'.toUInt8 then
      some ({ cl with phase := .idle, replies := rest }, mem, [(.kvSet key value, .refused)])
    else if isEager value.bytes then
      some ({
        phase := .setEager key value
        requests := cl.requests ++ [onWire (flagKeyText .se key.bytes value.bytes)]
        replies := rest }, mem, [])
    else
      some ({
        phase := .setRendezvous key value
        requests := cl.requests ++
          [onWire (flagKeyText .sr key.bytes (sizeText value.bytes))]
        replies := rest }, mem, [])
  | .setEager key value, _ :: rest =>
    some ({ cl with phase := .idle, replies := rest }, mem, [(.kvSet key value, .stored)])
  | .setRendezvous key value, .region rkey addr :: rest =>
    some ({ cl with phase := .setWrite key value rkey addr, replies := rest }, mem, [])
  | .setWrite key value rkey addr, replies =>
    some ({
      phase := .setFin key value
      requests := cl.requests ++ [onWire (flagKey .fs key.bytes)]
      replies := replies }, mem.rdmaWrite addr rkey value.bytes, [])
  | .setFin key value, _ :: rest =>
    some ({ cl with phase := .idle, replies := rest }, mem, [(.kvSet key value, .stored)])
  | .getAsk key, _ :: rest =>
    some ({
      phase := .get key
      requests := cl.requests ++ [onWire (flagKey .g0 key.bytes)]
      replies := rest }, mem, [])
  | .get key, .eager v :: rest =>
    some ({ cl with phase := .getEager key v, replies := rest }, mem, [])
  | .get key, .size n :: rest =>
    some ({ cl with phase := .getRendezvous key n, replies := rest }, mem, [])
  | .getEager key v, _ :: rest =>
    some ({ cl with phase := .idle, replies := rest }, mem, [(.kvGet key, .value v)])
  | .getRendezvous key n, .region rkey addr :: rest =>
    some ({ cl with phase := .getRead key n rkey addr, replies := rest }, mem, [])
  | .getRead key n rkey addr, replies =>
    some ({
      phase := .getFin key (text (mem.rdmaRead addr rkey n.toNat ++ [0]))
      requests := cl.requests ++ [onWire (flagKey .fg key.bytes)]
      replies := replies }, mem, [])
  | .getFin key v, _ :: rest =>
    some ({ cl with phase := .idle, replies := rest }, mem, [(.kvGet key, .value v)])
  | _, _ => none

/-- The messages of a handler that are for client `d`, oldest first. -/
def sentTo (d : Fin N) (sent : List (Fin N × Reply)) : List Reply :=
  (sent.filter fun message => message.1 = d).map Prod.snd

/-- The replies of a handler join the clients' queues; the requester's handled
request leaves its queue. -/
def Config.deliver (cfg : Config N) (c : Fin N) (rest : List Bytes)
    (sent : List (Fin N × Reply)) : Fin N → Client := fun d =>
  { cfg.clients d with
    requests := if d = c then rest else (cfg.clients d).requests
    replies := (cfg.clients d).replies ++ sentTo d sent }

/-- The gets granted to waiting clients while a request of `c` is handled. -/
def Config.wokenEvents (cfg : Config N) (c : Fin N) (sent : List (Fin N × Reply)) :
    List (Event N) :=
  sent.filterMap fun message =>
    if message.1 = c then none
    else
      match (cfg.clients message.1).phase with
      | .getAsk key => some (.wokenGet message.1 key)
      | _ => none

def Config.next (cfg : Config N) : Action N → Option (Config N × List (Event N))
  | .invoke c call =>
    if (cfg.clients c).phase = .idle ∧ call.fits then
      some ({ cfg with
        clients := Function.update cfg.clients c ((cfg.clients c).invoke call) },
        [.inv c call])
    else none
  | .proceed c =>
    match (cfg.clients c).proceed cfg.mem with
    | none => none
    | some (cl, mem, results) =>
      some ({ cfg with clients := Function.update cfg.clients c cl, mem := mem },
        results.map fun (call, result) => .res c call result)
  | .serve c addr rkey =>
    match (cfg.clients c).requests with
    | [] => none
    | buf :: rest =>
      if cfg.up = false ∨ (cfg.mem.block addr).isSome then none
      else
        match parseData (.reliable N addr rkey) ⟨cfg.db, cfg.mem, []⟩ buf c with
        | none => some ({ cfg with up := false }, [])
        | some (_, w) =>
          some ({ cfg with clients := cfg.deliver c rest w.sent, db := w.db, mem := w.mem },
            cfg.wokenEvents c w.sent)

/-- No call in progress, an empty database, a heap without values. -/
def Config.start (N : ℕ) : Config N where
  clients := fun _ => ⟨.idle, [], []⟩
  db := []
  mem := ⟨fun _ => none, fun _ => none⟩
  up := true

def protocol (N : ℕ) : Machine (Config N) (Action N) (Event N) where
  init := Config.start N
  next := Config.next

/-! ## Schedules -/

/-- Every call is about a non-empty key without `':'`. -/
def wordKeys : Guard (Config N) (Action N) (Event N)
  | _, _, .invoke _ call => IsWord call.key.bytes
  | _, _, _ => True

instance (trace : List (Event N)) (cfg : Config N) (action : Action N) :
    Decidable (wordKeys trace cfg action) :=
  match action with
  | .invoke _ call => inferInstanceAs (Decidable (IsWord call.key.bytes))
  | .proceed _ => .isTrue True.intro
  | .serve _ _ _ => .isTrue True.intro

/-- The key `k` and the value `v` of concrete schedules. -/
def keyK : CString := ⟨ascii ['k'], by decide⟩

def valueV : CString := ⟨ascii ['v'], by decide⟩

/-- Client 0 sets; client 1 asks to get while the set is going on, and gets when it
is over. -/
def waitingGetSchedule : List (Action numClients) :=
  [.invoke 0 (.kvSet keyK valueV), .serve 0 0 0, .invoke 1 (.kvGet keyK), .serve 1 0 0,
   .proceed 0, .serve 0 1 0, .proceed 0, .proceed 1, .serve 1 0 0, .proceed 1, .proceed 1]

/-- The shortest value that goes the rendezvous way, all `a`. -/
def valueLarge : CString :=
  ⟨List.replicate (4 * KB - 3) 97, fun member => by cases List.eq_of_mem_replicate member⟩

end RdmaWiki
