import RdmaWiki.Api
import RdmaWiki.Destinations

/-!
`kv_open` and `kv_close`, whatever the library, the network and the adapter answer.

`init_connection` opens the device, makes the objects of a queue pair, posts the receives and
trades destinations with the other end over a TCP connection. It is written here as a program
over the calls that it makes, and so is `pp_close_ctx`. A call names the handle it is made for,
as the source names it by its `ctx`: the server opens one handle for each of its clients, one
after the other.

The values that `init_connection` gives to its variables are `Options.source`. What is said
about the programs is said for all options.
-/

namespace RdmaWiki

open CText HexText LibraryCalls

/-! ## The calls -/

/-- The socket variables of the two exchange functions. -/
inductive Fd
  | sockfd
  /-- what `accept` returns -/
  | connfd
deriving DecidableEq

/-- `ah_attr.grh` -/
structure Grh where
  hopLimit : ℕ
  dgid : Gid
  sgidIndex : Int
deriving DecidableEq

/-- The attributes by which `ibv_modify_qp` takes a queue pair to its next state. -/
inductive QpChange
  | init (pkeyIndex portNum : ℕ)
  | rtr (pathMtu : ℕ) (destQpNum rqPsn : UInt32) (maxDestRdAtomic minRnrTimer : ℕ)
    (dlid : UInt16) (sl srcPathBits portNum : ℕ) (grh : Option Grh)
  | rts (timeout retryCnt rnrRetry : ℕ) (sqPsn : UInt32) (maxRdAtomic : ℕ)
deriving DecidableEq

/-- `struct ibv_port_attr` -/
structure PortAttr where
  lid : UInt16
  /-- `link_layer == IBV_LINK_LAYER_INFINIBAND` -/
  infiniband : Bool
deriving DecidableEq

inductive SetupOp
  | getDeviceList
  | sysconf
  /-- `ctx` -/
  | calloc
  /-- `ctx->buf` -/
  | mallocBuf (n : ℕ)
  | openDevice
  | createCompChannel
  | allocPd
  | regMr (length : ℕ)
  | createCq (cqe : ℕ)
  | createQp (maxSendWr maxRecvWr : ℕ)
  | modifyQp (change : QpChange)
  | postRecv
  | reqNotifyCq
  | queryPort (port : ℕ)
  | queryGid (port : ℕ) (index : Int)
  | lrand48
  /-- `service` -/
  | asprintf (port : ℕ)
  | getaddrinfo
  | socket
  | setsockopt
  | connect
  | bind
  | listen
  | accept
  | close (fd : Fd)
  | freeaddrinfo
  | freeService
  | write (fd : Fd) (bytes : Bytes)
  | read (fd : Fd) (n : ℕ)
  /-- `rem_dest` -/
  | mallocDest
  | freeDest
  | destroyQp
  | destroyCq
  | deregMr
  | deallocPd
  | destroyCompChannel
  | closeDevice
  | freeBuf
  | freeCtx
deriving DecidableEq

/-- A call for one handle. -/
structure SetupCall where
  handle : ℕ
  op : SetupOp
deriving DecidableEq

/-- Pointers are NULL or not and descriptors negative or not, except where more is looked at:
the number of the queue pair, of devices and of addresses, and the client at the other end of
an accepted connection. `read` gives its bytes, or nothing for -1. -/
abbrev SetupOp.Answer : SetupOp → Type
  | .getDeviceList | .getaddrinfo | .accept => Option ℕ
  | .sysconf => ℕ
  | .calloc | .mallocBuf _ | .openDevice | .createCompChannel | .allocPd | .regMr _
  | .createCq _ | .asprintf _ | .socket | .connect | .bind | .mallocDest => Bool
  | .createQp _ _ => Option UInt32
  | .queryPort _ => Option PortAttr
  | .queryGid _ _ => Option Gid
  | .lrand48 => UInt32
  | .read _ _ => Option Bytes
  | .modifyQp _ | .postRecv | .reqNotifyCq | .listen | .write _ _ | .destroyQp | .destroyCq
  | .deregMr | .deallocPd | .destroyCompChannel | .closeDevice => Int
  | .setsockopt | .close _ | .freeaddrinfo | .freeService | .freeDest | .freeBuf | .freeCtx => Unit

abbrev SetupCall.Answer (call : SetupCall) : Type := call.op.Answer

abbrev Setup := Program SetupCall SetupCall.Answer Stop

abbrev SetupEvent := Answered SetupCall SetupCall.Answer

/-- The variables of `init_connection` that hold settings. -/
structure Options where
  port : ℕ
  ibPort : ℕ
  /-- in bytes -/
  mtu : ℕ
  rxDepth : ℕ
  txDepth : ℕ
  useEvent : Bool
  size : ℕ
  sl : ℕ
  gidx : Int
  /-- of the host -/
  order : ByteOrder
  /-- `printf` of the host prints something for `%s` and NULL, which the C standard leaves
  undefined -/
  printsNull : Bool

/-- The values that they have. -/
def Options.source (order : ByteOrder) (printsNull : Bool) : Options where
  port := 12345
  ibPort := 1
  mtu := 2048
  rxDepth := 10000
  txDepth := 100
  useEvent := false
  size := 4 * KB
  sl := 0
  gidx := -1
  order := order
  printsNull := printsNull

/-- What is used later of a `struct pingpong_context`. -/
structure SetupCtx where
  size : ℕ
  rxDepth : ℕ
  routs : ℕ
  /-- `channel != NULL` -/
  channel : Bool
  /-- `qp->qp_num` -/
  qpNum : UInt32
  /-- the byte that `buf` is filled with -/
  fill : UInt8

/-- `roundup` -/
def roundup (x y : ℕ) : ℕ := (x + (y - 1)) / y * y

namespace Setup

def lib (h : ℕ) (op : SetupOp) : Setup op.Answer := Program.invoke (SetupCall.mk h op)

/-! ## The objects of a handle -/

/-- The queue pair of `pp_init_ctx`. -/
def initQp (h : ℕ) (opts : Options) (isServer : Bool) : Setup (Option SetupCtx) := do
  match ← lib h (.createQp opts.txDepth opts.rxDepth) with
  | none => return none
  | some qpNum =>
    let modified ← lib h (.modifyQp (.init 0 opts.ibPort))
    if modified ≠ 0 then return none
    else return some {
      size := opts.size
      rxDepth := opts.rxDepth
      routs := opts.rxDepth
      channel := opts.useEvent
      qpNum := qpNum
      fill := 0x7b + isServer.toUInt8 }

/-- `pp_init_ctx` from the protection domain on. -/
def initQueues (h : ℕ) (opts : Options) (isServer : Bool) : Setup (Option SetupCtx) := do
  let pd ← lib h .allocPd
  if pd = false then return none
  else
    let mr ← lib h (.regMr opts.size)
    if mr = false then return none
    else
      let cq ← lib h (.createCq (opts.rxDepth + opts.txDepth))
      if cq = false then return none
      else initQp h opts isServer

/-- Nothing stands for NULL. -/
def ppInitCtx (h : ℕ) (opts : Options) (isServer : Bool) (pageSize : ℕ) :
    Setup (Option SetupCtx) := do
  let ctx ← lib h .calloc
  if ctx = false then return none
  else
    let buf ← lib h (.mallocBuf (roundup opts.size pageSize))
    if buf = false then return none
    else
      let context ← lib h .openDevice
      if context = false then return none
      else if opts.useEvent then
        let channel ← lib h .createCompChannel
        if channel = false then return none
        else initQueues h opts isServer
      else initQueues h opts isServer

/-- `pp_post_recv` of `n` receives when `i` are posted: how many it posts. -/
def ppPostRecv (h : ℕ) : ℕ → ℕ → Setup ℕ
  | 0, i => return i
  | n + 1, i => do
    let posted ← lib h .postRecv
    if posted ≠ 0 then return i
    else ppPostRecv h n (i + 1)

/-- `pp_close_ctx`. Where a call fails it returns at once. -/
def ppCloseCtx (h : ℕ) (channel : Bool) : Setup Ret := do
  let qp ← lib h .destroyQp
  if qp ≠ 0 then return .exitFailure
  else
    let cq ← lib h .destroyCq
    if cq ≠ 0 then return .exitFailure
    else
      let mr ← lib h .deregMr
      if mr ≠ 0 then return .exitFailure
      else
        let pd ← lib h .deallocPd
        if pd ≠ 0 then return .exitFailure
        else
          let destroyed ← (if channel then lib h .destroyCompChannel else return 0 : Setup Int)
          if destroyed ≠ 0 then return .exitFailure
          else
            let context ← lib h .closeDevice
            if context ≠ 0 then return .exitFailure
            else
              lib h .freeBuf
              lib h .freeCtx
              return .exitSuccess

/-! ## The exchange -/

/-- `pp_connect_ctx`: the two changes that connect a queue pair with the other end. -/
def ppConnectCtx (h : ℕ) (opts : Options) (myPsn : UInt32) (dest : Dest) : Setup Ret := do
  let ready ← lib h (.modifyQp (.rtr opts.mtu dest.qpn dest.psn 1 12 dest.lid.toUInt16 opts.sl 0
    opts.ibPort (if dest.gid.hasInterface then some ⟨1, dest.gid, opts.gidx⟩ else none)))
  if ready ≠ 0 then return .exitFailure
  else
    let sending ← lib h (.modifyQp (.rts 14 7 7 myPsn 1))
    if sending ≠ 0 then return .exitFailure
    else return .exitSuccess

/-- The loop over the addresses of a server: whether a socket is connected. -/
def connectLoop (h : ℕ) : ℕ → Setup Bool
  | 0 => return false
  | n + 1 => do
    let sockfd ← lib h .socket
    if sockfd = false then connectLoop h n
    else
      let connected ← lib h .connect
      if connected then return true
      else
        lib h (.close .sockfd)
        connectLoop h n

/-- The loop over the local addresses: whether a socket is bound. -/
def bindLoop (h : ℕ) : ℕ → Setup Bool
  | 0 => return false
  | n + 1 => do
    let sockfd ← lib h .socket
    if sockfd = false then bindLoop h n
    else
      lib h .setsockopt
      let bound ← lib h .bind
      if bound then return true
      else
        lib h (.close .sockfd)
        bindLoop h n

/-- The address list and the service string around a loop. -/
def withAddresses (h : ℕ) (opts : Options) (loop : ℕ → Setup Bool) : Setup Bool := do
  let service ← lib h (.asprintf opts.port)
  if service = false then return false
  else
    match ← lib h .getaddrinfo with
    | none =>
      lib h .freeService
      return false
    | some n =>
      let opened ← loop n
      lib h .freeaddrinfo
      lib h .freeService
      return opened

/-- `sprintf` into `msg`. -/
def format (opts : Options) (dest : Dest) : Setup Bytes :=
  if (dest.message opts.order).length ≤ msgSize then return dest.message opts.order
  else .stop .undefined

/-- The scan of `msg` into `rem_dest`. -/
def scan (opts : Options) (gid msg : Bytes) : Setup Dest :=
  match readDest opts.order gid msg with
  | none => .stop .undefined
  | some dest => return dest

/-- `"done"` with its NUL -/
def doneText : Bytes := ascii ['d', 'o', 'n', 'e'] ++ [0]

/-- `pp_client_exch_dest` on the connected socket, up to its `out`. -/
def clientTrade (h : ℕ) (opts : Options) (myDest : Dest) : Setup (Option Dest) := do
  let msg ← format opts myDest
  let sent ← lib h (.write .sockfd msg)
  if sent ≠ (msgSize : Int) then return none
  else
    match ← lib h (.read .sockfd msgSize) with
    | none => return none
    | some msg =>
      if msg.length ≠ msgSize then return none
      else
        let _ ← lib h (.write .sockfd doneText)
        let remDest ← lib h .mallocDest
        if remDest = false then return none
        else
          let dest ← scan opts (gidToWireGid opts.order myDest.gid ++ [0]) msg
          return some dest

def ppClientExchDest (h : ℕ) (opts : Options) (myDest : Dest) : Setup (Option Dest) := do
  let connected ← withAddresses h opts (connectLoop h)
  if connected = false then return none
  else
    let remDest ← clientTrade h opts myDest
    lib h (.close .sockfd)
    return remDest

/-- The reply of the server, when its queue pair is connected. -/
def answerClient (h : ℕ) (opts : Options) (myDest dest : Dest) : Setup (Option Dest) := do
  let msg ← format opts myDest
  let sent ← lib h (.write .connfd msg)
  if sent ≠ (msgSize : Int) then
    lib h .freeDest
    return none
  else
    let _ ← lib h (.read .connfd msgSize)
    return some dest

/-- `pp_server_exch_dest` on the accepted connection, up to its `out`. -/
def serverTrade (h : ℕ) (opts : Options) (myDest : Dest) : Setup (Option Dest) := do
  match ← lib h (.read .connfd msgSize) with
  | none => return none
  | some msg =>
    if msg.length ≠ msgSize then return none
    else
      let remDest ← lib h .mallocDest
      if remDest = false then return none
      else
        let dest ← scan opts [] msg
        let connected ← ppConnectCtx h opts myDest.psn dest
        if connected = .exitFailure then
          lib h .freeDest
          return none
        else answerClient h opts myDest dest

def ppServerExchDest (h : ℕ) (opts : Options) (myDest : Dest) : Setup (Option Dest) := do
  let bound ← withAddresses h opts (bindLoop h)
  if bound = false then return none
  else
    let _ ← lib h .listen
    let connfd ← lib h .accept
    lib h (.close .sockfd)
    match connfd with
    | none => return none
    | some _ =>
      let remDest ← serverTrade h opts myDest
      lib h (.close .connfd)
      return remDest

/-! ## Opening and closing -/

/-- The gid of `my_dest`. -/
def localGid (h : ℕ) (opts : Options) : Setup (Option Gid) :=
  if 0 ≤ opts.gidx then lib h (.queryGid opts.ibPort opts.gidx)
  else return some .zero

/-- `my_dest` -/
def localDest (h : ℕ) (opts : Options) (qpNum : UInt32) : Setup (Option Dest) := do
  match ← lib h (.queryPort opts.ibPort) with
  | none => return none
  | some attr =>
    if attr.infiniband ∧ attr.lid = 0 then return none
    else
      match ← localGid h opts with
      | none => return none
      | some gid =>
        let psn ← lib h .lrand48
        return some ⟨attr.lid.toUInt32, qpNum, psn &&& 0xffffff, gid⟩

/-- The objects and the posted receives of `init_connection`. -/
def openDevice (h : ℕ) (opts : Options) (isServer : Bool) : Setup (Option SetupCtx) := do
  let pageSize ← lib h .sysconf
  match ← lib h .getDeviceList with
  | none => return none
  | some 0 => return none
  | some (_ + 1) =>
    match ← ppInitCtx h opts isServer pageSize with
    | none => return none
    | some ctx =>
      let routs ← ppPostRecv h ctx.rxDepth 0
      if routs < ctx.rxDepth then return none
      else if opts.useEvent then
        let notified ← lib h .reqNotifyCq
        if notified ≠ 0 then return none
        else return some { ctx with routs := routs }
      else return some { ctx with routs := routs }

/-- The client's end of the exchange. -/
def joinServer (h : ℕ) (opts : Options) (myDest : Dest) : Setup Ret := do
  match ← ppClientExchDest h opts myDest with
  | none => return .exitFailure
  | some remDest => ppConnectCtx h opts myDest.psn remDest

/-- The server's end. -/
def joinClient (h : ℕ) (opts : Options) (myDest : Dest) : Setup Ret := do
  match ← ppServerExchDest h opts myDest with
  | none => return .exitFailure
  | some _ => return .exitSuccess

/-- `init_connection`, where the client has a `servername` and the server has none. -/
def initConnection (h : ℕ) (opts : Options) (isServer : Bool) : Setup Ret := do
  match ← openDevice h opts isServer with
  | none => return .exitFailure
  | some ctx =>
    match ← localDest h opts ctx.qpNum with
    | none => return .exitFailure
    | some myDest => if isServer then joinClient h opts myDest else joinServer h opts myDest

/-- `kv_open` prints `servername` in the end, which is NULL on the server. -/
def kvOpen (h : ℕ) (opts : Options) (isServer : Bool) : Setup Ret := do
  match ← initConnection h opts isServer with
  | .exitFailure => return .exitFailure
  | .exitSuccess =>
    if isServer = true ∧ opts.printsNull = false then .stop .undefined
    else return .exitSuccess

/-- Where `servername` can be printed the print changes nothing. -/
theorem kvOpen_eq {h : ℕ} {opts : Options} {isServer : Bool}
    (prints : isServer = true → opts.printsNull = true) :
    kvOpen h opts isServer = initConnection h opts isServer := by
  have quiet : ¬ (isServer = true ∧ opts.printsNull = false) := fun both => by
    simp [prints both.1] at both
  have rest : (fun ret : Ret => match ret with
      | .exitFailure => return .exitFailure
      | .exitSuccess =>
        if isServer = true ∧ opts.printsNull = false then .stop .undefined
        else return .exitSuccess : Ret → Setup Ret) = .done := by
    funext ret
    cases ret with
    | exitFailure => rfl
    | exitSuccess => exact if_neg quiet
  unfold kvOpen
  rw [rest]
  exact Program.bind_done _

def kvClose (h : ℕ) (channel : Bool) : Setup Ret := ppCloseCtx h channel

/-- The loop of `main` that opens the server's handles: the results are not looked at. -/
def openHandles (opts : Options) : List ℕ → Setup (List Ret)
  | [] => return []
  | h :: rest => do
    let ret ← kvOpen h opts true
    let others ← openHandles opts rest
    return ret :: others

end Setup

end RdmaWiki
