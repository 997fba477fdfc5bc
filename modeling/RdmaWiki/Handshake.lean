import RdmaWiki.Lib.Interference
import RdmaWiki.Setup

/-!
How the clients and the server connect.

The server opens its handles one after the other, and every client opens its own, all at the
same time. They meet through TCP: a client that connects waits in the queue of the listening
socket, the server accepts one of them for its handle, and when it closes the listening socket
the others are refused. The queue pairs are part of the world too.

`handshake` is the machine of all this: its actions are the calls of the programs of `Setup`, in
any order, with any answers that the sockets and the adapter may give, failures among them.
-/

namespace RdmaWiki

open CText HexText Interference LibraryCalls StepMachine

/-! ## The world -/

inductive Party (N : ℕ)
  | server
  | client (c : Fin N)
deriving DecidableEq

/-- Where a queue pair is: behind a handle of the server, or at a client. -/
inductive Site (N : ℕ)
  | handle (i : ℕ)
  | client (c : Fin N)
deriving DecidableEq

def Party.site {N : ℕ} : Party N → ℕ → Site N
  | .server, i => .handle i
  | .client c, _ => .client c

/-- What the adapters hand out: the LID of the port, and queue pair numbers of 24 bits. -/
structure Adapters (N : ℕ) where
  lid : Site N → UInt16
  qpn : Site N → UInt32
  narrow : ∀ s, (qpn s).toNat < 2 ^ 24

/-- The other end, as a queue pair knows it. -/
structure Remote where
  destQpNum : UInt32
  rqPsn : UInt32
  dlid : UInt16
deriving DecidableEq

inductive QpState
  | absent
  | reset
  | init
  | rtr (remote : Remote)
  | rts (remote : Remote) (sqPsn : UInt32)
deriving DecidableEq

/-- `ibv_modify_qp`, which refuses every other change. -/
def QpState.change : QpState → QpChange → Option QpState
  | .reset, .init _ _ => some .init
  | .init, .rtr _ destQpNum rqPsn _ _ dlid _ _ _ _ => some (.rtr ⟨destQpNum, rqPsn, dlid⟩)
  | .rtr remote, .rts _ _ _ sqPsn _ => some (.rts remote sqPsn)
  | _, _ => none

/-- The other end, from the first change that names it on. -/
def QpState.remote : QpState → Option Remote
  | .rtr remote | .rts remote _ => some remote
  | _ => none

inductive LinkState
  | unconnected
  /-- in the queue of the listening socket -/
  | queued
  /-- by the handle -/
  | accepted (i : ℕ)
  | refused
deriving DecidableEq

/-- The TCP connection of a client. -/
structure Link where
  state : LinkState
  /-- what the client has written, and how much of it the server has read -/
  asked : Bytes
  heard : ℕ
  /-- what the server has written, and how much of it the client has read -/
  answered : Bytes
  taken : ℕ
  /-- the client, and the server, have closed their ends -/
  left : Bool
  dropped : Bool
deriving DecidableEq

structure SetupWorld (N : ℕ) where
  qps : Site N → QpState
  links : Fin N → Link
  /-- the client that a handle has accepted -/
  peer : ℕ → Option (Fin N)
  /-- the handle whose socket listens -/
  listening : Option ℕ

variable {N : ℕ}

def SetupWorld.setQp (w : SetupWorld N) (s : Site N) (qp : QpState) : SetupWorld N :=
  { w with qps := Function.update w.qps s qp }

def SetupWorld.setLink (w : SetupWorld N) (c : Fin N) (link : Link) : SetupWorld N :=
  { w with links := Function.update w.links c link }

/-- `write`: nothing, or the first bytes. -/
def takes (bytes : Bytes) (n : Int) : Option Bytes :=
  if n < 0 then some []
  else if n.toNat ≤ bytes.length then some (bytes.take n.toNat)
  else none

/-- `read` of up to `n` bytes: some of those that are there, or none at the end. -/
def gives (there : Bytes) (ended : Bool) (n : ℕ) (bytes : Bytes) : Bool :=
  bytes.length ≤ n && bytes.isPrefixOf there && (bytes ≠ [] || (there = [] && ended))

/-- The calls of a client on its connection. -/
def Link.call (link : Link) (listening : Bool) : (op : SetupOp) → op.Answer → Option Link
  | .connect, connected =>
    if connected = false then some link
    else if listening ∧ link.state = .unconnected then some { link with state := .queued }
    else none
  | .write .sockfd bytes, n =>
    if link.state = .unconnected then none
    else (takes bytes n).map fun bytes => { link with asked := link.asked ++ bytes }
  | .read .sockfd n, bytes =>
    match (bytes : Option Bytes) with
    | none => some link
    | some bytes =>
      if gives (link.answered.drop link.taken) (link.dropped || link.state = .refused) n bytes then
        some { link with taken := link.taken + bytes.length }
      else none
  | .close .sockfd, _ =>
    some { link with left := link.left || link.state ≠ .unconnected }
  | .write .connfd _, _ | .read .connfd _, _ | .close .connfd, _ | .listen, _ | .accept, _ => none
  | _, _ => some link

/-- The calls of the server on the connection of a handle. -/
def Link.serve (link : Link) : (op : SetupOp) → op.Answer → Option Link
  | .write .connfd bytes, n =>
    (takes bytes n).map fun bytes => { link with answered := link.answered ++ bytes }
  | .read .connfd n, bytes =>
    match (bytes : Option Bytes) with
    | none => some link
    | some bytes =>
      if gives (link.asked.drop link.heard) link.left n bytes then
        some { link with heard := link.heard + bytes.length }
      else none
  | .close .connfd, _ => some { link with dropped := true }
  | _, _ => some link

/-- The calls on a queue pair. -/
def SetupWorld.adapter (ad : Adapters N) (s : Site N) (w : SetupWorld N) :
    (op : SetupOp) → op.Answer → Option (SetupWorld N)
  | .createQp _ _, num =>
    match (num : Option UInt32) with
    | none => some w
    | some num => if w.qps s = .absent ∧ num = ad.qpn s then some (w.setQp s .reset) else none
  | .modifyQp change, errno =>
    if (errno : Int) ≠ 0 then some w else ((w.qps s).change change).map (w.setQp s)
  | .queryPort _, attr =>
    match (attr : Option PortAttr) with
    | none => some w
    | some attr => if attr.lid = ad.lid s then some w else none
  | _, _ => some w

/-- The calls of the server on its sockets, for the handle `i`. -/
def SetupWorld.network (i : ℕ) (w : SetupWorld N) :
    (op : SetupOp) → op.Answer → Option (SetupWorld N)
  | .listen, errno => if (errno : Int) = 0 then some { w with listening := some i } else some w
  | .accept, peer =>
    match (peer : Option ℕ) with
    | none => some w
    | some c =>
      if below : c < N then
        if w.listening = some i ∧ (w.links ⟨c, below⟩).state = .queued then
          some { w.setLink ⟨c, below⟩ { w.links ⟨c, below⟩ with state := .accepted i } with
            peer := Function.update w.peer i (some ⟨c, below⟩) }
        else none
      else none
  | .close .sockfd, _ =>
    some { w with
      listening := none
      links := fun c =>
        if (w.links c).state = .queued then { w.links c with state := .refused } else w.links c }
  | .connect, _ | .write .sockfd _, _ | .read .sockfd _, _ => none
  | op, r =>
    match w.peer i with
    | none => some w
    | some c => ((w.links c).serve op r).map (w.setLink c)

/-- The answers that a call may get, and what it changes. -/
def admits (ad : Adapters N) (party : Party N) (w : SetupWorld N) (e : SetupEvent) :
    Option (SetupWorld N) :=
  (w.adapter ad (party.site e.1.handle) e.1.op e.2).bind fun w =>
    match party with
    | .server => w.network e.1.handle e.1.op e.2
    | .client c => ((w.links c).call w.listening.isSome e.1.op e.2).map (w.setLink c)

/-! ## The machine -/

/-- What opening gives: on the server a result for each handle. -/
abbrev Party.Result : Party N → Type
  | .server => List Ret
  | .client _ => Ret

def SetupWorld.start (N : ℕ) : SetupWorld N where
  qps := fun _ => .absent
  links := fun _ => ⟨.unconnected, [], 0, [], 0, false, false⟩
  peer := fun _ => none
  listening := none

abbrev SetupState (N : ℕ) :=
  Joint (Party N) (SetupWorld N) SetupCall SetupCall.Answer Stop Party.Result

/-- The server opens the handles, and every client opens its own. -/
def startOpening (opts : Party N → Options) (handles : List ℕ) : SetupState N where
  programs
    | .server => Setup.openHandles (opts .server) handles
    | .client c => Setup.kvOpen 0 (opts (.client c)) false
  world := .start N

def handshake (ad : Adapters N) (opts : Party N → Options) (handles : List ℕ) :
    Machine (SetupState N) (Turn (Party N) SetupCall SetupCall.Answer)
      (Turn (Party N) SetupCall SetupCall.Answer) :=
  machine (admits ad) (startOpening opts handles)

end RdmaWiki
