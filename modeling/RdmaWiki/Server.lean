import RdmaWiki.Database
import Mathlib.Data.List.FinRange

/-!
The server's request handlers.

`parseData` handles one request of one client: it changes the database and the
heap and sends replies, to the requester and to clients that wait on the same
key. A handler's result is `none` where the C code has no defined behaviour (a
NULL pointer is followed, a buffer is written outside its bounds); otherwise it
is a return code and the new `World`.

Under `Env.reliable` every handler changes at most the record of its key.
`World.Becomes` states such an effect, and each handler has one theorem of that
form; no later proof unfolds a handler.
-/

namespace RdmaWiki

open CText

/-- What the server can send: `T`, `F`, `e:value`, `r:size` and `rkey:addr`. -/
inductive Reply
  | ack
  | nack
  | eager (value : Bytes)
  | size (n : Int)
  | region (rkey : UInt32) (addr : UInt64)
deriving DecidableEq

/-- The bytes of a reply: one byte for an ACK or NACK, else a text with its NUL. -/
def Reply.bytes : Reply → Bytes
  | .ack => ascii ['T']
  | .nack => ascii ['F']
  | .eager value => ascii ['e', ':'] ++ value ++ [0]
  | .size n => ascii ['r', ':'] ++ decimalInt n ++ [0]
  | .region rkey addr => decimal rkey.toNat ++ colon :: decimal addr.toNat ++ [0]

/-- The state a handler works on: the database, the heap, and the messages sent
so far, oldest first. -/
structure World (N : ℕ) where
  db : Database N
  mem : Mem
  sent : List (Fin N × Reply)

variable {N : ℕ}

/-! ## Sending -/

/-- `send_ACK`; the result of its wait is not looked at. -/
def sendAck (env : Env N) (w : World N) (c : Fin N) : Ret × World N :=
  if env.postSend w.sent.length = false then (.exitFailure, w)
  else (.exitSuccess, { w with sent := w.sent ++ [(c, .ack)] })

/-- `send_NACK`; the result of its wait is not looked at. -/
def sendNack (env : Env N) (w : World N) (c : Fin N) : Ret × World N :=
  if env.postSend w.sent.length = false then (.exitFailure, w)
  else (.exitSuccess, { w with sent := w.sent ++ [(c, .nack)] })

/-- `sprintf` of a text reply into the client's buffer and `send_data_str`,
which fails when the post or the wait fails. -/
def sendDataStr (env : Env N) (w : World N) (c : Fin N) (reply : Reply) : Ret × World N :=
  if env.postSend w.sent.length = false then (.exitFailure, w)
  else if env.waitSend w.sent.length = false then
    (.exitFailure, { w with sent := w.sent ++ [(c, reply)] })
  else (.exitSuccess, { w with sent := w.sent ++ [(c, reply)] })

/-! ## Waking waiting clients -/

/-- The first loop of `server_pending` from a given client on, with its
`found_set` flag: the first waiting setter gets an ACK, the others a NACK. The
loop does not write the array it reads. -/
def grantSetters (env : Env N) (key : Bytes) (setClients : Fin N → Bool) :
    List (Fin N) → Bool → World N → Ret × Bool × World N
  | [], foundSet, w => (.exitSuccess, foundSet, w)
  | i :: rest, foundSet, w =>
    if setClients i = true then
      let w := { w with db := (w.db.addInSet key).2 }
      match (if foundSet = false then sendAck env w i else sendNack env w i) with
      | (.exitFailure, w) => (.exitFailure, foundSet, w)
      | (.exitSuccess, w) => grantSetters env key setClients rest true w
    else grantSetters env key setClients rest foundSet w

/-- The second loop of `server_pending`: every waiting getter is counted as a
reader and gets an ACK. -/
def grantGetters (env : Env N) (key : Bytes) (getClients : Fin N → Bool) :
    List (Fin N) → World N → Ret × World N
  | [], w => (.exitSuccess, w)
  | i :: rest, w =>
    if getClients i = true then
      let w := { w with db := (w.db.addNumInGet key).2 }
      match sendAck env w i with
      | (.exitFailure, w) => (.exitFailure, w)
      | (.exitSuccess, w) => grantGetters env key getClients rest w
    else grantGetters env key getClients rest w

/-- `server_pending`. The arrays of an absent key are NULL, and following them
is a crash. -/
def serverPending (env : Env N) (w : World N) (key : Bytes) : Option (Ret × World N) :=
  match w.db.setQuery key with
  | none => none
  | some setClients =>
    match grantSetters env key setClients (List.finRange N) false w with
    | (.exitFailure, _, w) => some (.exitFailure, w)
    | (.exitSuccess, true, w) =>
      some (.exitSuccess, { w with db := w.db.emptySetQuery key })
    | (.exitSuccess, false, w) =>
      match w.db.getQuery key with
      | none => none
      | some getClients =>
        match grantGetters env key getClients (List.finRange N) w with
        | (.exitFailure, w) => some (.exitFailure, w)
        | (.exitSuccess, w) =>
          some (.exitSuccess, { w with db := w.db.emptyGetQuery key })

/-! ## Get handlers -/

/-- `server_get_FIN`; the result of its own `send_ACK` is not looked at. -/
def serverGetFin (env : Env N) (w : World N) (key : Bytes) (clientIdx : Fin N) :
    Option (Ret × World N) :=
  let w := { w with db := (w.db.removeNumInGet key).2 }
  match serverPending env w key with
  | none => none
  | some (.exitFailure, w) => some (.exitFailure, w)
  | some (.exitSuccess, w) => some (.exitSuccess, (sendAck env w clientIdx).2)

def serverGetRendezvous (env : Env N) (w : World N) (clientIdx : Fin N) (value : Value) :
    Option (Ret × World N) :=
  match sendDataStr env w clientIdx (.size value.size) with
  | (.exitFailure, w) => some (.exitFailure, w)
  | (.exitSuccess, w) =>
    match value.mr with
    | none => none
    | some mr => some (sendDataStr env w clientIdx (.region mr.rkey mr.addr))

def serverGetEager (env : Env N) (w : World N) (key : Bytes) (value : Value)
    (clientIdx : Fin N) : Option (Ret × World N) :=
  match w.mem.block value.value with
  | none => none
  | some bytes =>
    match sendDataStr env w clientIdx (.eager (text bytes)) with
    | (.exitFailure, w) => some (.exitFailure, w)
    | (.exitSuccess, w) => serverGetFin env w key clientIdx

def serverGetAsk (env : Env N) (w : World N) (key : Bytes) (clientIdx : Fin N) :
    Ret × World N :=
  if w.db.validGet key = false then
    match w.db.addGetQuery key clientIdx with
    | (ret, db) => (ret, { w with db := db })
  else sendAck env w clientIdx

/-! ## Set handlers -/

/-- `server_set_FIN`; the result of its own `send_ACK` is not looked at. -/
def serverSetFin (env : Env N) (w : World N) (key : Bytes) (clientIdx : Fin N) :
    Option (Ret × World N) :=
  let w := { w with db := (w.db.removeInSet key).2 }
  match serverPending env w key with
  | none => none
  | some (.exitFailure, w) => some (.exitFailure, w)
  | some (.exitSuccess, w) => some (.exitSuccess, (sendAck env w clientIdx).2)

/-- `malloc(n)` at `addr`, leaving `junk` in it. -/
def Mem.alloc (mem : Mem) (addr : UInt64) (junk : Bytes) : Mem :=
  { mem with block := Function.update mem.block addr (some junk) }

/-- `ibv_reg_mr` of `length` bytes at `addr`. -/
def Mem.register (mem : Mem) (addr : UInt64) (rkey : UInt32) (length : ℕ) : Mem :=
  { mem with region := Function.update mem.region addr (some (rkey, length)) }

/-- `INT_MAX` -/
def intMax : Int := 2 ^ 31 - 1

/-- `server_set_rendezvous`. A negative size, a size to which no `int` adds 1 and a failed
`malloc` end in a write outside a buffer. -/
def serverSetRendezvous (env : Env N) (w : World N) (clientIdx : Fin N) (key : Bytes)
    (valueSize : Int) : Option (Ret × World N) :=
  if valueSize < 0 ∨ intMax ≤ valueSize then none
  else
    match env.mallocBytes with
    | none => none
    | some addr =>
      let size := valueSize.toNat
      let mem := w.mem.alloc addr ((env.junkBytes (size + 1)).set size 0)
      match env.regMr with
      | none => some (.exitFailure, { w with mem := mem })
      | some rkey =>
        let w := { w with mem := mem.register addr rkey size }
        match sendDataStr env w clientIdx (.region rkey addr) with
        | (.exitFailure, w) => some (.exitFailure, w)
        | (.exitSuccess, w) =>
          if env.mallocValue = false then some (.exitFailure, w)
          else
            match w.db.setItem env w.mem key (some ⟨addr, valueSize, true, some ⟨rkey, addr⟩⟩) with
            | (ret, db, mem) => some (ret, { w with db := db, mem := mem })

/-- `server_set_eager`, on the copy of the value at `addr`. -/
def serverSetEager (env : Env N) (w : World N) (key : Bytes) (addr : UInt64)
    (length : ℕ) (clientIdx : Fin N) : Option (Ret × World N) :=
  if env.mallocValue = false then some (.exitFailure, w)
  else
    match w.db.setItem env w.mem key (some ⟨addr, length, false, none⟩) with
    | (.exitFailure, db, mem) => some (.exitFailure, { w with db := db, mem := mem })
    | (.exitSuccess, db, mem) =>
      serverSetFin env { w with db := db, mem := mem } key clientIdx

/-- `server_set_Ask`; the result of its `set_item` is not looked at. -/
def serverSetAsk (env : Env N) (w : World N) (key : Bytes) (clientIdx : Fin N) :
    Ret × World N :=
  if w.db.validSet key = false then
    match w.db.addSetQuery key clientIdx with
    | (ret, db) => (ret, { w with db := db })
  else
    match w.db.setItem env w.mem key none with
    | (_, db, mem) => sendAck env { w with db := db, mem := mem } clientIdx

/-! ## Dispatch -/

/-- The `se` branch of `parse_data`: copy the value token, then store it. -/
def parseDataSe (env : Env N) (w : World N) (key value : Bytes) (clientIdx : Fin N) :
    Option (Ret × World N) :=
  match env.mallocBytes with
  | none => some (.exitFailure, w)
  | some addr =>
    serverSetEager env { w with mem := w.mem.alloc addr (value ++ [0]) } key addr
      value.length clientIdx

/-- The `g0` branch of `parse_data`. -/
def parseDataG0 (env : Env N) (w : World N) (key : Bytes) (clientIdx : Fin N) :
    Option (Ret × World N) :=
  match w.db.getValue key with
  | none =>
    match w.db.addGetQuery key clientIdx with
    | (ret, db) => some (ret, { w with db := db })
  | some (none, _) => none
  | some (some value, db) =>
    let w := { w with db := db }
    if value.isLarge = false then serverGetEager env w key value clientIdx
    else serverGetRendezvous env w clientIdx value

/-- The handling half of `parse_data`. -/
def handle (env : Env N) (w : World N) (clientIdx : Fin N) : Request → Option (Ret × World N)
  | .setAsk key => some (serverSetAsk env w key clientIdx)
  | .setEager key value => parseDataSe env w key value clientIdx
  | .setRendezvous key size => serverSetRendezvous env w clientIdx key size
  | .setFin key => serverSetFin env w key clientIdx
  | .getAsk key => some (serverGetAsk env w key clientIdx)
  | .get key => parseDataG0 env w key clientIdx
  | .getFin key => serverGetFin env w key clientIdx

/-- `parse_data` on the buffer of client `clientIdx`. -/
def parseData (env : Env N) (w : World N) (buf : Bytes) (clientIdx : Fin N) :
    Option (Ret × World N) :=
  match parseRequest buf with
  | .crash => none
  | .reject => some (.exitFailure, w)
  | .request r => handle env w clientIdx r

end RdmaWiki
