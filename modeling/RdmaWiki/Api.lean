import RdmaWiki.Lib.LibraryCalls
import RdmaWiki.ClientLoop

/-!
`kv_set` and `kv_get`, whatever the library and verbs calls return.

The functions of `client.c` are written here as programs over the calls that can fail:
`malloc`, `ibv_reg_mr`, `ibv_dereg_mr`, `ibv_post_send` and `ibv_poll_cq`. What `ctx->buf`
and `value_buf` hold when the client looks at them is up to the adapter and is an answer
too. The handle's `routs` and the receives posted anew are left out, since posting them is
not among the failures that are considered.

A wait may poll for ever. `patience` is the number of polls after which a wait is given up
here (`Stop.polling`).

The source checks its calls in three ways: for any nonzero result, for `EXIT_FAILURE` (the
two posts of RDMA operations, which return an `errno`), and not at all (every wait but the
one of `send_data_str`, and two of three `malloc`).
-/

namespace RdmaWiki

open CText LibraryCalls

/-! ## The calls -/

/-- What is handed to `ibv_post_send`. -/
inductive Work
  | send (message : Bytes)
  | write (data : Bytes) (rkey : UInt32) (addr : UInt64)
  | read (length : ℕ) (rkey : UInt32) (addr : UInt64)
deriving DecidableEq

/-- What a wait is for. -/
inductive Awaits
  /-- the send that `send_data_str` has posted -/
  | send
  /-- the RDMA operation -/
  | access
  | reply
deriving DecidableEq

/-- What `malloc` is called for. -/
inductive Chunk
  /-- `msg_size` -/
  | size
  /-- `value_buf` -/
  | value
  /-- `*value` of an eager get -/
  | copy
deriving DecidableEq

inductive LibCall
  | malloc (chunk : Chunk) (n : ℕ)
  | regMr
  | deregMr
  | post (work : Work)
  | poll (awaits : Awaits)
  /-- look at `ctx->buf` -/
  | contents
  /-- the first `n` bytes of `value_buf`, as the caller of `kv_get` finds them -/
  | valueBuf (n : ℕ)
deriving DecidableEq

/-- A work completion that `ibv_poll_cq` reports. -/
inductive Completion
  | success (wc : Wc)
  /-- `wc.status != IBV_WC_SUCCESS` -/
  | error
deriving DecidableEq

inductive Polled
  /-- `ibv_poll_cq` returned a negative number -/
  | failed
  | taken (wcs : List Completion)
deriving DecidableEq

/-- A `malloc` or `ibv_reg_mr` returns NULL or not; the `int` of `ibv_dereg_mr` and
`ibv_post_send` is 0 or an `errno`. -/
abbrev LibCall.Answer : LibCall → Type
  | .malloc _ _ => Bool
  | .regMr => Bool
  | .deregMr => Int
  | .post _ => Int
  | .poll _ => Polled
  | .contents => Bytes
  | .valueBuf _ => Bytes

/-- Why a call does not return. -/
inductive Stop
  /-- NULL is followed, a buffer is left, or a variable is used that was never set -/
  | undefined
  | polling
deriving DecidableEq

abbrev Api := Program LibCall LibCall.Answer Stop

namespace Api

def lib (call : LibCall) : Api call.Answer := .invoke call

/-! ## Helper functions -/

/-- `pp_wait_completions(&ctx, iters)` when `counted` completions are counted already. -/
def ppWaitCompletions (awaits : Awaits) (iters : ℕ) : ℕ → ℕ → Api Ret
  | 0, counted => if iters ≤ counted then .done .exitSuccess else .stop .polling
  | patience + 1, counted =>
    if iters ≤ counted then .done .exitSuccess
    else .call (.poll awaits) fun
      | .failed => .done .exitFailure
      | .taken wcs =>
        if .error ∈ wcs then .done .exitFailure
        else ppWaitCompletions awaits iters patience (counted + wcs.length)

/-- `flagged_pp_post_send` of the string in the buffer. -/
def flaggedPpPostSend (buf : Bytes) : Api Int := lib (.post (.send (onWire buf)))

def ppPostRdmaWrite (data : Bytes) (rAddr : UInt64) (rkey : UInt32) : Api Int :=
  lib (.post (.write data rkey rAddr))

def ppPostRdmaRead (length : ℕ) (rAddr : UInt64) (rkey : UInt32) : Api Int :=
  lib (.post (.read length rkey rAddr))

/-- `sprintf` into `ctx->buf`. -/
def sprintf (text : Bytes) : Api Bytes :=
  if text.length ≤ bufSize then .done text else .stop .undefined

def sendDataStr (patience : ℕ) (buf : Bytes) : Api Ret := do
  let errno ← flaggedPpPostSend buf
  if errno ≠ 0 then return .exitFailure
  else
    let ret ← ppWaitCompletions .send 1 patience 0
    if ret = .exitFailure then return .exitFailure
    else return .exitSuccess

/-! ## Sets -/

def clientSetEager (patience : ℕ) (key value : CString) : Api Ret := do
  let buf ← sprintf (flagKeyText .se key.bytes value.bytes)
  let ret ← sendDataStr patience buf
  if ret = .exitFailure then return .exitFailure
  else return .exitSuccess

/-- The end of `client_set_rendezvous`: the FIN, and the region is deregistered. -/
def finishRendezvous (patience : ℕ) (fin : Bytes) : Api Ret := do
  let buf ← sprintf fin
  let ret ← sendDataStr patience buf
  if ret = .exitFailure then return .exitFailure
  else
    let errno ← lib .deregMr
    if errno ≠ 0 then return .exitFailure
    else return .exitSuccess

def clientSetRendezvous (patience : ℕ) (key value : CString) : Api Ret := do
  let msgSize ← lib (.malloc .size 10)
  -- `sprintf(msg_size, "%lu", ...)` into ten bytes, or to NULL
  if msgSize = false ∨ 10 < (sizeText value.bytes).length + 1 then .stop .undefined
  else
    let buf ← sprintf (flagKeyText .sr key.bytes (sizeText value.bytes))
    let ret ← sendDataStr patience buf
    if ret = .exitFailure then return .exitFailure
    else
      let mr ← lib .regMr
      if mr = false then return .exitFailure
      else
        let _ ← ppWaitCompletions .reply 1 patience 0
        let contents ← lib .contents
        match readRegion (text contents) with
        | some (.region rkey rAddr) =>
          let errno ← ppPostRdmaWrite value.bytes rAddr rkey
          if errno = 1 then return .exitFailure
          else
            let _ ← ppWaitCompletions .access 1 patience 0
            finishRendezvous patience (flagKey .fs key.bytes)
        | _ => .stop .undefined

def kvSet (patience : ℕ) (key value : CString) : Api Ret := do
  let buf ← sprintf (flagKey .as key.bytes)
  let ret ← sendDataStr patience buf
  if ret = .exitFailure then return .exitFailure
  else
    let _ ← ppWaitCompletions .reply 1 patience 0
    let contents ← lib .contents
    if contents.head? = some 'F'.toUInt8 then return .exitSuccess
    else
      let ret ← (if isEager value.bytes then clientSetEager patience key value
        else clientSetRendezvous patience key value)
      if ret = .exitFailure then return .exitFailure
      else
        let _ ← ppWaitCompletions .reply 1 patience 0
        return .exitSuccess

/-! ## Gets -/

/-- `client_get_rendezvous`, with what it leaves in `*value`. -/
def clientGetRendezvous (patience : ℕ) (key : CString) (size : Int) :
    Api (Ret × Option Bytes) := do
  -- `size + 1` overflows
  if size = intMax then .stop .undefined
  else
    let valueBuf ← lib (.malloc .value ((size + 1) % 2 ^ 64).toNat)
    if valueBuf = false then return (.exitFailure, none)
    else if size < 0 then .stop .undefined
    else
      let mr ← lib .regMr
      if mr = false then return (.exitFailure, none)
      else
        let _ ← ppWaitCompletions .reply 1 patience 0
        let contents ← lib .contents
        match readRegion (text contents) with
        | some (.region rkey rAddr) =>
          let errno ← ppPostRdmaRead size.toNat rAddr rkey
          if errno = 1 then return (.exitFailure, none)
          else
            let _ ← ppWaitCompletions .access 1 patience 0
            let ret ← finishRendezvous patience (flagKey .fg key.bytes)
            if ret = .exitFailure then return (.exitFailure, none)
            else
              let bytes ← lib (.valueBuf size.toNat)
              return (.exitSuccess, some (text (bytes ++ [0])))
        | _ => .stop .undefined

/-- `kv_get`, with what it leaves in `*value`. -/
def kvGet (patience : ℕ) (key : CString) : Api (Ret × Option Bytes) := do
  let buf ← sprintf (flagKey .ag key.bytes)
  let ret ← sendDataStr patience buf
  if ret = .exitFailure then return (.exitFailure, none)
  else
    let _ ← ppWaitCompletions .reply 1 patience 0
    let buf ← sprintf (flagKey .g0 key.bytes)
    let ret ← sendDataStr patience buf
    if ret = .exitFailure then return (.exitFailure, none)
    else
      let _ ← ppWaitCompletions .reply 1 patience 0
      let contents ← lib .contents
      if contents.head? = some 'e'.toUInt8 then
        let buf := text (contents.drop 2)
        let copy ← lib (.malloc .copy (buf.length + 1))
        if copy = false then .stop .undefined
        else
          let _ ← ppWaitCompletions .reply 1 patience 0
          return (.exitSuccess, some buf)
      else
        match readSize (text contents) with
        | some (.size size) =>
          let (ret, value) ← clientGetRendezvous patience key size
          if ret = .exitFailure then return (.exitFailure, none)
          else
            let _ ← ppWaitCompletions .reply 1 patience 0
            return (.exitSuccess, value)
        | _ => .stop .undefined

end Api

/-- A call of the API, with what it leaves in `*value`. -/
def Call.api (patience : ℕ) : Call → Api (Ret × Option Bytes)
  | .kvSet key value => do
    let ret ← Api.kvSet patience key value
    return (ret, none)
  | .kvGet key => Api.kvGet patience key

end RdmaWiki
