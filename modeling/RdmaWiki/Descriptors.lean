import RdmaWiki.ReplyBytes
import RdmaWiki.ServerLoop
import RdmaWiki.TextBounds

/-!
The descriptor of a memory region between its two ends.

`server_set_rendezvous` and `server_get_rendezvous` print a key and an address with
`"%u:%lu"`, and `client_set_rendezvous` and `client_get_rendezvous` scan them with
`"%u:%lu"`. The scan stops at the NUL, so that it gives back the pair for all keys and
addresses, whatever the buffers held before, and the RDMA operation of the client goes
exactly there (`descriptor_round_trips`).
-/

namespace RdmaWiki

open CText LibraryCalls

/-! ## Printing -/

section Printing

variable {N : ℕ} {env : Env N} {w w' : World N} {c : Fin N} {ret : Ret} {rkey : UInt32}
  {addr : UInt64}

/-- `send_data_str` posts its text, whatever becomes of it. -/
theorem sendDataStr_sent (env : Env N) (w : World N) (c : Fin N) (reply : Reply) :
    (sendDataStr env w c reply).2.sent =
      w.sent ++ if env.postSend w.sent.length then [(c, reply)] else [] := by
  unfold sendDataStr
  cases posted : env.postSend w.sent.length with
  | false => exact (List.append_nil _).symm
  | true =>
      cases waited : env.waitSend w.sent.length with
      | false => rfl
      | true => rfl

/-- A set is told where the memory is that was registered for it. -/
theorem serverSetRendezvous_sent {key : Bytes} {size : Int} (given : env.mallocBytes = some addr)
    (registered : env.regMr = some rkey)
    (handled : serverSetRendezvous env w c key size = some (ret, w')) :
    w'.sent = w.sent ++ if env.postSend w.sent.length then [(c, .region rkey addr)] else [] := by
  unfold serverSetRendezvous at handled
  simp only [given, registered] at handled
  split at handled
  next => cases handled
  next =>
    have sent := sendDataStr_sent env
      ⟨w.db, (w.mem.alloc addr ((env.junkBytes (size.toNat + 1)).set size.toNat 0)).register addr
        rkey size.toNat, w.sent⟩ c (.region rkey addr)
    split at handled
    next w₁ posted =>
      cases handled
      rw [posted] at sent
      exact sent
    next w₁ posted =>
      rw [posted] at sent
      split at handled
      next =>
        cases handled
        exact sent
      next =>
        cases handled
        exact sent

/-- A get is told the size first, and where the value is after that. -/
theorem serverGetRendezvous_sent {value : Value} (has : value.mr = some ⟨rkey, addr⟩)
    (delivered : env.Delivers w.sent.length)
    (handled : serverGetRendezvous env w c value = some (ret, w')) :
    w'.sent = w.sent ++ (c, .size value.size) ::
      if env.postSend (w.sent.length + 1) then [(c, .region rkey addr)] else [] := by
  unfold serverGetRendezvous at handled
  split at handled
  next w₁ posted =>
    rcases sendDataStr_cases posted with ⟨same, -⟩ | ⟨-, failed, -⟩
    · cases same
    · exact absurd delivered failed
  next w₁ posted =>
    obtain ⟨-, -, rfl⟩ | ⟨same, -⟩ := sendDataStr_cases posted
    · simp only [has, Option.some.injEq] at handled
      have sent := sendDataStr_sent env { w with sent := w.sent ++ [(c, .size value.size)] } c
        (.region rkey addr)
      rw [handled] at sent
      simpa using sent
    · cases same

end Printing

/-! ## The two buffers -/

/-- A buffer of a client in which a reply has landed that the server printed into its own
buffer. Both buffers may hold anything behind it. -/
def Landed (reply : Reply) (buf : Bytes) : Prop :=
  ∃ server client : Conn, buf = (client.land (onWire (server.send reply).1.buf)).buf

/-- `send_data_str` sends the text that was printed and its NUL, and nothing of what the
buffer held before. -/
theorem onWire_region (server : Conn) (rkey : UInt32) (addr : UInt64) :
    onWire (server.send (.region rkey addr)).1.buf = (Reply.region rkey addr).bytes := by
  have printed := text_region (writeFront_starts (Reply.region rkey addr).bytes server.buf)
  exact congrArg (· ++ [0]) printed

/-- The scan gives back the pair that was printed. -/
theorem Landed.reads {rkey : UInt32} {addr : UInt64} {buf : Bytes}
    (landed : Landed (.region rkey addr) buf) :
    readRegion (text buf) = some (.region rkey addr) := by
  obtain ⟨server, client, rfl⟩ := landed
  apply readRegion_bytes
  rw [onWire_region]
  exact writeFront_starts _ _

/-! ## Scanning -/

/-- The RDMA operations that were handed to `ibv_post_send`, oldest first. -/
def accesses (log : List ApiEvent) : List Work :=
  log.filterMap fun
    | ⟨.post (.write data rkey addr), _⟩ => some (.write data rkey addr)
    | ⟨.post (.read length rkey addr), _⟩ => some (.read length rkey addr)
    | _ => none

/-- The RDMA operation for the descriptor that the client finds in its buffer. -/
def accessFor (work : UInt32 → UInt64 → Work) (buf : Bytes) : Option Work :=
  match readRegion (text buf) with
  | some (.region rkey addr) => some (work rkey addr)
  | _ => none

/-- The call does not look at the buffer, and is no RDMA operation. -/
def LibCall.Local : LibCall → Prop
  | .contents | .post (.write _ _ _) | .post (.read _ _ _) => False
  | .malloc _ _ | .regMr | .deregMr | .post (.send _) | .poll _ | .valueBuf _ => True

section Access

variable {work : UInt32 → UInt64 → Work} {buf : Bytes}

theorem accessFor_region {rkey : UInt32} {addr : UInt64}
    (region : readRegion (text buf) = some (.region rkey addr)) :
    accessFor work buf = some (work rkey addr) := by
  rw [accessFor, region]

theorem accessFor_none
    (other : ∀ rkey addr, readRegion (text buf) = some (.region rkey addr) → False) :
    accessFor work buf = none := by
  unfold accessFor
  split
  next rkey addr region => exact (other rkey addr region).elim
  next => rfl

@[simp] theorem accesses_append (log log' : List ApiEvent) :
    accesses (log ++ log') = accesses log ++ accesses log' := List.filterMap_append

end Access

namespace Api

variable {α β : Type} {p : Api α} {f : α → Api β} {work : UInt32 → UInt64 → Work}
  {due : List Work}

/-- On every path the RDMA operations are those that are due, and one for each descriptor that
is looked at, in this order. -/
def Follows (work : UInt32 → UInt64 → Work) (due : List Work) (p : Api α) : Prop :=
  ∀ log out, p.Path log out → accesses log = due ++ (seen log).filterMap (accessFor work)

theorem Follows.of_calls (calls : p.Calls LibCall.Local) : Follows work [] p := by
  intro log out path
  have own := calls.of_path path
  have none : accesses log = [] := by
    apply List.filterMap_eq_nil_iff.mpr
    rintro ⟨call, answer⟩ member
    have here := own _ member
    cases call with
    | post posted =>
        cases posted with
        | send message => rfl
        | write data rkey addr => exact here.elim
        | read length rkey addr => exact here.elim
    | _ => rfl
  have blind : seen log = [] := by
    apply List.filterMap_eq_nil_iff.mpr
    rintro ⟨call, answer⟩ member
    have here := own _ member
    cases call with
    | contents => exact here.elim
    | _ => rfl
  rw [none, blind, List.filterMap_nil, List.append_nil]

theorem Follows.bind (first : Follows work due p) (second : ∀ a, Follows work [] (f a)) :
    Follows work due (p.bind f) := by
  apply Program.log_bind first second (fun _ follows => follows)
  intro before after follows follows'
  rw [accesses_append, seen_append, List.filterMap_append, follows, follows', List.nil_append,
    List.append_assoc]

/-- Looking at the buffer makes the operation due that its descriptor asks for. -/
theorem follows_look {f : Bytes → Api β}
    (rest : ∀ contents, Follows work (accessFor work contents).toList (f contents)) :
    Follows work [] ((lib .contents).bind f) := by
  intro log out path
  cases path with
  | @call _ _ log _ contents after =>
      have follows := rest contents log out after
      change accesses log = (contents :: seen log).filterMap (accessFor work)
      rw [follows]
      cases accessed : accessFor work contents with
      | none => exact (List.filterMap_cons_none accessed).symm
      | some operation => exact (List.filterMap_cons_some accessed).symm

theorem follows_write (data : Bytes) (addr : UInt64) (rkey : UInt32) :
    Follows work [.write data rkey addr] (ppPostRdmaWrite data addr rkey) := by
  intro log out path
  cases path with
  | call errno rest =>
      cases rest
      rfl

theorem follows_read (length : ℕ) (addr : UInt64) (rkey : UInt32) :
    Follows work [.read length rkey addr] (ppPostRdmaRead length addr rkey) := by
  intro log out path
  cases path with
  | call errno rest =>
      cases rest
      rfl

theorem follows_done (a : α) : Follows work [] (.done a : Api α) := .of_calls True.intro

theorem follows_stop (s : Stop) : Follows work [] (.stop s : Api α) := .of_calls True.intro

theorem follows_lib (call : LibCall) (own : call.Local) : Follows work [] (lib call) :=
  .of_calls ⟨own, fun _ => True.intro⟩

theorem follows_wait (awaits : Awaits) (iters patience counted : ℕ) :
    Follows work [] (ppWaitCompletions awaits iters patience counted) := by
  apply Follows.of_calls
  apply (wait_calls awaits iters patience counted).mono
  rintro call rfl
  exact True.intro

/-- A test that may end the call. -/
theorem Follows.check {failed : Prop} [Decidable failed] {a : β} {q : Api β}
    (rest : Follows work [] q) : Follows work [] (if failed then .done a else q) := by
  split
  · exact follows_done a
  · exact rest

theorem follows_sprintf (text : Bytes) : Follows work [] (sprintf text) := by
  unfold sprintf
  split
  · exact follows_done _
  · exact follows_stop _

theorem follows_sendDataStr (patience : ℕ) (buf : Bytes) :
    Follows work [] (sendDataStr patience buf) := by
  refine (follows_lib (.post (.send (onWire buf))) True.intro).bind fun errno => Follows.check ?_
  refine (follows_wait _ _ _ _).bind fun ret => Follows.check ?_
  exact follows_done _

theorem follows_finishRendezvous (patience : ℕ) (fin : Bytes) :
    Follows work [] (finishRendezvous patience fin) := by
  refine (follows_sprintf fin).bind fun buf => ?_
  refine (follows_sendDataStr patience buf).bind fun ret => Follows.check ?_
  refine (follows_lib .deregMr True.intro).bind fun errno => Follows.check ?_
  exact follows_done _

/-- `client_set_rendezvous` writes where the descriptor says. -/
theorem follows_clientSetRendezvous (patience : ℕ) (key value : CString) :
    Follows (.write value.bytes) [] (clientSetRendezvous patience key value) := by
  refine (follows_lib (.malloc .size 10) True.intro).bind fun msgSize => ?_
  split
  · exact follows_stop _
  · refine (follows_sprintf _).bind fun buf => ?_
    refine (follows_sendDataStr patience buf).bind fun ret => Follows.check ?_
    refine (follows_lib .regMr True.intro).bind fun mr => Follows.check ?_
    refine (follows_wait _ _ _ _).bind fun _ => follows_look fun contents => ?_
    split
    next rkey rAddr region =>
      rw [accessFor_region region]
      refine (follows_write _ _ _).bind fun errno => Follows.check ?_
      exact (follows_wait _ _ _ _).bind fun _ => follows_finishRendezvous patience _
    next other =>
      rw [accessFor_none other]
      exact follows_stop _

/-- `client_get_rendezvous` reads where the descriptor says. -/
theorem follows_clientGetRendezvous (patience : ℕ) (key : CString) (size : Int) :
    Follows (.read size.toNat) [] (clientGetRendezvous patience key size) := by
  unfold clientGetRendezvous
  split
  · exact follows_stop _
  · refine (follows_lib (.malloc .value _) True.intro).bind fun valueBuf => Follows.check ?_
    split
    · exact follows_stop _
    · refine (follows_lib .regMr True.intro).bind fun mr => Follows.check ?_
      refine (follows_wait _ _ _ _).bind fun _ => follows_look fun contents => ?_
      split
      next rkey rAddr region =>
        rw [accessFor_region region]
        refine (follows_read _ _ _).bind fun errno => Follows.check ?_
        refine (follows_wait _ _ _ _).bind fun _ => ?_
        refine (follows_finishRendezvous patience _).bind fun ret => Follows.check ?_
        exact (follows_lib (.valueBuf _) True.intro).bind fun bytes => follows_done _
      next other =>
        rw [accessFor_none other]
        exact follows_stop _

end Api

/-! ## The round trip -/

/-- The descriptor of `rkey` and `addr` gets from the server to the client. -/
structure RoundTrips (rkey : UInt32) (addr : UInt64) : Prop where
  /-- `server_set_rendezvous` prints the memory that it registers -/
  setPrints : ∀ (N : ℕ) (env : Env N) (w w' : World N) (c : Fin N) (key : Bytes) (size : Int)
    (ret : Ret), env.mallocBytes = some addr → env.regMr = some rkey →
    serverSetRendezvous env w c key size = some (ret, w') →
    w'.sent = w.sent ++ if env.postSend w.sent.length then [(c, .region rkey addr)] else []
  /-- `server_get_rendezvous` prints the memory of the value, when its size is sent -/
  getPrints : ∀ (N : ℕ) (env : Env N) (w w' : World N) (c : Fin N) (value : Value) (ret : Ret),
    value.mr = some ⟨rkey, addr⟩ → env.Delivers w.sent.length →
    serverGetRendezvous env w c value = some (ret, w') →
    w'.sent = w.sent ++ (c, .size value.size) ::
      if env.postSend (w.sent.length + 1) then [(c, .region rkey addr)] else []
  /-- the scan sets both variables to the pair, whatever the buffers held before -/
  scanned : ∀ buf, Landed (.region rkey addr) buf →
    readRegion (text buf) = some (.region rkey addr)
  /-- `client_set_rendezvous` scans it so -/
  setReads : ∀ (patience : ℕ) (key value : CString) (log : List ApiEvent) (out : Except Stop Ret),
    (Api.clientSetRendezvous patience key value).Path log out →
    (∀ buf ∈ seen log, Landed (.region rkey addr) buf) →
    accesses log = (seen log).map fun _ => .write value.bytes rkey addr
  /-- `client_get_rendezvous` scans it so -/
  getReads : ∀ (patience : ℕ) (key : CString) (size : Int) (log : List ApiEvent)
    (out : Except Stop (Ret × Option Bytes)),
    (Api.clientGetRendezvous patience key size).Path log out →
    (∀ buf ∈ seen log, Landed (.region rkey addr) buf) →
    accesses log = (seen log).map fun _ => .read size.toNat rkey addr

/-- Operations for buffers in which the descriptor has landed. -/
theorem accessFor_landed {rkey : UInt32} {addr : UInt64} (work : UInt32 → UInt64 → Work)
    {bufs : List Bytes} (landed : ∀ buf ∈ bufs, Landed (.region rkey addr) buf) :
    bufs.filterMap (accessFor work) = bufs.map fun _ => work rkey addr := by
  rw [← List.filterMap_eq_map]
  apply List.filterMap_congr
  intro buf member
  exact accessFor_region (landed buf member).reads

/-- Every descriptor that the server prints is scanned by the client as the pair that it was
printed from. -/
theorem descriptor_round_trips (rkey : UInt32) (addr : UInt64) : RoundTrips rkey addr where
  setPrints _ _ _ _ _ _ _ _ given registered handled :=
    serverSetRendezvous_sent given registered handled
  getPrints _ _ _ _ _ _ _ has delivered handled := serverGetRendezvous_sent has delivered handled
  scanned _ landed := landed.reads
  setReads patience key value log out path landed := by
    rw [Api.follows_clientSetRendezvous patience key value log out path, List.nil_append]
    exact accessFor_landed _ landed
  getReads patience key size log out path landed := by
    rw [Api.follows_clientGetRendezvous patience key size log out path, List.nil_append]
    exact accessFor_landed _ landed

/-- The largest descriptor has landed over the reply to an eager get. -/
def largestBuf : Bytes :=
  ((⟨(Reply.eager (List.replicate 99 97)).bytes, [], 0, 0, rxDepth⟩ : Conn).land
    (onWire ((Conn.start true).send (.region 4294967295 18446744073709551615)).1.buf)).buf

/-- A set that finds it. -/
def largestSet : List ApiEvent :=
  [⟨.malloc .size 10, true⟩,
    ⟨.post (.send (onWire (flagKeyText .sr keyK.bytes (sizeText valueV.bytes)))), (0 : Int)⟩,
    ⟨.poll .send, .taken [.success .send]⟩, ⟨.regMr, true⟩,
    ⟨.poll .reply, .taken [.success .recv]⟩, ⟨.contents, largestBuf⟩,
    ⟨.post (.write valueV.bytes 4294967295 18446744073709551615), (0 : Int)⟩,
    ⟨.poll .access, .taken [.success .send]⟩,
    ⟨.post (.send (onWire (flagKey .fs keyK.bytes))), (0 : Int)⟩,
    ⟨.poll .send, .taken [.success .send]⟩, ⟨.deregMr, (0 : Int)⟩]

theorem descriptor_round_trips_largest :
    (Api.clientSetRendezvous 1 keyK valueV).Path largestSet (.ok .exitSuccess) ∧
      accesses largestSet = [.write valueV.bytes 4294967295 18446744073709551615] := by
  have path : (Api.clientSetRendezvous 1 keyK valueV).Path largestSet (.ok .exitSuccess) :=
    Program.path_of_replay (by decide +kernel)
  refine ⟨path, (descriptor_round_trips _ _).setReads 1 keyK valueV _ _ path fun buf member => ?_⟩
  obtain rfl := List.mem_singleton.mp member
  exact ⟨_, _, rfl⟩

end RdmaWiki
