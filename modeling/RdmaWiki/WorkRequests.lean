import RdmaWiki.Credits

/-!
The receive work requests that are posted on a queue pair, and where they point.

`pp_post_recv` takes the address and the length from the context that it is given.
`init_connection` and `receive_query` give it a handle, whose `buf` and `size` are those of its
registered buffer of 4 KB. A wait inside `send_data_str`, `send_ACK` or `send_NACK` gives it a
copy whose `size` is the length of the outgoing message, so that what is posted there is too
short for the next request. Both loops are watched here together with their posted requests.
A client never posts anew, and the requests of the server stay whole exactly as long as no
such wait uses up its credits (`requests_whole`).
-/

namespace RdmaWiki

open CText StepMachine

/-! ## Contexts -/

/-- The fields of a `struct pingpong_context` that `pp_post_recv` reads. -/
structure PostContext where
  buf : UInt64
  size : ℕ
deriving DecidableEq

/-- A receive work request: where the next message goes, and how long it may be. -/
structure RecvWr where
  addr : UInt64
  length : ℕ
deriving DecidableEq

namespace PostContext

/-- The context of a handle whose registered buffer is at `buf`. -/
def handle (buf : UInt64) : PostContext := ⟨buf, 4 * KB⟩

/-- `pp_post_recv`, none of whose requests is refused. -/
def ppPostRecv (ctx : PostContext) (n : ℕ) : List RecvWr := List.replicate n ⟨ctx.buf, ctx.size⟩

/-- The copy in `send_data_str`, for the string at `buf`. -/
def sendDataStr (ctx : PostContext) (buf : UInt64) (s : Bytes) : PostContext :=
  { ctx with buf := buf, size := s.length + 1 }

/-- The copy in `send_ACK` and `send_NACK`. -/
def sendAck (ctx : PostContext) : PostContext := { ctx with size := 1 }

end PostContext

/-- The oldest request takes a message that is not too long for it. -/
def consume (message : Bytes) : List RecvWr → Option (List RecvWr)
  | [] => none
  | wr :: rest => if message.length ≤ wr.length then some rest else none

/-- The request of a handle's own buffer, all of it. -/
def RecvWr.whole (buf : UInt64) : RecvWr := ⟨buf, 4 * KB⟩

theorem consume_subset {message : Bytes} {wrs rest : List RecvWr}
    (consumed : consume message wrs = some rest) : rest ⊆ wrs := by
  cases wrs with
  | nil => cases consumed
  | cons wr wrs =>
      simp only [consume] at consumed
      split at consumed
      next =>
        cases consumed
        exact List.subset_cons_self wr rest
      next => cases consumed

/-! ## The server -/

section Server

variable {N : ℕ}

/-- The posted requests of every connection, oldest first, and the copy of the send whose
completion is waited for. -/
structure ServerWrs (N : ℕ) where
  posted : Fin N → List RecvWr
  copy : PostContext

/-- The copy that a reply is sent with. -/
def Conn.copy (conn : Conn) (buf : UInt64) : Reply → PostContext
  | .ack | .nack => (PostContext.handle buf).sendAck
  | reply => (PostContext.handle buf).sendDataStr buf (text (conn.send reply).1.buf)

/-- What a wait on `ctx` posts on the connection `c`. -/
def ServerState.reposts (s : ServerState N) (c : Fin N) (n : ℕ) (ctx : PostContext) :
    List RecvWr :=
  ctx.ppPostRecv ((Wait.start (s.conns c).routs).absorbPosts ((s.conns c).queue.take n))

/-- The posted requests after a step. -/
def ServerState.workRequests (bufs : Fin N → UInt64) (s : ServerState N)
    (action : ServerAction N) (_ : ServerState N) (r : ServerWrs N) : Option (ServerWrs N) :=
  match action with
  | .land c message =>
    (consume (onWire message.bytes) (r.posted c)).map fun rest =>
      { r with posted := Function.update r.posted c rest }
  | .poll n =>
    match s.pc with
    | .polling c => some { r with
        posted := Function.update r.posted c
          (r.posted c ++ s.reposts c n (.handle (bufs c))) }
    | .waiting c _ _ => some { r with
        posted := Function.update r.posted c (r.posted c ++ s.reposts c n r.copy) }
    | _ => some r
  | .send =>
    match s.pc with
    | .sending ((c, reply) :: _) => some { r with copy := (s.conns c).copy (bufs c) reply }
    | _ => some r
  | _ => some r

/-- The server loop with the requests that are posted on its queue pairs, for handles whose
buffers are at `bufs`. -/
def serverWorkRequests (N : ℕ) [NeZero N] (bufs : Fin N → UInt64) :
    Machine (ServerState N × ServerWrs N) (ServerAction N) (ServerEvent N) :=
  (serverLoop N).watch
    ⟨fun c => (PostContext.handle (bufs c)).ppPostRecv rxDepth, .handle 0⟩
    (ServerState.workRequests bufs)

/-- Every posted request points at its handle's own buffer, all of it. -/
def ServerWrs.Whole (bufs : Fin N → UInt64) (r : ServerWrs N) : Prop :=
  ∀ c, ∀ wr ∈ r.posted c, wr = .whole (bufs c)

/-- The connection of the send that is waited for. -/
def ServerPc.waitsOn : ServerPc N → Option (Fin N)
  | .waiting c _ _ => some c
  | _ => none

theorem ServerPc.waitsOn_eq {pc : ServerPc N} {c : Fin N} (waits : c ∈ pc.waitsOn) :
    ∃ first todo, pc = .waiting c first todo := by
  cases pc with
  | waiting d first todo =>
      cases waits
      exact ⟨first, todo, rfl⟩
  | polling d | parsing d | sending todo | crashed => cases waits

/-- The wait of a send leaves more than 10 credits, or the message fills the buffer. -/
def creditsLeft : Guard (ServerState N × ServerWrs N) (ServerAction N) (ServerEvent N)
  | _, s, .poll n => ∀ c ∈ s.1.pc.waitsOn,
    ((s.1.conns c).queue.take n).count .recv + 10 < (s.1.conns c).routs ∨
      s.2.copy.size = 4 * KB
  | _, _, _ => True

/-- A wait posts nothing exactly while more than 10 credits are left. -/
theorem Wait.absorbPosts_eq_zero_iff (wait : Wait) (batch : List Wc) (stocked : 10 < wait.routs) :
    wait.absorbPosts batch = 0 ↔ batch.count .recv + 10 < wait.routs := by
  induction batch generalizing wait with
  | nil => exact iff_of_true rfl (by simpa using stocked)
  | cons wc rest ih =>
      rw [Wait.absorbPosts]
      cases wc with
      | send =>
          have others := ih (wait.count .send) stocked
          have skipped : (Wc.send :: rest).count Wc.recv = rest.count .recv :=
            List.count_cons_of_ne (by decide)
          rw [skipped, Wait.posts, Nat.zero_add]
          exact others
      | recv =>
          rw [List.count_cons_self, Wait.posts]
          by_cases few : wait.routs - 1 ≤ 10
          · rw [if_pos few]
            unfold rxDepth
            omega
          · have left : (wait.count .recv).routs = wait.routs - 1 := by
              simp only [Wait.count, if_neg few]
            have others := ih (wait.count .recv) (by omega)
            rw [left] at others
            rw [if_neg few, Nat.zero_add, others]
            omega

section Steps

variable {s s' : ServerState N} {r r' : ServerWrs N} {bufs : Fin N → UInt64}

/-- The credits of every handle are between the limit and `rx_depth`. -/
def ServerState.Stocked (s : ServerState N) : Prop := ∀ c, RdmaWiki.Stocked (s.conns c).routs

/-- Only the poll of `receive_query` changes the credits of a handle. -/
theorem ServerState.Stocked.next [NeZero N] {action : ServerAction N}
    {events : List (ServerEvent N)} (stocked : s.Stocked)
    (stepped : s.next action = some (s', events)) : s'.Stocked := by
  rcases Classical.em (∃ n, action = .poll n) with ⟨n, rfl⟩ | other
  · obtain ⟨after, polled, done⟩ := Option.map_eq_some_iff.mp stepped
    cases done
    obtain ⟨c, conn, -, changed, -, counted⟩ := ServerState.poll_routs polled
    have own : RdmaWiki.Stocked conn.routs := by
      rcases counted with ⟨-, routs⟩ | ⟨-, routs⟩
      · rw [routs]
        exact ((Wait.start (s.conns c).routs).absorb_stocked _ (stocked c)).1
      · rw [routs]
        exact stocked c
    intro d
    rw [changed]
    rcases eq_or_ne d c with rfl | other
    · rw [Function.update_self]
      exact own
    · rw [Function.update_of_ne other]
      exact stocked d
  · intro d
    rw [ServerState.routs_kept stepped (not_exists.mp other) d]
    exact stocked d

/-- The copy of a send points at the handle's own buffer. -/
theorem Conn.copy_buf (conn : Conn) (buf : UInt64) (reply : Reply) :
    (conn.copy buf reply).buf = buf := by
  cases reply <;> rfl

/-- The copy of the send that is waited for points at the buffer that it was taken from. -/
def CopyOf (bufs : Fin N → UInt64) (s : ServerState N) (r : ServerWrs N) : Prop :=
  ∀ c first todo, s.pc = .waiting c first todo → r.copy.buf = bufs c

/-- What is posted on one connection is whole, and nothing else changes. -/
theorem ServerWrs.Whole.update_iff {c : Fin N} {wrs : List RecvWr} (whole : r.Whole bufs) :
    ServerWrs.Whole bufs { r with posted := Function.update r.posted c wrs } ↔
      ∀ wr ∈ wrs, wr = .whole (bufs c) := by
  constructor
  · intro all wr member
    apply all c wr
    simp only [Function.update_self]
    exact member
  · intro own d wr member
    rcases eq_or_ne d c with rfl | other
    · simp only [Function.update_self] at member
      exact own wr member
    · simp only [Function.update_of_ne other] at member
      exact whole d wr member

/-- What a wait adds is whole exactly if it is nothing, or the context is that of the handle. -/
theorem ServerWrs.Whole.reposts_iff {c : Fin N} {n : ℕ} {ctx : PostContext} (whole : r.Whole bufs)
    (own : ctx.buf = bufs c) (stocked : s.Stocked) :
    ServerWrs.Whole bufs { r with
        posted := Function.update r.posted c (r.posted c ++ s.reposts c n ctx) } ↔
      ((s.conns c).queue.take n).count .recv + 10 < (s.conns c).routs ∨ ctx.size = 4 * KB := by
  have nothing := (Wait.start (s.conns c).routs).absorbPosts_eq_zero_iff
    ((s.conns c).queue.take n) (stocked c).1
  rw [whole.update_iff, List.forall_mem_append]
  change _ ↔ _ < (Wait.start (s.conns c).routs).routs ∨ _
  rw [← nothing]
  constructor
  · rintro ⟨-, added⟩
    by_cases none : (Wait.start (s.conns c).routs).absorbPosts ((s.conns c).queue.take n) = 0
    · exact .inl none
    · exact .inr (congrArg RecvWr.length (added _ (List.mem_replicate.mpr ⟨none, rfl⟩)))
  · intro kept
    refine ⟨whole c, fun wr member => ?_⟩
    obtain ⟨some, rfl⟩ := List.mem_replicate.mp member
    rw [kept.resolve_left some, own]
    rfl

/-- Only a send takes a new copy, and it is waited for on the connection it was taken from. -/
theorem CopyOf.next [NeZero N] {action : ServerAction N} {events : List (ServerEvent N)}
    (copied : CopyOf bufs s r) (stepped : s.next action = some (s', events))
    (recorded : s.workRequests bufs action s' r = some r') : CopyOf bufs s' r' := by
  have kept (pc : s'.pc = s.pc) (copy : r'.copy = r.copy) : CopyOf bufs s' r' := by
    intro c first todo here
    rw [copy]
    exact copied c first todo (pc.symm.trans here)
  cases action with
  | land c message =>
      obtain ⟨rest, -, taken⟩ := Option.map_eq_some_iff.mp recorded
      cases taken
      simp only [ServerState.next] at stepped
      split at stepped
      next =>
        cases stepped
        exact kept rfl rfl
      next => cases stepped
  | rdmaWrite addr rkey data =>
      cases stepped
      cases recorded
      exact kept rfl rfl
  | complete c wc =>
      obtain ⟨conn, -, done⟩ := Option.map_eq_some_iff.mp stepped
      cases done
      cases recorded
      exact kept rfl rfl
  | poll n =>
      have copy : r'.copy = r.copy := by
        simp only [ServerState.workRequests] at recorded
        split at recorded <;>
        · cases recorded
          rfl
      obtain ⟨after, polled, done⟩ := Option.map_eq_some_iff.mp stepped
      cases done
      rcases ServerState.poll_cases polled with
        ⟨-, rfl | ⟨index, -, rfl⟩⟩ | ⟨index, batch, conn, routs, -, -, -, rfl⟩ |
        ⟨c, first, todo, batch, conn, -, -, -, rfl⟩
      · exact kept rfl copy
      all_goals
        intro d first others waits
        cases waits
  | parse addr rkey =>
      intro d first others waits
      obtain ⟨c, -, -, -, crashed | ⟨todo, sending⟩⟩ := ServerState.parse_cases stepped
      · cases crashed.symm.trans waits
      · cases sending.symm.trans waits
  | send =>
      rcases ServerState.send_cases stepped with ⟨-, -, rfl⟩ | ⟨c, reply, todo, here, -, rfl⟩
      · intro d first others waits
        cases waits
      · simp only [ServerState.workRequests, here] at recorded
        cases recorded
        intro d first others waits
        cases waits
        exact (s.conns c).copy_buf (bufs c) reply

/-- A step keeps the requests whole exactly if it leaves credits. -/
theorem ServerWrs.Whole.next_iff {action : ServerAction N} {trace : List (ServerEvent N)}
    (whole : r.Whole bufs) (copied : CopyOf bufs s r) (stocked : s.Stocked)
    (recorded : s.workRequests bufs action s' r = some r') :
    r'.Whole bufs ↔ creditsLeft trace (s, r) action := by
  cases action with
  | land c message =>
      obtain ⟨rest, consumed, taken⟩ := Option.map_eq_some_iff.mp recorded
      cases taken
      apply iff_of_true _ True.intro
      rw [whole.update_iff]
      intro wr member
      exact whole c wr (consume_subset consumed member)
  | rdmaWrite addr rkey data | complete c wc | parse addr rkey =>
      cases recorded
      exact iff_of_true whole True.intro
  | poll n =>
      change _ ↔ ∀ c ∈ s.pc.waitsOn,
        ((s.conns c).queue.take n).count .recv + 10 < (s.conns c).routs ∨ r.copy.size = 4 * KB
      simp only [ServerState.workRequests] at recorded
      split at recorded
      next c here =>
        -- `receive_query` waits on the handle itself
        cases recorded
        rw [here, whole.reposts_iff rfl stocked]
        apply iff_of_true (.inr rfl)
        rintro d ⟨⟩
      next c first todo here =>
        cases recorded
        rw [here, whole.reposts_iff (copied c first todo here) stocked]
        constructor
        · rintro kept d ⟨⟩
          exact kept
        · intro kept
          exact kept c rfl
      next elsewhere =>
        cases recorded
        refine iff_of_true whole fun d waits => ?_
        obtain ⟨first, todo, here⟩ := ServerPc.waitsOn_eq waits
        exact absurd here (elsewhere d first todo)
  | send =>
      apply iff_of_true _ True.intro
      simp only [ServerState.workRequests] at recorded
      split at recorded <;>
      · cases recorded
        exact whole

end Steps

section Runs

variable [NeZero N] {trace : List (ServerEvent N)} {s : ServerState N} {r : ServerWrs N}
  {bufs : Fin N → UInt64}

theorem copyOf_of_run {guard : Guard (ServerState N × ServerWrs N) (ServerAction N) (ServerEvent N)}
    (run : (serverWorkRequests N bufs).Run guard trace (s, r)) :
    CopyOf bufs s r ∧ s.Stocked := by
  refine run.watched (fun s r => CopyOf bufs s r ∧ s.Stocked) ⟨?_, fun _ => stocked_rxDepth⟩ ?_
  · intro c first todo waits
    cases waits
  · intro trace s action s' events r r' _ ⟨copied, stocked⟩ stepped recorded
    exact ⟨copied.next stepped recorded, stocked.next stepped⟩

/-- The requests of the server stay whole while its sends leave credits. -/
theorem whole_of_run (run : (serverWorkRequests N bufs).Run creditsLeft trace (s, r)) :
    r.Whole bufs := by
  refine run.invariant (fun _ s => s.2.Whole bufs) ?_ ?_
  · intro c wr member
    exact List.eq_of_mem_replicate member
  · intro trace ⟨s, r⟩ action ⟨s', r'⟩ events before whole met next
    obtain ⟨copied, stocked⟩ := copyOf_of_run before
    exact (whole.next_iff copied stocked (Machine.watch_next.mp next).2).mpr met

end Runs

end Server

/-! ## The client -/

section Client

/-- The posted requests of a client, oldest first, and the copy in `send_data_str`. -/
structure ClientWrs where
  posted : List RecvWr
  copy : PostContext
deriving DecidableEq

/-- The posted requests after a step. Only the wait in `send_data_str` has a copy of another
size than the handle. -/
def ClientState.workRequests (buf : UInt64) (s : ClientState × ClientReceives)
    (action : ClientAction) (_ : ClientState × ClientReceives) (r : ClientWrs) :
    Option ClientWrs :=
  match action with
  | .step _ =>
    match s.1.stage with
    | .post request => some { r with
        copy := (PostContext.handle buf).sendDataStr buf (text (writeFront request s.1.conn.buf)) }
    | _ => some r
  | .land reply =>
    (consume reply.bytes r.posted).map fun rest => { r with posted := rest }
  | .poll n =>
    let ctx := if s.1.stage = .posted ∧ ¬ s.1.phase.access then r.copy else .handle buf
    some { r with
      posted := r.posted ++ ctx.ppPostRecv
        ((Wait.start (s.1.waitRouts s.2)).absorbPosts (s.1.conn.queue.take n)) }
  | _ => some r

/-- The client loop with the contexts of its calls and the requests that are posted on its
queue pair, for a handle whose buffer is at `buf`. -/
def clientWorkRequests (buf : UInt64) :
    Machine ((ClientState × ClientReceives) × ClientWrs) ClientAction ClientEvent :=
  clientReceives.watch ⟨(PostContext.handle buf).ppPostRecv rxDepth, .handle buf⟩
    (ClientState.workRequests buf)

/-- No wait of a client posts anything. -/
theorem ClientCredits.absorbPosts {s s' : ClientState} {r : ClientReceives} {n : ℕ}
    {events : List ClientEvent} (credits : ClientCredits s r)
    (polled : s.poll n = some (s', events)) :
    (Wait.start (s.waitRouts r)).absorbPosts (s.conn.queue.take n) = 0 := by
  obtain ⟨waits, small, -⟩ := ClientState.poll_takes polled
  have depth := ClientState.depth_waits waits
  exact (credits.wait.absorb (depth.trans_le s.phase.depth_le) small).2

/-- The requests of a client stay whole. -/
theorem client_whole_of_run {buf : UInt64} {trace : List ClientEvent} {s : ClientState}
    {r : ClientReceives} {w : ClientWrs}
    (run : (clientWorkRequests buf).Run always trace ((s, r), w)) :
    ∀ wr ∈ w.posted, wr = .whole buf := by
  refine (run.watched (fun s w => ClientCredits s.1 s.2 ∧ ∀ wr ∈ w.posted, wr = .whole buf)
    ⟨?_, ?_⟩ ?_).2
  · exact ⟨rfl, rfl, ⟨Nat.le_add_right .., le_rfl⟩, fun _ => ⟨Nat.le_add_right .., le_rfl⟩⟩
  · intro wr member
    exact List.eq_of_mem_replicate member
  · intro trace ⟨s, r⟩ action ⟨s', r'⟩ events w w' _ ⟨credits, whole⟩ stepped recorded
    obtain ⟨stepped, received⟩ := Machine.watch_next.mp stepped
    refine ⟨credits.next stepped received, ?_⟩
    cases action with
    | invoke call | complete wc =>
        cases recorded
        exact whole
    | step mem =>
        simp only [ClientState.workRequests] at recorded
        split at recorded <;>
        · cases recorded
          exact whole
    | land reply =>
        obtain ⟨rest, consumed, taken⟩ := Option.map_eq_some_iff.mp recorded
        cases taken
        intro wr member
        exact whole wr (consume_subset consumed member)
    | poll n =>
        have none := credits.absorbPosts stepped
        simp only [ClientState.workRequests, none, PostContext.ppPostRecv, List.replicate_zero,
          List.append_nil] at recorded
        cases recorded
        exact whole

end Client

/-! ## A server that runs out of credits -/

section Replay

/-- A server that has only heard of client 0. -/
def ServerState.hearing (conn : Conn) (db : Database numClients) (mem : Mem)
    (pc : ServerPc numClients) : ServerState numClients :=
  ⟨Function.update (fun _ => .start true) 0 conn, db, mem, 0, pc⟩

/-- `n` requests are left on the connection of client 0, and all on the other. -/
def ServerWrs.left (bufs : Fin numClients → UInt64) (n : ℕ) (copy : PostContext) :
    ServerWrs numClients :=
  ⟨Function.update (fun c => (PostContext.handle (bufs c)).ppPostRecv rxDepth) 0
    ((PostContext.handle (bufs 0)).ppPostRecv n), copy⟩

variable {conn conn' : Conn} {db db' : Database numClients} {mem mem' : Mem}
  {pc : ServerPc numClients} {first : Option UInt8} {buf : Bytes} {routs n : ℕ}
  {message : CString} {addr : UInt64} {ret : Ret} {bufs : Fin numClients → UInt64}
  {copy : PostContext} {trace : List (ServerEvent numClients)}

namespace ServerState

@[simp] theorem hearing_conn : (hearing conn db mem pc).conns 0 = conn := by
  simp only [hearing, Function.update_self]

@[simp] theorem hearing_pc : (hearing conn db mem pc).pc = pc := rfl

@[simp] theorem hearing_db : (hearing conn db mem pc).db = db := rfl

@[simp] theorem hearing_mem : (hearing conn db mem pc).mem = mem := rfl

@[simp] theorem hearing_setConn :
    (hearing conn db mem pc).setConn 0 conn' = hearing conn' db mem pc := by
  simp only [setConn, hearing, Function.update_idem]

theorem hearing_land (fits : (onWire message.bytes).length ≤ bufSize) :
    (hearing conn db mem pc).next (.land 0 message) =
      some (hearing (conn.land (onWire message.bytes)) db mem pc, [.landed 0 message]) := by
  rw [ServerState.next, if_pos fits, hearing_setConn, hearing_conn]

theorem hearing_complete {wc : Wc} (appears : conn.complete wc = some conn') :
    (hearing conn db mem pc).next (.complete 0 wc) = some (hearing conn' db mem pc, []) := by
  rw [ServerState.next, hearing_conn, appears, Option.map_some, hearing_setConn]

/-- Nothing has arrived from the other client. -/
theorem hearing_turn : (hearing conn db mem (.polling 1)).next (.poll 0) =
    some (hearing conn db mem (.polling 0), []) := by
  have nothing : ((hearing conn db mem (.polling 1)).conns 1).poll 0 =
      some ([], (hearing conn db mem (.polling 1)).conns 1) :=
    if_pos ⟨Nat.zero_le _, Nat.zero_le _⟩
  simp only [ServerState.next, ServerState.poll, hearing_pc, nothing]
  rfl

/-- A request is taken, and counted on the handle. -/
theorem hearing_take (few : 10 < routs) :
    (hearing ⟨buf, [.recv], 0, 0, routs + 1⟩ db mem (.polling 0)).next (.poll 1) =
      some (hearing ⟨buf, [], 0, 0, routs⟩ db mem (.parsing 0), []) := by
  have taken : (Conn.mk buf [.recv] 0 0 (routs + 1)).poll 1 =
      some ([.recv], ⟨buf, [], 0, 0, routs + 1⟩) := rfl
  have counted : ((Wait.start (routs + 1)).absorb [.recv]).routs = routs :=
    if_neg (Nat.not_le.mpr few)
  simp only [ServerState.next, ServerState.poll, hearing_pc, hearing_conn, taken,
    ppWaitCompletions_poll, if_neg (List.cons_ne_nil Wc.recv []), counted, hearing_setConn]
  rfl

theorem hearing_parse {todo : List (Fin numClients × Reply)} (free : mem.block addr = none)
    (handled : parseData (.reliable numClients addr 0) ⟨db, mem, []⟩ conn.buf 0 =
      some (ret, ⟨db', mem', todo⟩)) :
    (hearing conn db mem (.parsing 0)).next (.parse addr 0) =
      some (hearing conn.cut db' mem' (.sending todo), [.parsed 0 (text conn.buf)]) := by
  have room : ¬ (mem.block addr).isSome = true := by
    rw [free]
    exact Bool.false_ne_true
  simp only [ServerState.next, ServerState.parse, hearing_pc, hearing_db, hearing_mem,
    hearing_conn, if_neg room, handled, hearing_setConn]
  rfl

theorem hearing_send : (hearing conn db mem (.sending [(0, .ack)])).next .send =
    some (hearing (conn.send .ack).1 db mem (.waiting 0 (conn.send .ack).2 []),
      [.posted 0 .ack]) := by
  simp only [ServerState.next, ServerState.send, hearing_pc, hearing_conn, hearing_setConn]
  rfl

/-- One completion, whichever it is, ends the wait of a send. -/
theorem hearing_sent {wc : Wc} {due : ℕ} :
    (hearing ⟨buf, [wc], due, 0, routs⟩ db mem (.waiting 0 first [])).next (.poll 1) =
      some (hearing (Conn.restore ⟨buf, [], due, 0, routs⟩ first) db mem (.sending []), []) := by
  have taken : (Conn.mk buf [wc] due 0 routs).poll 1 = some ([wc], ⟨buf, [], due, 0, routs⟩) :=
    rfl
  simp only [ServerState.next, ServerState.poll, hearing_pc, hearing_conn, taken,
    ppWaitCompletions_poll, if_neg (List.cons_ne_nil wc []), hearing_setConn]
  rfl

theorem workRequests_poll {s s' : ServerState numClients} {r : ServerWrs numClients}
    (nothing : ∀ c ∈ s.pc.polls,
      (Wait.start (s.conns c).routs).absorbPosts ((s.conns c).queue.take n) = 0) :
    s.workRequests bufs (.poll n) s' r = some r := by
  have kept (c : Fin numClients) (ctx : PostContext) (here : c ∈ s.pc.polls) :
      Function.update r.posted c (r.posted c ++ s.reposts c n ctx) = r.posted := by
    rw [ServerState.reposts, nothing c here, PostContext.ppPostRecv, List.replicate_zero,
      List.append_nil, Function.update_eq_self]
  simp only [ServerState.workRequests]
  split
  next c here => rw [kept c _ (by rw [here]; rfl)]
  next c first todo here => rw [kept c _ (by rw [here]; rfl)]
  next => rfl

end ServerState

theorem ServerWrs.left_land {s s' : ServerState numClients}
    (fits : (onWire message.bytes).length ≤ bufSize) :
    s.workRequests bufs (.land 0 message) s' (.left bufs (n + 1) copy) =
      some (.left bufs n copy) := by
  have consumed : consume (onWire message.bytes)
      ((PostContext.handle (bufs 0)).ppPostRecv (n + 1)) =
      some ((PostContext.handle (bufs 0)).ppPostRecv n) := if_pos fits
  simp only [ServerState.workRequests, ServerWrs.left, Function.update_self, consumed,
    Option.map_some, Function.update_idem]

/-- The wait of a send that takes a request with 11 credits posts anew. -/
theorem ServerWrs.left_reposts {s' : ServerState numClients} {due : ℕ} :
    (ServerState.hearing ⟨buf, [.recv], due, 0, 11⟩ db mem (.waiting 0 first [])).workRequests
        bufs (.poll 1) s' (.left bufs n copy) =
      some ⟨Function.update (fun c => (PostContext.handle (bufs c)).ppPostRecv rxDepth) 0
        ((PostContext.handle (bufs 0)).ppPostRecv n ++ copy.ppPostRecv 9990), copy⟩ := by
  have taken : [Wc.recv].take 1 = [.recv] := rfl
  have posts : (Wait.start 11).absorbPosts [.recv] = 9990 := by decide
  simp only [ServerState.workRequests, ServerState.hearing_pc, ServerState.reposts,
    ServerState.hearing_conn, taken, posts, ServerWrs.left, Function.update_self,
    Function.update_idem]

/-- A watched step prolongs a watched run. -/
theorem ServerWrs.run_step {s s' : ServerState numClients} {r r' : ServerWrs numClients}
    {events : List (ServerEvent numClients)} (action : ServerAction numClients)
    (run : (serverWorkRequests numClients bufs).Run always trace (s, r))
    (stepped : s.next action = some (s', events))
    (recorded : s.workRequests bufs action s' r = some r') :
    (serverWorkRequests numClients bufs).Run always (trace ++ events) (s', r') :=
  .step run True.intro (Machine.watch_next.mpr ⟨stepped, recorded⟩)

/-- A request is taken by `receive_query` and answered with an ACK. -/
theorem request_acked (few : 10 < routs) (fits : (onWire message.bytes).length ≤ bufSize)
    (free : mem.block addr = none)
    (handled : parseData (.reliable numClients addr 0) ⟨db, mem, []⟩
      (writeFront (onWire message.bytes) buf) 0 = some (ret, ⟨db', mem', [(0, .ack)]⟩))
    (run : (serverWorkRequests numClients bufs).Run always trace
      (.hearing ⟨buf, [], 0, 0, routs + 1⟩ db mem (.polling 1), .left bufs (n + 1) copy)) :
    ∃ trace' buf' first, (serverWorkRequests numClients bufs).Run always trace'
      (.hearing ⟨buf', [], 1, 0, routs⟩ db' mem' (.waiting 0 first []),
        .left bufs n (PostContext.handle (bufs 0)).sendAck) := by
  have landed := ServerWrs.run_step (.land 0 message) run (ServerState.hearing_land fits)
    (ServerWrs.left_land fits)
  have completed := ServerWrs.run_step (.complete 0 .recv) landed
    (ServerState.hearing_complete rfl) rfl
  have turned := ServerWrs.run_step (.poll 0) completed ServerState.hearing_turn
    (ServerState.workRequests_poll fun _ _ => rfl)
  have taken := ServerWrs.run_step (.poll 1) turned (ServerState.hearing_take few) <| by
    apply ServerState.workRequests_poll
    rintro c ⟨⟩
    rw [ServerState.hearing_conn]
    exact if_neg (Nat.not_le.mpr few)
  have parsed := ServerWrs.run_step (.parse addr 0) taken
    (ServerState.hearing_parse free handled) rfl
  have sent := ServerWrs.run_step .send parsed ServerState.hearing_send rfl
  exact ⟨_, _, _, sent⟩

/-- The wait for an ACK takes its own completion. -/
theorem ack_sent (run : (serverWorkRequests numClients bufs).Run always trace
      (.hearing ⟨buf, [], 1, 0, routs⟩ db mem (.waiting 0 first []), .left bufs n copy)) :
    ∃ trace' buf', (serverWorkRequests numClients bufs).Run always trace'
      (.hearing ⟨buf', [], 0, 0, routs⟩ db mem (.polling 1), .left bufs n copy) := by
  have completed := ServerWrs.run_step (.complete 0 .send) run
    (ServerState.hearing_complete rfl) rfl
  have taken := ServerWrs.run_step (.poll 1) completed ServerState.hearing_sent <| by
    apply ServerState.workRequests_poll
    rintro c ⟨⟩
    rw [ServerState.hearing_conn]
    rfl
  have returned := ServerWrs.run_step .send taken rfl rfl
  exact ⟨_, _, returned⟩

/-- The record of the key, locked for client 0. -/
def lockedK : Database numClients :=
  [⟨keyK.bytes, none, true, 0, fun _ => false, fun _ => false⟩]

/-- The record with the value that client 0 has stored. -/
def storedK : Database numClients :=
  [⟨keyK.bytes, some ⟨0, 1, false, none⟩, false, 0, fun _ => false, fun _ => false⟩]

theorem text_landed (message : CString) (buf : Bytes) :
    text (writeFront (onWire message.bytes) buf) = message.bytes := by
  rw [writeFront, onWire_noNul message.noNul, List.append_assoc, List.singleton_append,
    text_append_nul message.noNul]

theorem parseRequest_ask :
    parseRequest (writeFront (onWire askText.bytes) buf) = .request (.setAsk keyK.bytes) := by
  rw [parseRequest, text_landed]
  decide

theorem handled_first : parseData (.reliable numClients 1 0) ⟨[], mem, []⟩
    (writeFront (onWire askText.bytes) buf) 0 =
      some (.exitSuccess, ⟨lockedK, mem, [(0, .ack)]⟩) := by
  rw [parseData, parseRequest_ask]
  rfl

theorem handled_ask : parseData (.reliable numClients 1 0) ⟨storedK, mem, []⟩
    (writeFront (onWire askText.bytes) buf) 0 =
      some (.exitSuccess, ⟨lockedK, mem.free 0, [(0, .ack)]⟩) := by
  rw [parseData, parseRequest_ask]
  rfl

theorem handled_set : parseData (.reliable numClients 0 0) ⟨lockedK, mem, []⟩
    (writeFront (onWire setText.bytes) buf) 0 =
      some (.exitSuccess, ⟨storedK, mem.alloc 0 (valueV.bytes ++ [0]), [(0, .ack)]⟩) := by
  have parsed : parseRequest (writeFront (onWire setText.bytes) buf) =
      .request (.setEager keyK.bytes valueV.bytes) := by
    rw [parseRequest, text_landed]
    decide
  rw [parseData, parsed]
  rfl

/-- Client 0 has set the key `n` times and asks to set it again. Every set takes two
credits. -/
theorem asked_again (bufs : Fin numClients → UInt64) (few : n ≤ 4994) :
    ∃ trace buf first mem, mem.block 0 = none ∧ mem.block 1 = none ∧
      (serverWorkRequests numClients bufs).Run always trace
        (.hearing ⟨buf, [], 1, 0, 9999 - 2 * n⟩ lockedK mem (.waiting 0 first []),
          .left bufs (9999 - 2 * n) (PostContext.handle (bufs 0)).sendAck) := by
  have askFits : (onWire askText.bytes).length ≤ bufSize := by decide
  have setFits : (onWire setText.bytes).length ≤ bufSize := by decide
  induction n with
  | zero =>
      have opened : (serverWorkRequests numClients bufs).init =
          (.hearing (.start true) [] ⟨fun _ => none, fun _ => none⟩ (.polling 1),
            .left bufs rxDepth (.handle 0)) := by
        simp only [ServerState.hearing, ServerWrs.left, Function.update_eq_self]
        rfl
      have start : (serverWorkRequests numClients bufs).Run always [] _ := .init
      rw [opened] at start
      obtain ⟨trace, buf, first, run⟩ := request_acked (by decide) askFits rfl handled_first start
      exact ⟨trace, buf, first, _, rfl, rfl, run⟩
  | succ n ih =>
      obtain ⟨trace, buf, first, mem, free, other, run⟩ := ih (by omega)
      obtain ⟨k, shape⟩ : ∃ k, 9999 - 2 * n = k + 2 := ⟨9999 - 2 * n - 2, by omega⟩
      have left : 9999 - 2 * (n + 1) = k := by omega
      rw [shape] at run
      rw [left]
      obtain ⟨trace, buf, run⟩ := ack_sent run
      obtain ⟨trace, buf, first, run⟩ := request_acked (by omega) setFits free handled_set run
      obtain ⟨trace, buf, run⟩ := ack_sent run
      have apart : (1 : UInt64) ≠ 0 := by decide
      have other' : (mem.alloc 0 (valueV.bytes ++ [0])).block 1 = none := by
        simp only [Mem.alloc, Function.update_of_ne apart, other]
      obtain ⟨trace, buf, first, run⟩ := request_acked (by omega) askFits other' handled_ask run
      refine ⟨trace, buf, first, _, ?_, ?_, run⟩
      · simp only [Mem.free, Function.update_self]
      · simp only [Mem.free, Function.update_of_ne apart, other']

end Replay

/-! ## Whole requests -/

/-- In every run of the server in which no wait of a send uses up its credits, and in every run
of a client, all posted requests point at the handle's own buffer, all of it. A wait of a send
that does use them up posts requests that do not, unless its message fills the buffer. -/
theorem requests_whole (N : ℕ) [NeZero N] (bufs : Fin N → UInt64) :
    (∀ (trace : List (ServerEvent N)) (s : ServerState N) (r : ServerWrs N),
      (serverWorkRequests N bufs).Run creditsLeft trace (s, r) → r.Whole bufs ∧
        ∀ action s' r' events,
          (serverWorkRequests N bufs).next (s, r) action = some ((s', r'), events) →
          (r'.Whole bufs ↔ creditsLeft trace (s, r) action)) ∧
    ∀ (buf : UInt64) (trace : List ClientEvent) (s : ClientState) (r : ClientReceives)
      (w : ClientWrs), (clientWorkRequests buf).Run always trace ((s, r), w) →
      ∀ wr ∈ w.posted, wr = .whole buf := by
  constructor
  · intro trace s r run
    obtain ⟨copied, stocked⟩ := copyOf_of_run run
    refine ⟨whole_of_run run, fun action s' r' events next => ?_⟩
    exact (whole_of_run run).next_iff copied stocked (Machine.watch_next.mp next).2
  · intro buf trace s r w run
    exact client_whole_of_run run

/-- The buffers of two handles. -/
def twoBufs : Fin numClients → UInt64 := ![4096, 8192]

instance {N : ℕ} (trace : List (ServerEvent N)) (s : ServerState N × ServerWrs N)
    (action : ServerAction N) : Decidable (creditsLeft trace s action) :=
  match action with
  | .poll n => inferInstanceAs (Decidable (∀ c ∈ s.1.pc.waitsOn,
    ((s.1.conns c).queue.take n).count .recv + 10 < (s.1.conns c).routs ∨
      s.2.copy.size = 4 * KB))
  | .land _ _ | .rdmaWrite _ _ _ | .complete _ _ | .parse _ _ | .send => .isTrue True.intro

/-- After an ask and its ACK, whose waits take their own completions. -/
theorem whole_after_ask : ∃ trace s r,
    (serverWorkRequests numClients twoBufs).Run creditsLeft trace (s, r) ∧
      trace = [.landed 0 askText, .parsed 0 askText.bytes, .posted 0 .ack] ∧
      r.Whole twoBufs := by
  obtain ⟨trace, ⟨s, r⟩, run, ends⟩ := Machine.Run.of_exec
    (serverWorkRequests numClients twoBufs) creditsLeft
    (ackPosted ++ [.complete 0 .send, .poll 1, .send])
    (fun trace _ => decide (trace =
      [.landed 0 askText, .parsed 0 askText.bytes, .posted 0 .ack])) (by decide +kernel)
  exact ⟨trace, s, r, run, of_decide_eq_true ends,
    ((requests_whole numClients twoBufs).1 trace s r run).1⟩

/-- Client 0 has set a key 4994 times and sends its next set before the server has polled the
completion of the ACK. The wait of the ACK posts 9990 requests of one byte. -/
theorem short_requests_posted : ∃ trace s r,
    (serverWorkRequests numClients twoBufs).Run always trace (s, r) ∧
      r.posted 0 = List.replicate 10 (.whole 4096) ++ List.replicate 9990 ⟨4096, 1⟩ ∧
      ¬ r.Whole twoBufs := by
  obtain ⟨trace, buf, first, mem, -, -, run⟩ := asked_again twoBufs le_rfl
  have fits : (onWire setText.bytes).length ≤ bufSize := by decide
  have landed := ServerWrs.run_step (.land 0 setText) run (ServerState.hearing_land fits)
    (ServerWrs.left_land fits)
  have completed := ServerWrs.run_step (.complete 0 .recv) landed
    (ServerState.hearing_complete rfl) rfl
  have taken := ServerWrs.run_step (.poll 1) completed ServerState.hearing_sent
    ServerWrs.left_reposts
  refine ⟨_, _, _, taken, ?_, fun whole => ?_⟩
  · simp only [Function.update_self]
    rfl
  · have member : (⟨4096, 1⟩ : RecvWr) ∈ (PostContext.handle (twoBufs 0)).sendAck.ppPostRecv 9990 :=
      List.mem_replicate.mpr ⟨by decide, rfl⟩
    have short := whole 0 ⟨4096, 1⟩ <| by
      simp only [Function.update_self]
      exact List.mem_append_right _ member
    exact absurd (congrArg RecvWr.length short) (by decide)

end RdmaWiki
