import RdmaWiki.ServerLoop
import RdmaWiki.ClientLoop
import Mathlib.Tactic.Common

/-!
The receives that are posted on a queue pair, and `routs`.

`routs` is meant to count the receive work requests of a queue pair that no message has
consumed. Both loops are watched here together with that number: a message can only land
while a receive is posted and consumes it, and a wait posts new ones when the `routs` of
its context is down to 10.

`receive_query` gives its wait the handle itself. `send_data_str`, `send_ACK` and
`send_NACK` give theirs a copy, and `kv_set`, `kv_get` and the rendezvous functions wait
for every reply on the copy that they took when they were called. A receive completion that
is counted on a copy is forgotten with it. So the handle of a client stays at `rx_depth`
while the posted receives run out (`refused_sets`), and the handle of the server is right as
long as no wait of a send takes a receive completion (`ServerCredits`).
-/

namespace RdmaWiki

open CText StepMachine

/-! ## The receives that a wait posts -/

/-- The receives that one round of the `switch` posts:
`pp_post_recv(ctx, ctx->rx_depth - ctx->routs)`, which posts all of them. -/
def Wait.posts (wait : Wait) : Wc → ℕ
  | .send => 0
  | .recv => if wait.routs - 1 ≤ 10 then rxDepth - (wait.routs - 1) else 0

/-- The receives that the inner `for` loop posts. -/
def Wait.absorbPosts (wait : Wait) : List Wc → ℕ
  | [] => 0
  | wc :: rest => wait.posts wc + (wait.count wc).absorbPosts rest

/-- The values of `routs` between two rounds. -/
def Stocked (routs : ℕ) : Prop := 10 < routs ∧ routs ≤ rxDepth

theorem stocked_rxDepth : Stocked rxDepth := ⟨by decide, le_rfl⟩

theorem Wait.count_stocked (wait : Wait) (wc : Wc) (stocked : Stocked wait.routs) :
    Stocked (wait.count wc).routs ∧
      (wait.count wc).routs + [wc].count .recv = wait.routs + wait.posts wc := by
  obtain ⟨low, high⟩ := stocked
  cases wc with
  | send => exact ⟨⟨low, high⟩, rfl⟩
  | recv =>
      simp only [Wait.count, Wait.posts, Stocked, List.count_singleton_self]
      split
      next few =>
        unfold rxDepth at high ⊢
        omega
      next => omega

/-- A batch takes one from `routs` for each receive completion, and adds what it posts. -/
theorem Wait.absorb_stocked (wait : Wait) (batch : List Wc) (stocked : Stocked wait.routs) :
    Stocked (wait.absorb batch).routs ∧
      (wait.absorb batch).routs + batch.count .recv = wait.routs + wait.absorbPosts batch := by
  induction batch generalizing wait with
  | nil => exact ⟨stocked, rfl⟩
  | cons wc rest ih =>
      obtain ⟨stocked', one⟩ := wait.count_stocked wc stocked
      obtain ⟨last, others⟩ := ih (wait.count wc) stocked'
      have both : List.count Wc.recv (wc :: rest) = [wc].count .recv + rest.count .recv :=
        (List.count_append : ([wc] ++ rest).count Wc.recv = _)
      refine ⟨last, ?_⟩
      rw [Wait.absorbPosts, both]
      change ((wait.count wc).absorb rest).routs + _ = _
      omega

/-- A wait posts nothing while `routs` is high enough for the whole batch. -/
theorem Wait.absorbPosts_eq_zero (wait : Wait) (batch : List Wc)
    (enough : 10 + batch.length < wait.routs) : wait.absorbPosts batch = 0 := by
  induction batch generalizing wait with
  | nil => rfl
  | cons wc rest ih =>
      rw [List.length_cons] at enough
      rw [Wait.absorbPosts]
      cases wc with
      | send =>
          have others := ih (wait.count .send) (by simp only [Wait.count]; omega)
          rw [others, Wait.posts]
      | recv =>
          have many : ¬ wait.routs - 1 ≤ 10 := by omega
          have others := ih (wait.count .recv) (by
            simp only [Wait.count, if_neg many]
            omega)
          rw [others, Wait.posts, if_neg many]

theorem Wait.absorb_sends (wait : Wait) {batch : List Wc} (sends : Wc.recv ∉ batch) :
    (wait.absorb batch).routs = wait.routs ∧ wait.absorbPosts batch = 0 := by
  induction batch generalizing wait with
  | nil => exact ⟨rfl, rfl⟩
  | cons wc rest ih =>
      obtain ⟨head, tail⟩ := not_or.mp (mt List.mem_cons.mpr sends)
      cases wc with
      | recv => exact absurd rfl head
      | send =>
          obtain ⟨routs, posts⟩ := ih (wait.count .send) tail
          refine ⟨routs, ?_⟩
          rw [Wait.absorbPosts, posts, Wait.posts]

/-- `routs` says how many receives are posted, and some are. -/
def Conn.Tracks (conn : Conn) (posted : ℕ) : Prop := conn.routs = posted ∧ posted ≠ 0

/-! ## The server -/

section Server

variable {N : ℕ}

/-- The connection whose queue the server polls. -/
def ServerPc.polls : ServerPc N → Option (Fin N)
  | .polling index => some index
  | .waiting c _ _ => some c
  | _ => none

/-- The posted receives of every connection after a step. Every wait starts from the
`routs` of the handle. -/
def ServerState.receives (s : ServerState N) (action : ServerAction N) (_ : ServerState N)
    (posted : Fin N → ℕ) : Option (Fin N → ℕ) :=
  match action with
  | .land c _ =>
    if posted c = 0 then none else some (Function.update posted c (posted c - 1))
  | .poll n =>
    match s.pc.polls with
    | none => some posted
    | some c =>
      some (Function.update posted c (posted c +
        (Wait.start (s.conns c).routs).absorbPosts ((s.conns c).queue.take n)))
  | _ => some posted

/-- The server loop with the posted receives of its connections. -/
def serverReceives (N : ℕ) [NeZero N] :
    Machine (ServerState N × (Fin N → ℕ)) (ServerAction N) (ServerEvent N) :=
  (serverLoop N).watch (fun _ => rxDepth) ServerState.receives

/-- No wait of a send takes a receive completion. -/
def sendsAlone : Guard (ServerState N × (Fin N → ℕ)) (ServerAction N) (ServerEvent N)
  | _, s, .poll n =>
    match s.1.pc with
    | .waiting c _ _ => Wc.recv ∉ (s.1.conns c).queue.take n
    | _ => True
  | _, _, _ => True

instance (trace : List (ServerEvent N)) (s : ServerState N × (Fin N → ℕ))
    (action : ServerAction N) : Decidable (sendsAlone trace s action) :=
  match action with
  | .poll n =>
    let polled (pc : ServerPc N) : Decidable (match pc with
        | .waiting c _ _ => Wc.recv ∉ (s.1.conns c).queue.take n
        | _ => True) :=
      match pc with
      | .waiting c _ _ => inferInstanceAs (Decidable (Wc.recv ∉ (s.1.conns c).queue.take n))
      | .polling _ | .parsing _ | .sending _ | .crashed => .isTrue True.intro
    polled s.1.pc
  | .land _ _ | .rdmaWrite _ _ _ | .complete _ _ | .parse _ _ | .send => .isTrue True.intro

/-- The `routs` of every handle is what is posted and what has landed but is not counted
yet. -/
def ServerCredits (s : ServerState N) (posted : Fin N → ℕ) : Prop :=
  ∀ c, Stocked (s.conns c).routs ∧ posted c + (s.conns c).recvs = (s.conns c).routs

/-- A poll takes completions from one queue, and counts them on the handle only when it is
the poll of `receive_query`. -/
theorem ServerState.poll_routs [NeZero N] {s s' : ServerState N} {n : ℕ}
    (polled : s.poll n = some s') :
    ∃ c conn, s.pc.polls = some c ∧ s'.conns = Function.update s.conns c conn ∧
      conn.recvs + ((s.conns c).queue.take n).count .recv = (s.conns c).recvs ∧
      (s.pc = .polling c ∧ conn.routs =
          ((Wait.start (s.conns c).routs).absorb ((s.conns c).queue.take n)).routs ∨
        (∃ first todo, s.pc = .waiting c first todo) ∧ conn.routs = (s.conns c).routs) := by
  obtain ⟨c, batch, conn, taken, ends⟩ := ServerState.poll_takes polled
  have recvs := (Conn.poll_counts taken).2.1
  have stays : s.conns = Function.update s.conns c (s.conns c) :=
    (Function.update_eq_self c s.conns).symm
  unfold Conn.poll at taken
  split at taken
  next =>
    cases taken
    rcases ends with ⟨here, ⟨empty, rfl⟩ | ⟨-, rfl⟩⟩ |
      ⟨first, todo, here, ⟨empty, rfl⟩ | ⟨-, rfl⟩⟩
    · refine ⟨c, s.conns c, by rw [here]; rfl, stays, ?_, .inl ⟨here, ?_⟩⟩ <;>
      · rw [empty]
        rfl
    · exact ⟨c, _, by rw [here]; rfl, rfl, recvs, .inl ⟨here, rfl⟩⟩
    · refine ⟨c, s'.conns c, by rw [here]; rfl, stays, ?_, .inr ⟨⟨first, todo, here⟩, rfl⟩⟩
      rw [empty]
      rfl
    · exact ⟨c, _, by rw [here]; rfl, rfl, recvs, .inr ⟨⟨first, todo, here⟩, rfl⟩⟩
  next => cases taken

/-- What a connection must keep of its counters for its credits to stay. -/
theorem ServerCredits.of_counts {s s' : ServerState N} {posted : Fin N → ℕ}
    (credits : ServerCredits s posted) (routs : ∀ d, (s'.conns d).routs = (s.conns d).routs)
    (recvs : ∀ d, (s'.conns d).recvs = (s.conns d).recvs) : ServerCredits s' posted := by
  intro d
  rw [routs, recvs]
  exact credits d

/-- Only one connection and what is posted on it change. -/
theorem ServerCredits.of_update {s s' : ServerState N} {posted : Fin N → ℕ} {c : Fin N}
    {conn : Conn} {receives : ℕ} (credits : ServerCredits s posted)
    (changed : s'.conns = Function.update s.conns c conn)
    (kept : Stocked conn.routs ∧ receives + conn.recvs = conn.routs) :
    ServerCredits s' (Function.update posted c receives) := by
  intro d
  rw [changed]
  rcases eq_or_ne d c with rfl | other
  · simp only [Function.update_self]
    exact kept
  · simp only [Function.update_of_ne other]
    exact credits d

theorem Conn.complete_routs {conn conn' : Conn} {wc : Wc}
    (appears : conn.complete wc = some conn') : conn'.routs = conn.routs := by
  cases wc <;>
  · simp only [Conn.complete] at appears
    split at appears
    next => cases appears
    next =>
      cases appears
      rfl

/-- Only a poll changes the `routs` of a handle. -/
theorem ServerState.routs_kept [NeZero N] {s s' : ServerState N} {action : ServerAction N}
    {events : List (ServerEvent N)} (stepped : s.next action = some (s', events))
    (other : ∀ n, action ≠ .poll n) (d : Fin N) : (s'.conns d).routs = (s.conns d).routs := by
  cases action with
  | land c message =>
      simp only [ServerState.next] at stepped
      split at stepped
      next =>
        cases stepped
        exact s.setConn_same Conn.routs (rfl : ((s.conns c).land _).routs = _) d
      next => cases stepped
  | rdmaWrite addr rkey data =>
      cases stepped
      rfl
  | complete c wc =>
      obtain ⟨conn, appears, done⟩ := Option.map_eq_some_iff.mp stepped
      cases done
      exact s.setConn_same Conn.routs (Conn.complete_routs appears) d
  | poll n => exact absurd rfl (other n)
  | parse addr rkey =>
      obtain ⟨c, -, -, changed, -⟩ := ServerState.parse_cases stepped
      rw [changed]
      exact s.setConn_same Conn.routs (rfl : (s.conns c).cut.routs = _) d
  | send =>
      rcases ServerState.send_cases stepped with ⟨-, -, rfl⟩ | ⟨c, reply, todo, -, -, rfl⟩
      · rfl
      · refine s.setConn_same Conn.routs ?_ d
        cases reply <;> rfl

/-- A step keeps the credits, unless it is the poll of a send's wait and takes a receive
completion. -/
theorem ServerCredits.next [NeZero N] {s s' : ServerState N} {posted posted' : Fin N → ℕ}
    {action : ServerAction N} {trace events : List (ServerEvent N)}
    (met : sendsAlone trace (s, posted) action) (credits : ServerCredits s posted)
    (stepped : s.next action = some (s', events))
    (received : s.receives action s' posted = some posted') : ServerCredits s' posted' := by
  cases action with
  | land c message =>
      simp only [ServerState.next, ServerState.receives] at stepped received
      split at stepped
      next =>
        split at received
        next => cases received
        next some =>
          cases stepped
          cases received
          obtain ⟨stocked, balance⟩ := credits c
          refine credits.of_update rfl ⟨stocked, ?_⟩
          simp only [Conn.recvs, Conn.land] at balance ⊢
          omega
      next => cases stepped
  | rdmaWrite addr rkey data =>
      cases stepped
      cases received
      exact credits
  | complete c wc =>
      have routs := ServerState.routs_kept stepped fun _ same => by cases same
      obtain ⟨conn, appears, done⟩ := Option.map_eq_some_iff.mp stepped
      cases done
      cases received
      exact credits.of_counts routs (s.setConn_same Conn.recvs (Conn.complete_counts appears).2.1)
  | poll n =>
      obtain ⟨after, polled, done⟩ := Option.map_eq_some_iff.mp stepped
      cases done
      obtain ⟨c, conn, polls, changed, recvs, counted⟩ := ServerState.poll_routs polled
      simp only [ServerState.receives, polls] at received
      cases received
      obtain ⟨stocked, balance⟩ := credits c
      obtain ⟨stocked', absorbed⟩ := (Wait.start (s.conns c).routs).absorb_stocked
        ((s.conns c).queue.take n) stocked
      apply credits.of_update changed
      rcases counted with ⟨-, routs⟩ | ⟨⟨first, todo, here⟩, routs⟩
      · rw [routs]
        refine ⟨stocked', ?_⟩
        simp only [Wait.start] at absorbed ⊢
        omega
      · simp only [sendsAlone, here] at met
        have none := ((Wait.start (s.conns c).routs).absorb_sends met).2
        have uncounted : ((s.conns c).queue.take n).count .recv = 0 :=
          List.count_eq_zero.mpr met
        rw [routs, none]
        refine ⟨stocked, ?_⟩
        omega
  | parse addr rkey =>
      cases received
      have routs := ServerState.routs_kept stepped fun _ same => by cases same
      obtain ⟨c, -, -, changed, -⟩ := ServerState.parse_cases stepped
      refine credits.of_counts routs fun d => ?_
      rw [changed]
      exact s.setConn_same Conn.recvs (rfl : (s.conns c).cut.recvs = _) d
  | send =>
      cases received
      have routs := ServerState.routs_kept stepped fun _ same => by cases same
      rcases ServerState.send_cases stepped with ⟨-, -, rfl⟩ | ⟨c, reply, todo, -, -, rfl⟩
      · exact credits
      · exact credits.of_counts routs
          (s.setConn_same Conn.recvs ((s.conns c).send_counts reply).2)

theorem serverCredits_of_run [NeZero N] {trace : List (ServerEvent N)} {s : ServerState N}
    {posted : Fin N → ℕ} (run : (serverReceives N).Run sendsAlone trace (s, posted)) :
    ServerCredits s posted :=
  run.watched ServerCredits (fun _ => ⟨stocked_rxDepth, rfl⟩)
    fun met credits stepped received => credits.next met stepped received

end Server

/-! ## The client -/

section Client

/-- The `routs` of the contexts of a call, and the posted receives of the queue pair. -/
structure ClientReceives where
  /-- of the copy that `kv_set` or `kv_get` took when it was called -/
  call : ℕ
  /-- of the copy that `client_set_rendezvous` or `client_get_rendezvous` took -/
  rendezvous : ℕ
  posted : ℕ
deriving DecidableEq

/-- The phase in which a rendezvous function is called, which waits for the descriptor. -/
def Phase.rendezvous : Phase → Bool
  | .setRendezvous _ _ => true
  | .getRendezvous _ _ => true
  | _ => false

/-- The phase in which a rendezvous function waits for its RDMA operation. -/
def Phase.access : Phase → Bool
  | .setWrite _ _ _ _ => true
  | .getRead _ _ _ _ => true
  | _ => false

/-- The `routs` of the context that a wait is given. The wait for a send has a fresh copy
of the handle. -/
def ClientState.waitRouts (s : ClientState) (r : ClientReceives) : ℕ :=
  if s.stage = .posted then if s.phase.access then r.rendezvous else s.conn.routs
  else if s.phase.rendezvous then r.rendezvous else r.call

/-- A wait leaves its `routs` in the context that it was given. The copy of
`send_data_str` is gone with the wait. -/
def ClientState.leaveRouts (s : ClientState) (r : ClientReceives) (routs : ℕ) :
    ClientReceives :=
  if s.stage = .posted then if s.phase.access then { r with rendezvous := routs } else r
  else if s.phase.rendezvous then { r with rendezvous := routs } else { r with call := routs }

/-- The posted receives and the contexts after a step. -/
def ClientState.receives (s : ClientState) (action : ClientAction) (s' : ClientState)
    (r : ClientReceives) : Option ClientReceives :=
  match action with
  | .invoke _ => some { r with call := s.conn.routs }
  | .step _ =>
    if s'.phase.rendezvous ∧ ¬ s.phase.rendezvous then
      some { r with rendezvous := s.conn.routs }
    else some r
  | .land _ => if r.posted = 0 then none else some { r with posted := r.posted - 1 }
  | .complete _ => some r
  | .poll n =>
    let wait := Wait.start (s.waitRouts r)
    let batch := s.conn.queue.take n
    some { s.leaveRouts r (wait.absorb batch).routs with
      posted := r.posted + wait.absorbPosts batch }

/-- The client loop with the posted receives of its connection. -/
def clientReceives : Machine (ClientState × ClientReceives) ClientAction ClientEvent :=
  clientLoop.watch ⟨rxDepth, rxDepth, rxDepth⟩ ClientState.receives

/-- How far a phase is in its call. Every phase has one wait on a copy at most. -/
def Phase.depth : Phase → ℕ
  | .setAsk _ _ => 0
  | .setEager _ _ => 1
  | .setRendezvous _ _ => 1
  | .setWrite _ _ _ _ => 2
  | .setFin _ _ => 3
  | .getAsk _ => 0
  | .get _ => 1
  | .getEager _ _ => 2
  | .getRendezvous _ _ => 2
  | .getRead _ _ _ _ => 3
  | .getFin _ _ => 4
  | .idle => 5

/-- How many waits on copies a call has behind it, at most. -/
def ClientState.depth (s : ClientState) : ℕ :=
  if s.stage = .reading ∨ s.stage = .lost then s.phase.depth + 1 else s.phase.depth

/-- A wait takes `WC_BATCH` completions at most. -/
def Spent (depth routs : ℕ) : Prop := rxDepth ≤ routs + wcBatch * depth ∧ routs ≤ rxDepth

/-- The handle of a client never changes, and no copy comes near the limit at which
receives are posted. -/
structure ClientCredits (s : ClientState) (r : ClientReceives) : Prop where
  handle : s.conn.routs = rxDepth
  posted : r.posted + s.landed.length = rxDepth
  call : Spent s.depth r.call
  rendezvous : s.phase.rendezvous ∨ s.phase.access → Spent s.depth r.rendezvous

theorem proceed_depth {phase : Phase} {replies : List Reply} {mem mem' : Mem} {cl : Client}
    {results : List (Call × Result)}
    (went : Client.proceed ⟨phase, [], replies⟩ mem = some (cl, mem', results)) :
    phase.depth < cl.phase.depth ∧ (cl.phase.access → phase.rendezvous) ∧
      (cl.phase.rendezvous → ¬ phase.rendezvous) := by
  cases phase with
  | setAsk key value =>
      cases replies with
      | nil => cases went
      | cons reply rest =>
          simp only [Client.proceed] at went
          split at went
          next =>
            cases went
            exact ⟨by simp [Phase.depth], fun bad => (by cases bad), fun bad => (by cases bad)⟩
          next =>
            split at went <;>
            · cases went
              simp [Phase.depth, Phase.access, Phase.rendezvous]
  | idle => cases replies <;> cases went
  | setWrite key value rkey addr =>
      cases went
      simp [Phase.depth, Phase.access, Phase.rendezvous]
  | getRead key size rkey addr =>
      cases went
      simp [Phase.depth, Phase.access, Phase.rendezvous]
  | setRendezvous key value | get key | getRendezvous key size =>
      rcases replies with _ | ⟨_ | _ | _ | _ | _, rest⟩ <;> cases went <;>
        simp [Phase.depth, Phase.access, Phase.rendezvous]
  | setEager key value | setFin key value | getAsk key | getEager key v | getFin key v =>
      cases replies <;> cases went
      simp [Phase.depth, Phase.access, Phase.rendezvous]

/-- A wait on a copy posts nothing and takes at most `WC_BATCH` from its `routs`. -/
theorem Spent.absorb {depth routs : ℕ} {batch : List Wc} (spent : Spent depth routs)
    (early : depth ≤ 5) (small : batch.length ≤ wcBatch) :
    Spent (depth + 1) ((Wait.start routs).absorb batch).routs ∧
      (Wait.start routs).absorbPosts batch = 0 := by
  obtain ⟨enough, high⟩ := spent
  have few : batch.count .recv ≤ batch.length := List.count_le_length
  have bounds : 9950 ≤ routs ∧ routs ≤ 10000 ∧ batch.length ≤ 10 := by
    simp only [rxDepth, wcBatch] at enough high small
    omega
  have none : (Wait.start routs).absorbPosts batch = 0 := by
    apply Wait.absorbPosts_eq_zero
    simp only [Wait.start]
    omega
  have stocked : Stocked routs := ⟨by omega, high⟩
  obtain ⟨-, absorbed⟩ := (Wait.start routs).absorb_stocked batch stocked
  rw [none] at absorbed
  refine ⟨⟨?_, ?_⟩, none⟩ <;>
  · simp only [Wait.start, wcBatch, rxDepth] at absorbed enough ⊢
    omega

theorem Spent.mono {depth depth' routs : ℕ} (spent : Spent depth routs) (later : depth ≤ depth') :
    Spent depth' routs := by
  obtain ⟨enough, high⟩ := spent
  refine ⟨?_, high⟩
  simp only [wcBatch] at enough ⊢
  omega

theorem Phase.depth_le (phase : Phase) : phase.depth ≤ 5 := by
  cases phase <;> simp [Phase.depth]

/-- A poll takes a batch from the queue. An empty one changes nothing, any other one ends the
wait. -/
theorem ClientState.poll_takes {s s' : ClientState} {n : ℕ} {events : List ClientEvent}
    (polled : s.poll n = some (s', events)) :
    (s.stage = .posted ∨ s.stage = .awaiting) ∧ (s.conn.queue.take n).length ≤ wcBatch ∧
      (s.conn.queue.take n = [] ∧ s' = s ∨
      s'.conn.routs = s.conn.routs ∧ s'.phase = s.phase ∧ s'.landed = s.landed ∧
        (s.stage = .posted ∧ s.phase.wants ≠ [] ∨ s'.stage = .reading)) := by
  unfold ClientState.poll at polled
  split at polled
  next waits =>
    refine ⟨waits, ?_⟩
    split at polled
    next => cases polled
    next batch conn taken =>
      unfold Conn.poll at taken
      split at taken
      next within =>
        cases taken
        rw [ppWaitCompletions_poll] at polled
        have small := (List.length_take_le n s.conn.queue).trans within.1
        refine ⟨small, ?_⟩
        by_cases empty : s.conn.queue.take n = []
        · rw [if_pos empty] at polled
          cases polled
          exact .inl ⟨empty, rfl⟩
        · rw [if_neg empty] at polled
          cases polled
          refine .inr ⟨rfl, rfl, rfl, ?_⟩
          by_cases more : s.stage = .posted ∧ s.phase.wants ≠ []
          · exact .inl more
          · exact .inr (if_neg more)
      next => cases taken
  next => cases polled

/-- A wait is given a fresh copy of the handle, the copy of a rendezvous function, or the
copy of the call. -/
theorem ClientState.waitRouts_cases (s : ClientState) (r : ClientReceives) (routs : ℕ) :
    (s.waitRouts r = s.conn.routs ∧ s.leaveRouts r routs = r) ∨
    ((s.phase.rendezvous ∨ s.phase.access) ∧ (s.stage = .posted → s.phase.access) ∧
      s.waitRouts r = r.rendezvous ∧ s.leaveRouts r routs = { r with rendezvous := routs }) ∨
    (s.stage ≠ .posted ∧ s.waitRouts r = r.call ∧
      s.leaveRouts r routs = { r with call := routs }) := by
  unfold waitRouts leaveRouts
  by_cases posted : s.stage = .posted
  · by_cases access : s.phase.access <;> simp [posted, access]
  · by_cases opens : s.phase.rendezvous <;> simp [posted, opens]

section Steps

variable {s s' : ClientState} {r r' : ClientReceives} {events : List ClientEvent}

/-- Every wait of a client is given a context that is far from the limit. -/
theorem ClientCredits.wait (credits : ClientCredits s r) : Spent s.depth (s.waitRouts r) := by
  rcases s.waitRouts_cases r 0 with ⟨fresh, -⟩ | ⟨own, -, copy, -⟩ | ⟨-, copy, -⟩
  · rw [fresh, credits.handle]
    exact ⟨Nat.le_add_right .., le_rfl⟩
  · rw [copy]
    exact credits.rendezvous own
  · rw [copy]
    exact credits.call

theorem ClientState.le_depth (s : ClientState) : s.phase.depth ≤ s.depth := by
  unfold depth
  split
  · exact Nat.le_succ _
  · exact le_rfl

theorem ClientState.depth_waits (waits : s.stage = .posted ∨ s.stage = .awaiting) :
    s.depth = s.phase.depth := by
  rcases waits with here | here <;> simp [ClientState.depth, here]

theorem ClientCredits.poll (credits : ClientCredits s r) {n : ℕ}
    (polled : s.poll n = some (s', events))
    (received : s.receives (.poll n) s' r = some r') : ClientCredits s' r' := by
  obtain ⟨waits, small, ending⟩ := ClientState.poll_takes polled
  have depth := ClientState.depth_waits waits
  obtain ⟨spent, none⟩ :=
    credits.wait.absorb (depth.trans_le s.phase.depth_le) small
  simp only [ClientState.receives, none] at received
  cases received
  have choice := s.waitRouts_cases r
    ((Wait.start (s.waitRouts r)).absorb (s.conn.queue.take n)).routs
  obtain ⟨handle, posted, call, rendezvous⟩ := credits
  rcases ending with ⟨empty, rfl⟩ | ⟨routs, phase, landed, ends⟩
  · -- nothing is taken, and every context stays as it is
    rw [empty] at choice ⊢
    rcases choice with ⟨-, left⟩ | ⟨-, -, copy, left⟩ | ⟨-, copy, left⟩
    · rw [left]
      exact ⟨handle, posted, call, rendezvous⟩
    · rw [left]
      exact ⟨handle, posted, call, fun own => copy ▸ rendezvous own⟩
    · rw [left]
      exact ⟨handle, posted, copy ▸ call, rendezvous⟩
  · have later : s.depth ≤ s'.depth := by
      rw [depth, ← phase]
      exact s'.le_depth
    have ended (last : s.stage = .posted → s.phase.wants = []) : s'.depth = s.depth + 1 := by
      have reading := ends.resolve_left fun more => more.2 (last more.1)
      rw [depth, ClientState.depth, if_pos (.inl reading), phase]
    rw [← landed] at posted
    rw [← phase] at rendezvous
    rcases choice with ⟨-, left⟩ | ⟨-, accesses, -, left⟩ | ⟨elsewhere, -, left⟩
    · rw [left]
      exact ⟨routs.trans handle, posted, call.mono later, fun own => (rendezvous own).mono later⟩
    · have last (here : s.stage = .posted) : s.phase.wants = [] := by
        have access := accesses here
        cases phase : s.phase <;> rw [phase] at access <;> first | rfl | cases access
      rw [left]
      refine ⟨routs.trans handle, posted, call.mono later, fun _ => ?_⟩
      rw [ended last]
      exact spent
    · rw [left]
      refine ⟨routs.trans handle, posted, ?_, fun own => (rendezvous own).mono later⟩
      rw [ended fun here => absurd here elsewhere]
      exact spent

/-- A call goes on with a phase that is further on. A rendezvous function takes a fresh copy
of the handle. -/
theorem ClientCredits.proceed (credits : ClientCredits s r) (here : s.stage = .reading)
    {mem mem' : Mem} {replies : List Reply} {cl : Client} {results : List (Call × Result)}
    (went : Client.proceed ⟨s.phase, [], replies⟩ mem = some (cl, mem', results))
    (landed : s'.landed = s.landed) (conn : s'.conn = s.conn) (phase : s'.phase = cl.phase)
    (received : s.receives (.step mem) s' r = some r') : ClientCredits s' r' := by
  obtain ⟨later, access, opens⟩ := proceed_depth went
  obtain ⟨handle, posted, call, rendezvous⟩ := credits
  have before : s.depth = s.phase.depth + 1 := if_pos (.inl here)
  have after : s.depth ≤ s'.depth := by
    rw [before]
    exact later.trans_le (phase ▸ s'.le_depth)
  rw [← conn] at handle
  rw [← landed] at posted
  simp only [ClientState.receives] at received
  split at received
  next =>
    cases received
    refine ⟨handle, posted, call.mono after, fun _ => ?_⟩
    rw [← conn, handle]
    exact ⟨Nat.le_add_right .., le_rfl⟩
  next kept =>
    cases received
    refine ⟨handle, posted, call.mono after, fun own => ?_⟩
    rw [phase] at own kept
    rcases own with new | own
    · exact absurd ⟨new, opens new⟩ kept
    · exact (rendezvous (.inl (access own))).mono after

/-- What a step must keep for the credits to stay. -/
theorem ClientCredits.of_same (credits : ClientCredits s r) (phase : s'.phase = s.phase)
    (routs : s'.conn.routs = s.conn.routs) (landed : s'.landed = s.landed)
    (depth : s.depth ≤ s'.depth) : ClientCredits s' r := by
  obtain ⟨handle, posted, call, rendezvous⟩ := credits
  refine ⟨routs.trans handle, landed ▸ posted, call.mono depth, fun own => ?_⟩
  rw [phase] at own
  exact (rendezvous own).mono depth

theorem ClientCredits.step (credits : ClientCredits s r) {mem : Mem}
    (stepped : s.step mem = some (s', events))
    (received : s.receives (.step mem) s' r = some r') : ClientCredits s' r' := by
  have unchanged (phase : s'.phase = s.phase) : r' = r := by
    simp only [ClientState.receives, phase, and_not_self, if_false] at received
    exact (Option.some.inj received).symm
  unfold ClientState.step at stepped
  split at stepped
  next request here =>
    cases stepped
    rw [unchanged rfl]
    exact credits.of_same rfl rfl rfl (by simp [ClientState.depth, here])
  next here =>
    cases stepped
    rw [unchanged rfl]
    exact credits.of_same rfl rfl rfl (by simp [ClientState.depth, here])
  next here =>
    rcases ClientState.finish_cases stepped with
      ⟨-, cl, mem', results, went, rfl, -⟩ |
      ⟨-, looked, -, ⟨-, rfl, -⟩ | ⟨reply, cl, mem', results, -, went, rfl, -⟩⟩
    · exact credits.proceed here went rfl rfl rfl received
    · rw [unchanged rfl]
      exact credits.of_same rfl rfl rfl (by simp [ClientState.depth, here])
    · exact credits.proceed here went rfl rfl rfl received
  next => cases stepped

theorem ClientCredits.next (credits : ClientCredits s r) {action : ClientAction}
    (stepped : s.next action = some (s', events))
    (received : s.receives action s' r = some r') : ClientCredits s' r' := by
  cases action with
  | invoke call =>
      simp only [ClientState.next, ClientState.invoke] at stepped
      split at stepped
      next free =>
        cases stepped
        cases received
        obtain ⟨handle, posted, -, -⟩ := credits
        refine ⟨handle, posted, ?_, fun own => ?_⟩
        · rw [handle]
          exact ⟨Nat.le_add_right .., le_rfl⟩
        · cases call <;> simp [ClientState.advance, Client.invoke, Phase.rendezvous,
            Phase.access] at own
      next => cases stepped
  | step mem => exact credits.step stepped received
  | land reply =>
      simp only [ClientState.next, ClientState.receives] at stepped received
      split at stepped
      next =>
        obtain ⟨owed, -, done⟩ := Option.map_eq_some_iff.mp stepped
        cases done
        split at received
        next => cases received
        next =>
          cases received
          obtain ⟨handle, posted, call, rendezvous⟩ := credits
          refine ⟨handle, ?_, call, rendezvous⟩
          change r.posted - 1 + (s.landed ++ [reply]).length = rxDepth
          rw [List.length_append, List.length_singleton]
          omega
      next => cases stepped
  | complete wc =>
      obtain ⟨conn, appears, done⟩ := Option.map_eq_some_iff.mp stepped
      cases done
      cases received
      exact credits.of_same rfl (Conn.complete_routs appears) rfl le_rfl
  | poll n => exact credits.poll stepped received

end Steps

theorem clientCredits_of_run {trace : List ClientEvent} {s : ClientState} {r : ClientReceives}
    (run : clientReceives.Run always trace (s, r)) : ClientCredits s r :=
  run.watched ClientCredits
    ⟨rfl, rfl, ⟨Nat.le_add_right .., le_rfl⟩, fun _ => ⟨Nat.le_add_right .., le_rfl⟩⟩
    fun _ credits stepped received => credits.next stepped received

end Client

/-! ## Refused sets -/

/-- A client between two calls, with no completion left or to come. -/
def ClientState.quiet (buf : Bytes) (landed : List Reply) (turn : ℕ) : ClientState :=
  ⟨.idle, .rest, ⟨buf, [], 0, 0, rxDepth⟩, [], landed, turn⟩

/-- A watched step prolongs a watched run. -/
theorem ClientReceives.run_step {trace events : List ClientEvent} {s s' : ClientState}
    {r r' : ClientReceives} (action : ClientAction)
    (run : clientReceives.Run always trace (s, r))
    (stepped : s.next action = some (s', events))
    (received : s.receives action s' r = some r') :
    clientReceives.Run always (trace ++ events) (s', r') :=
  .step run True.intro (Machine.watch_next.mpr ⟨stepped, received⟩)

/-- A call of `kv_set` that is refused, and whose waits take one completion each, consumes a
receive and leaves the handle as it was. -/
theorem refused_set {trace : List ClientEvent} {buf : Bytes} {landed : List Reply}
    {turn call rendezvous posted : ℕ} {key value : CString}
    (fits : (Call.kvSet key value).fits)
    (run : clientReceives.Run always trace
      (.quiet buf landed turn, ⟨call, rendezvous, posted + 1⟩)) :
    ∃ trace' buf', clientReceives.Run always trace'
      (.quiet buf' (landed ++ [.nack]) (turn + 1), ⟨rxDepth - 1, rendezvous, posted⟩) := by
  let request := onWire (flagKey .as key.bytes)
  let sent : ClientStage → Conn → List Owed → List Reply → ClientState :=
    fun stage conn owed landed => ⟨.setAsk key value, stage, conn, owed, landed, turn⟩
  let full (queue : List Wc) : Conn := ⟨writeFront request buf, queue, 0, 0, rxDepth⟩
  let emptied := writeFront Reply.nack.bytes (writeFront request buf)
  let r : ClientReceives := ⟨rxDepth, rendezvous, posted + 1⟩
  have invoked : clientReceives.Run always _
      (sent (.post request) ⟨buf, [], 0, 0, rxDepth⟩ [] landed, r) :=
    ClientReceives.run_step (.invoke (.kvSet key value)) run (if_pos ⟨rfl, fits⟩) rfl
  have asked : clientReceives.Run always _ (sent .posted (full []).post [.answer] landed, r) :=
    ClientReceives.run_step (.step emptyHeap) invoked rfl rfl
  have completed : clientReceives.Run always _ (sent .posted (full [.send]) [.answer] landed, r) :=
    ClientReceives.run_step (.complete .send) asked rfl rfl
  have waited : clientReceives.Run always _ (sent .awaiting (full []) [.answer] landed, r) :=
    ClientReceives.run_step (.poll 1) completed rfl rfl
  have answered : clientReceives.Run always _ (sent .awaiting ⟨emptied, [], 0, 1, rxDepth⟩ []
      (landed ++ [.nack]), ⟨rxDepth, rendezvous, posted⟩) :=
    ClientReceives.run_step (.land .nack) waited rfl rfl
  have received : clientReceives.Run always _ (sent .awaiting ⟨emptied, [.recv], 0, 0, rxDepth⟩ []
      (landed ++ [.nack]), ⟨rxDepth, rendezvous, posted⟩) :=
    ClientReceives.run_step (.complete .recv) answered rfl rfl
  have taken : clientReceives.Run always _ (sent .reading ⟨emptied, [], 0, 0, rxDepth⟩ []
      (landed ++ [.nack]), ⟨rxDepth - 1, rendezvous, posted⟩) :=
    ClientReceives.run_step (.poll 1) received rfl rfl
  exact ⟨_, emptied, ClientReceives.run_step (.step emptyHeap) taken rfl rfl⟩

theorem refused_sets {n : ℕ} (posted : n ≤ rxDepth) :
    ∃ trace buf call rendezvous, clientReceives.Run always trace
      (.quiet buf (List.replicate n .nack) n, ⟨call, rendezvous, rxDepth - n⟩) := by
  induction n with
  | zero => exact ⟨[], _, rxDepth, rxDepth, .init⟩
  | succ n ih =>
      obtain ⟨trace, buf, call, rendezvous, run⟩ := ih (by omega)
      have some : rxDepth - n = rxDepth - (n + 1) + 1 := by omega
      rw [some] at run
      have fits : (Call.kvSet keyK valueV).fits := by decide +kernel
      obtain ⟨trace', buf', run'⟩ := refused_set fits run
      rw [← List.replicate_succ'] at run'
      exact ⟨trace', buf', _, rendezvous, run'⟩

/-- The handle of a client stays at `rx_depth` while every message takes a receive away, so
that it is right only before the first message. The handle of the server says what is posted
and what has landed and is not counted yet, and never gets to zero, in every run in which no
wait of a send takes a receive completion. -/
theorem receives_tracked (N : ℕ) [NeZero N] :
    (∀ trace s r, clientReceives.Run always trace (s, r) →
      s.conn.routs = rxDepth ∧ r.posted + s.landed.length = rxDepth ∧
        (s.conn.Tracks r.posted ↔ s.landed = [])) ∧
    ∀ (trace : List (ServerEvent N)) (s : ServerState N) (posted : Fin N → ℕ),
      (serverReceives N).Run sendsAlone trace (s, posted) → ∀ c,
        0 < (s.conns c).routs ∧ posted c + (s.conns c).recvs = (s.conns c).routs ∧
          ((s.conns c).Tracks (posted c) ↔ (s.conns c).recvs = 0) := by
  constructor
  · intro trace s r run
    obtain ⟨handle, posted, -, -⟩ := clientCredits_of_run run
    refine ⟨handle, posted, ?_⟩
    rw [Conn.Tracks, ← List.length_eq_zero_iff, handle]
    unfold rxDepth at posted ⊢
    omega
  · intro trace s posted run c
    obtain ⟨⟨low, -⟩, balance⟩ := serverCredits_of_run run c
    refine ⟨by omega, balance, ?_⟩
    unfold Conn.Tracks
    omega

/-- After an ask and its ACK, whose waits take their own completions. -/
theorem tracked_after_ask : ∃ trace s posted,
    (serverReceives numClients).Run sendsAlone trace (s, posted) ∧ posted 0 = 9999 ∧
      ((s.conns 0).Tracks (posted 0) ↔ (s.conns 0).recvs = 0) := by
  obtain ⟨trace, ⟨s, posted⟩, run, ends⟩ := Machine.Run.of_exec (serverReceives numClients)
    sendsAlone (ackPosted ++ [.complete 0 .send, .poll 1, .send])
    (fun _ s => decide (s.2 0 = 9999)) (by decide +kernel)
  exact ⟨trace, s, posted, run, of_decide_eq_true ends,
    ((receives_tracked numClients).2 trace s posted run 0).2.2⟩

/-- After `rx_depth` refused sets no receive is posted, and the handle still says
`rx_depth`. -/
theorem receives_run_out : ∃ trace s r, clientReceives.Run always trace (s, r) ∧
    s.stage = .rest ∧ s.conn.routs ≠ r.posted ∧ r.posted = 0 := by
  obtain ⟨trace, buf, call, rendezvous, run⟩ := refused_sets le_rfl
  rw [Nat.sub_self] at run
  have some : rxDepth ≠ 0 := by decide
  exact ⟨trace, _, _, run, rfl, some, rfl⟩

end RdmaWiki
