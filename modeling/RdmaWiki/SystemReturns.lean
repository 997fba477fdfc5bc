import RdmaWiki.SystemProgress

/-!
The calls of the system return.

Every useful step makes a cost smaller (`cost_of_next`): the distance that the represented clients
of the protocol have to the ends of their calls, and below it the messages and completions on
their way. So only so many of them follow before the next call (`costs_of_run`), and as two
clients never deadlock their calls return (`ends_of_run`), while no library call fails and
`malloc` returns zeroed memory.
-/

namespace RdmaWiki

open CText StepMachine

variable {N : ℕ}

/-! ## Completions -/

section Connections

variable {conn conn' : Conn}

/-- What is still to be done about the completions of a connection: each appears and is taken. -/
def Conn.work (conn : Conn) : ℕ := 2 * (conn.sendsDue + conn.recvsDue) + conn.queue.length

@[simp] theorem Conn.work_post (conn : Conn) : conn.post.work = conn.work + 2 := by
  simp only [Conn.work, Conn.post]
  omega

@[simp] theorem Conn.work_land (conn : Conn) (data : Bytes) :
    (conn.land data).work = conn.work + 2 := by
  simp only [Conn.work, Conn.land]
  omega

@[simp] theorem Conn.work_send (conn : Conn) (reply : Reply) :
    (conn.send reply).1.work = conn.work + 2 := by
  cases reply <;> exact Conn.work_post _

theorem Conn.work_complete {wc : Wc} (appears : conn.complete wc = some conn') :
    conn'.work + 1 = conn.work := by
  cases wc with
  | send | recv =>
      simp only [Conn.complete] at appears
      split at appears
      next => cases appears
      next due =>
        cases appears
        simp only [Conn.work, List.length_append, List.length_singleton]
        omega

theorem Conn.work_poll {n : ℕ} {batch : List Wc} (polled : conn.poll n = some (batch, conn')) :
    conn'.work + batch.length = conn.work := by
  unfold Conn.poll at polled
  split at polled
  next within =>
    cases polled
    simp only [Conn.work, List.length_drop, List.length_take]
    omega
  next => cases polled

theorem Conn.poll_less {n : ℕ} {batch : List Wc} (polled : conn.poll n = some (batch, conn'))
    (nonempty : batch ≠ []) : conn'.work < conn.work := by
  have work := Conn.work_poll polled
  have positive := List.length_pos_iff.mpr nonempty
  omega

theorem Conn.poll_zero {batch : List Wc} (polled : conn.poll 0 = some (batch, conn')) :
    batch = [] :=
  List.length_eq_zero_iff.mp (Conn.poll_counts polled).2.2.2

theorem Conn.work_le (conn : Conn) : conn.work ≤ 2 * conn.completions := by
  have kinds := count_send_add_recv conn.queue
  simp only [Conn.work, Conn.completions, Conn.sends, Conn.recvs]
  omega

end Connections

/-! ## The cost of a state -/

/-- What a step of a client will still put on its way in its phase. -/
def ClientStage.cost : ClientStage → ℕ
  | .post _ => 6
  | .rdma => 3
  | _ => 0

/-- The server is to send the replies of a handler. -/
def ServerPc.cost : ServerPc N → ℕ
  | .sending _ => 1
  | .waiting _ _ _ => 1
  | _ => 0

theorem ServerPc.cost_le_one (pc : ServerPc N) : pc.cost ≤ 1 := by
  cases pc <;> simp [ServerPc.cost]

namespace SystemState

/-- The messages and completions of `c` on their way, and the end of its RDMA operation. -/
def load (s : SystemState N) (c : Fin N) : ℕ :=
  (s.clients c).stage.cost + 7 * (s.met c).toList.length + (s.clients c).conn.work +
    3 * (s.requests c).length + 3 * (s.replies c).length + (s.server.conns c).work +
      6 * (sentTo c s.server.pc.todo).length

/-- A step of the protocol outweighs what it puts on its way. -/
def weight (N : ℕ) : ℕ := 12 * N + 8

def share (trace : List (SystemEvent N)) (s : SystemState N) (c : Fin N) : ℕ :=
  weight N * ((s.config trace).clients c).distance + s.load c

/-- The distance from the state in which all calls have returned and nothing is on its way. -/
def cost (trace : List (SystemEvent N)) (s : SystemState N) : ℕ :=
  ∑ c, s.share trace c + s.server.pc.cost

end SystemState

section Costs

variable {trace events : List (SystemEvent N)} {s s' : SystemState N} {c : Fin N}

theorem SystemState.far_eq (trace : List (SystemEvent N)) (s : SystemState N) (c : Fin N) :
    ((s.config trace).clients c).distance = 2 * (s.client c).phase.rank +
      ((unread c (serverTrace trace)).length + (s.requests c).length +
        (s.client c).requests.length) := by
  simp only [SystemState.config, Client.distance, List.length_append, List.length_map]

theorem SystemState.share_congr (client : s'.clients c = s.clients c) (met : s'.met c = s.met c)
    (requests : s'.requests c = s.requests c) (replies : s'.replies c = s.replies c)
    (conn : (s'.server.conns c).work = (s.server.conns c).work)
    (left : (unread c (serverTrace (trace ++ events))).length =
      (unread c (serverTrace trace)).length)
    (todo : sentTo c s'.server.pc.todo = sentTo c s.server.pc.todo) :
    s'.share (trace ++ events) c = s.share trace c := by
  have same := SystemState.client_congr (congrArg ClientState.client client) met
  simp only [share, load, far_eq, same, client, met, requests, replies, conn, left, todo]

theorem SystemState.share_lt
    (far : ((s'.config (trace ++ events)).clients c).distance ≤
      ((s.config trace).clients c).distance)
    (load : s'.load c < s.load c) : s'.share (trace ++ events) c < s.share trace c :=
  Nat.add_lt_add_of_le_of_lt (Nat.mul_le_mul_left _ far) load

theorem SystemState.share_le_of_near {n : ℕ}
    (near : ((s'.config (trace ++ events)).clients c).distance <
      ((s.config trace).clients c).distance)
    (load : s'.load c ≤ s.load c + n) :
    s'.share (trace ++ events) c + weight N ≤ s.share trace c + n := by
  have further := Nat.mul_le_mul_left (weight N) (Nat.succ_le_of_lt near)
  rw [Nat.mul_succ] at further
  simp only [share]
  omega

theorem SystemState.cost_lt_of_share (near : s'.share (trace ++ events) c < s.share trace c)
    (others : ∀ d, d ≠ c → s'.share (trace ++ events) d = s.share trace d)
    (pc : s'.server.pc.cost ≤ s.server.pc.cost) : s'.cost (trace ++ events) < s.cost trace := by
  refine Nat.add_lt_add_of_lt_of_le ?_ pc
  refine Finset.sum_lt_sum (fun d _ => ?_) ⟨c, Finset.mem_univ c, near⟩
  rcases eq_or_ne d c with rfl | other
  · exact near.le
  · exact (others d other).le

/-- A step of `c` costs nobody else anything. -/
theorem SystemState.cost_lt_of_client (but : s.SameBut s' c)
    (conns : s'.server.conns = s.server.conns) (pc : s'.server.pc = s.server.pc)
    (quiet : serverTrace events = []) (near : s'.share (trace ++ events) c < s.share trace c) :
    s'.cost (trace ++ events) < s.cost trace := by
  refine cost_lt_of_share near (fun d other => ?_) (by rw [pc])
  obtain ⟨client, met, requests, replies⟩ := but d other
  exact share_congr client met requests replies (by rw [conns])
    (by rw [serverTrace_append, quiet, List.append_nil]) (by rw [pc])

end Costs

/-! ## The steps of the clients -/

section Clients

/-- A poll that finds something takes it. -/
theorem ClientState.poll_nearer {s s' : ClientState} {n : ℕ} {events : List ClientEvent}
    (some : n ≠ 0) (polled : s.poll n = .some (s', events)) :
    s'.client = s.client ∧
      s'.stage.cost + s'.conn.work < s.stage.cost + s.conn.work := by
  unfold ClientState.poll at polled
  split at polled
  next waits =>
    split at polled
    next => cases polled
    next batch conn taken =>
      have size : batch.length = n := (Conn.poll_counts taken).2.2.2
      have nonempty : batch ≠ [] := by
        rintro rfl
        exact some size.symm
      have less := Conn.poll_less taken nonempty
      rw [ppWaitCompletions_poll, if_neg nonempty] at polled
      cases polled
      have after : (if s.stage = .posted ∧ s.phase.wants ≠ [] then ClientStage.awaiting
          else .reading).cost = 0 := by
        split <;> rfl
      refine ⟨?_, ?_⟩
      · rcases waits with here | here
        · rw [ClientState.client, ClientState.client, here]
          simp only
          split <;> rfl
        · rw [ClientState.client, ClientState.client, here]
          rfl
      · simp only [after]
        omega
  next => cases polled

theorem ClientStage.cost_le (stage : ClientStage) : stage.cost ≤ 6 := by
  cases stage <;> simp [ClientStage.cost]

/-- A client that goes on comes nearer to the end of its call. -/
theorem proceed_nearer {phase : Phase} {replies : List Reply} {mem mem' : Mem} {cl : Client}
    {results : List (Call × Result)}
    (went : Client.proceed ⟨phase, [], replies⟩ mem = some (cl, mem', results)) :
    2 * cl.phase.rank + cl.requests.length < 2 * phase.rank := by
  cases phase with
  | idle => cases replies <;> cases went
  | setAsk key value =>
      cases replies with
      | nil => cases went
      | cons reply rest =>
          simp only [Client.proceed] at went
          split at went
          next =>
            cases went
            simp [Phase.rank]
          next =>
            split at went <;>
            · cases went
              simp [Phase.rank]
  | setWrite | getRead =>
      cases went
      simp [Phase.rank]
  | get key =>
      rcases replies with _ | ⟨_ | _ | v | n | _, rest⟩ <;> cases went <;> simp [Phase.rank]
  | setRendezvous | getRendezvous =>
      rcases replies with _ | ⟨_ | _ | _ | _ | _, rest⟩ <;> cases went
      simp [Phase.rank]
  | getAsk | setEager | setFin | getEager | getFin =>
      cases replies <;> cases went
      simp [Phase.rank]

variable {trace events : List (SystemEvent N)} {s s' : SystemState N} {c : Fin N}
  {cl : ClientState} {own : List ClientEvent}

/-- What a step of `c` leaves. -/
theorem SystemState.of_step (moved : s' = { s.putClient c cl (s.clients c).stage.requests with
      met := Function.update s.met c none }) :
    s.SameBut s' c ∧ s'.clients c = cl ∧ s'.met c = none ∧ s'.client c = cl.client ∧
      s'.requests c = s.requests c ++ (s.clients c).stage.requests ∧ s'.replies = s.replies ∧
      s'.server = s.server := by
  have clients : s'.clients c = cl := by
    rw [moved]
    exact s.putClient_self c cl (s.clients c).stage.requests
  have met : s'.met c = none := by
    rw [moved]
    exact Function.update_self ..
  refine ⟨fun d other => ?_, clients, met, ?_, ?_, by rw [moved]; rfl, by rw [moved]; rfl⟩
  · rw [moved]
    obtain ⟨clients, -, requests, replies⟩ :=
      s.sameBut_put c cl (s.clients c).stage.requests d other
    exact ⟨clients, Function.update_of_ne other .., requests, replies⟩
  · rw [SystemState.client_of_not_met met, clients]
  · rw [moved]
    exact s.putClient_requests_self c cl _

/-- A wait in which completions appear or are taken. -/
theorem cost_of_wait (same : cl.client = (s.clients c).client)
    (less : cl.stage.cost + cl.conn.work < (s.clients c).stage.cost + (s.clients c).conn.work) :
    (s.putClient c cl []).cost (trace ++ own.map (.client c)) < s.cost trace := by
  have client : (s.putClient c cl []).client c = s.client c :=
    SystemState.client_congr (by rw [SystemState.putClient_self, same]) rfl
  have way : (s.putClient c cl []).requests c = s.requests c := by
    rw [SystemState.putClient_requests_self, List.append_nil]
  refine SystemState.cost_lt_of_client (s.sameBut_put c cl []) rfl rfl (serverTrace_client ..)
    (SystemState.share_lt ?_ ?_)
  · rw [SystemState.far_eq, SystemState.far_eq, client, way, serverTrace_append,
      serverTrace_client, List.append_nil]
  · simp only [SystemState.load, SystemState.putClient_self, SystemState.putClient_met, way,
      SystemState.putClient_replies, SystemState.putClient_server]
    omega

theorem cost_of_transfer (next : s.transfer c = some (s', events)) :
    s'.cost (trace ++ events) < s.cost trace := by
  obtain ⟨mem, here, notMet, moved, shape, rfl⟩ := SystemState.transfer_cases next
  obtain ⟨cl, goes⟩ : ∃ cl, Client.proceed ⟨(s.clients c).phase, [], (s.client c).replies⟩
    s.server.mem = some (cl, mem, []) := Phase.transfer_goes moved
  have client : s'.clients = s.clients := by rw [shape]
  have met : s'.met c = some s.server.mem := by
    rw [shape]
    exact Function.update_self ..
  have requests : s'.requests = s.requests := by rw [shape]
  have replies : s'.replies = s.replies := by rw [shape]
  have conns : s'.server.conns = s.server.conns := by rw [shape]
  have pc : s'.server.pc = s.server.pc := by rw [shape]
  have but : s.SameBut s' c := by
    intro d other
    rw [shape]
    exact ⟨rfl, Function.update_of_ne other .., rfl, rfl⟩
  have asks : (s.clients c).stage.requests = [] := by
    rcases here with here | here <;>
    · rw [here]
      rfl
  have before : s.client c = ⟨(s.clients c).phase, [], (s.client c).replies⟩ := by
    rw [SystemState.client_of_not_met notMet, ClientState.client, asks]
  have after : s'.client c = cl := by
    have same : (s.clients c).client = ⟨(s.clients c).phase, [], (s.client c).replies⟩ :=
      (SystemState.client_of_not_met notMet).symm.trans before
    rw [SystemState.client, met, client, same]
    simp only [goes]
  have near := proceed_nearer goes
  have far : ((s'.config (trace ++ [])).clients c).distance <
      ((s.config trace).clients c).distance := by
    rw [SystemState.far_eq, SystemState.far_eq, before, after, requests, List.append_nil]
    simp only [List.length_nil]
    omega
  have load : s'.load c ≤ s.load c + 7 := by
    simp only [SystemState.load, client, met, notMet, requests, replies, conns, pc,
      Option.toList_none, Option.toList_some, List.length_nil, List.length_singleton]
    omega
  have further := SystemState.share_le_of_near far load
  have heavy : 8 ≤ SystemState.weight N := Nat.le_add_left ..
  exact SystemState.cost_lt_of_client but conns pc rfl (by omega)

variable [NeZero N] {P : Call → Prop} {Q : Config N → Fin N → Prop}

theorem cost_of_post (run : (system N).Run (orderly P Q) trace s)
    (elsewhere : (s.clients c).stage ≠ .posted ∧ (s.clients c).stage ≠ .reading)
    (same : cl.client = { (s.clients c).client with requests := [] })
    (less : cl.stage.cost + cl.conn.work + 3 * (s.clients c).stage.requests.length <
      (s.clients c).stage.cost + (s.clients c).conn.work)
    (moved : s' = { s.putClient c cl (s.clients c).stage.requests with
      met := Function.update s.met c none }) : s'.cost (trace ++ []) < s.cost trace := by
  have notMet := not_met_of_stage run elsewhere
  have before := SystemState.client_of_not_met notMet
  obtain ⟨but, client, met, after, way, replies, server⟩ := SystemState.of_step moved
  refine SystemState.cost_lt_of_client but (by rw [server]) (by rw [server]) rfl
    (SystemState.share_lt ?_ ?_)
  · have asks : (s.clients c).client.requests = (s.clients c).stage.requests := rfl
    simp only [SystemState.far_eq, before, after, same, way, asks, List.append_nil,
      List.length_append, List.length_nil]
    omega
  · simp only [SystemState.load, client, met, notMet, way, replies, server, List.length_append,
      Option.toList_none, List.length_nil]
    omega

theorem cost_of_finish (run : (system N).Run (orderly P Q) trace s)
    (here : (s.clients c).stage = .reading)
    (went : (s.clients c).finish ((s.met c).getD s.server.mem) = some (cl, own))
    (moved : s' = { s.putClient c cl (s.clients c).stage.requests with
      met := Function.update s.met c none }) :
    s'.cost (trace ++ own.map (.client c)) < s.cost trace := by
  obtain ⟨mem', results, goes⟩ := proceeds_of_run (client_of_run run c) here went
  obtain ⟨but, client, met', after, way, replies, server⟩ := SystemState.of_step moved
  have asks : (s.clients c).stage.requests = [] := by
    rw [here]
    rfl
  have ended : (s.clients c).stage.cost = 0 := by
    rw [here]
    rfl
  rw [asks, List.append_nil] at way
  have conn : cl.conn = (s.clients c).conn := by
    rcases ClientState.finish_cases went with
      ⟨-, cl', mem₁, results', -, rfl, -⟩ | ⟨-, looked, -, ⟨-, rfl, -⟩ |
        ⟨reply, cl', mem₁, results', -, -, rfl, -⟩⟩ <;> rfl
  have bound := cl.stage.cost_le
  refine SystemState.cost_lt_of_client but (by rw [server]) (by rw [server])
    (serverTrace_client ..) ?_
  cases met : s.met c with
  | some mem =>
      rw [met, Option.getD_some] at goes
      have before : s.client c = s'.client c := by
        rw [after, SystemState.client, met]
        simp only [goes]
      refine SystemState.share_lt ?_ ?_
      · rw [SystemState.far_eq, SystemState.far_eq, before, way, serverTrace_append,
          serverTrace_client, List.append_nil]
      · simp only [SystemState.load, client, met, met', way, replies, server, conn, ended,
          Option.toList_none, Option.toList_some, List.length_nil, List.length_singleton]
        omega
  | none =>
      rw [met, Option.getD_none] at goes
      have before := SystemState.client_of_not_met met
      have shape : (s.clients c).client =
          ⟨(s.clients c).phase, [], (s.clients c).landed.drop (s.clients c).turn⟩ := by
        rw [ClientState.client, asks]
      rw [shape] at goes before
      have near := proceed_nearer goes
      have far : ((s'.config (trace ++ own.map (.client c))).clients c).distance <
          ((s.config trace).clients c).distance := by
        rw [SystemState.far_eq, SystemState.far_eq, before, after, way, serverTrace_append,
          serverTrace_client, List.append_nil]
        simp only [List.length_nil]
        omega
      have load : s'.load c ≤ s.load c + 6 := by
        simp only [SystemState.load, client, met, met', way, replies, server, conn, ended,
          Option.toList_none, List.length_nil]
        omega
      have further := SystemState.share_le_of_near far load
      have heavy : 8 ≤ SystemState.weight N := Nat.le_add_left ..
      omega

theorem cost_of_landReply (run : (system N).Run (orderly P Q) trace s)
    (next : s.landReply c = some (s', events)) : s'.cost (trace ++ events) < s.cost trace := by
  obtain ⟨reply, rest, cl, own, queue, went, moved, rfl⟩ := SystemState.landReply_cases next
  have ready := inTurn_client run c
  have notMet : s.met c = none := by
    by_contra some
    obtain ⟨mem, some⟩ := Option.ne_none_iff_exists'.mp some
    rw [((transfers_of_run run c mem some).quiet ready).2] at went
    cases went
  obtain ⟨-, lands⟩ := Option.ite_none_right_eq_some.mp went
  obtain ⟨owed, -, same⟩ := Option.map_eq_some_iff.mp lands
  cases same
  have client : s'.clients c = { s.clients c with
      conn := (s.clients c).conn.land reply.bytes
      owed := owed
      landed := (s.clients c).landed ++ [reply] } := by
    rw [moved]
    exact Function.update_self ..
  have met : s'.met c = none := by
    rw [moved]
    exact notMet
  have way : s'.requests c = s.requests c := by
    rw [moved]
    exact (Function.update_self ..).trans (List.append_nil _)
  have replies : s'.replies c = rest := by
    rw [moved]
    exact Function.update_self ..
  have server : s'.server = s.server := by
    rw [moved]
    rfl
  have but : s.SameBut s' c := by
    intro d other
    rw [moved]
    obtain ⟨clients, met, requests, -⟩ := s.sameBut_put c _ [] d other
    exact ⟨clients, met, requests, Function.update_of_ne other ..⟩
  refine SystemState.cost_lt_of_client but (by rw [server]) (by rw [server])
    (serverTrace_client ..) (SystemState.share_lt ?_ ?_)
  · rw [SystemState.far_eq, SystemState.far_eq, SystemState.client_of_not_met met,
      SystemState.client_of_not_met notMet, client, way, List.map_nil, List.append_nil]
    rfl
  · simp only [SystemState.load, client, met, notMet, way, replies, server, queue,
      Conn.work_land, List.length_cons]
    omega

end Clients

/-! ## The steps of the server -/

section Server

variable {trace events : List (SystemEvent N)} {s s' : SystemState N} {c : Fin N}
  {server : ServerState N}

/-- A step of the server at the connection of `c` that shows nothing. -/
theorem cost_of_server {conn : Conn} (conns : server.conns = (s.server.setConn c conn).conns)
    (todo : server.pc.todo = s.server.pc.todo) (pc : server.pc.cost ≤ s.server.pc.cost)
    (less : conn.work < (s.server.conns c).work) :
    ({ s with server := server, replies := fun d => s.replies d ++ postedTo d [] } :
      SystemState N).cost (trace ++ ([] : List (ServerEvent N)).map .server) < s.cost trace := by
  refine SystemState.cost_lt_of_share (c := c) (SystemState.share_lt ?_ ?_) (fun d other => ?_) pc
  · rw [SystemState.far_eq, SystemState.far_eq, List.map_nil, List.append_nil]
    rfl
  · have same : s.replies c ++ postedTo c [] = s.replies c := List.append_nil _
    simp only [SystemState.load, same, todo, conns, ServerState.setConn_self]
    omega
  · refine SystemState.share_congr rfl rfl rfl (List.append_nil _) ?_ ?_ (by rw [todo])
    · rw [conns, s.server.setConn_of_ne other]
    · rw [List.map_nil, List.append_nil]

variable [NeZero N] {P : Call → Prop} {Q : Config N → Fin N → Prop}

theorem cost_of_landRequest (run : (system N).Run (orderly P Q) trace s)
    (next : s.landRequest c = some (s', events)) : s'.cost (trace ++ events) < s.cost trace := by
  obtain ⟨request, rest, server, shown, queue, went, moved, rfl⟩ :=
    SystemState.landRequest_cases next
  obtain ⟨-, same⟩ := Option.ite_none_right_eq_some.mp went
  cases same
  have left := unread_landed (intact_of_run (server_of_run run)).parsed c
  have client : s'.client c = s.client c := by
    rw [moved]
    rfl
  have conn : (s'.server.conns c).work = (s.server.conns c).work + 2 := by
    rw [moved]
    change ((s.server.setConn c _).conns c).work = _
    rw [ServerState.setConn_self, Conn.work_land]
  have requests : s'.requests c = rest := by
    rw [moved]
    exact Function.update_self ..
  have replies : ∀ d, s'.replies d = s.replies d := by
    intro d
    rw [moved]
    exact List.append_nil _
  have pc : s'.server.pc = s.server.pc := by
    rw [moved]
    rfl
  refine SystemState.cost_lt_of_share (c := c) (SystemState.share_lt ?_ ?_) (fun d other => ?_)
    (by rw [pc])
  · rw [SystemState.far_eq, SystemState.far_eq, client, requests, queue, serverTrace_append,
      serverTrace_server, left, if_pos rfl]
    simp only [List.length_append, List.length_cons, List.length_nil]
    omega
  · have clients : s'.clients = s.clients := by rw [moved]
    have met : s'.met = s.met := by rw [moved]
    simp only [SystemState.load, clients, met, requests, queue, replies, conn, pc,
      List.length_cons]
    omega
  · refine SystemState.share_congr (by rw [moved]) (by rw [moved]) ?_ (replies d) ?_ ?_ (by rw [pc])
    · rw [moved]
      exact Function.update_of_ne other ..
    · rw [moved]
      change ((s.server.setConn c _).conns d).work = _
      rw [s.server.setConn_of_ne other]
    · rw [serverTrace_append, serverTrace_server, left, if_neg other.symm, List.append_nil]

theorem cost_of_completeServer {wc : Wc}
    (next : s.nextServer (.complete c wc) = some (s', events)) :
    s'.cost (trace ++ events) < s.cost trace := by
  obtain ⟨server, own, went, rfl, rfl⟩ := SystemState.nextServer_cases next
  obtain ⟨conn, appears, same⟩ := Option.map_eq_some_iff.mp went
  cases same
  have taken := Conn.work_complete appears
  exact cost_of_server rfl rfl le_rfl (by omega)

theorem cost_of_pollServer {n : ℕ} (some : n ≠ 0)
    (next : s.nextServer (.poll n) = .some (s', events)) :
    s'.cost (trace ++ events) < s.cost trace := by
  obtain ⟨server, own, went, rfl, rfl⟩ := SystemState.nextServer_cases next
  obtain ⟨t, polled, same⟩ := Option.map_eq_some_iff.mp went
  cases same
  rcases ServerState.poll_cases polled with
    ⟨none, -⟩ | ⟨index, batch, conn, routs, here, taken, nonempty, rfl⟩ |
    ⟨c, first, todo, batch, conn, here, taken, nonempty, rfl⟩
  · exact absurd none some
  · have less := Conn.poll_less taken nonempty
    refine cost_of_server rfl ?_ (Nat.zero_le _) less
    rw [here]
    rfl
  · have less := Conn.poll_less taken nonempty
    refine cost_of_server rfl ?_ ?_ less
    · rw [here]
      rfl
    · rw [here]
      rfl

theorem cost_of_send (next : s.nextServer .send = some (s', events)) :
    s'.cost (trace ++ events) < s.cost trace := by
  obtain ⟨server, own, went, rfl, rfl⟩ := SystemState.nextServer_cases next
  rcases ServerState.send_cases went with ⟨here, rfl, rfl⟩ | ⟨c, reply, todo, here, rfl, rfl⟩
  · refine Nat.add_lt_add_of_le_of_lt (Finset.sum_le_sum fun d _ => ?_) ?_
    · refine le_of_eq (SystemState.share_congr rfl rfl rfl ?_ rfl ?_ ?_)
      · exact List.append_nil _
      · rw [List.map_nil, List.append_nil]
      · rw [here]
        rfl
    · rw [here]
      exact Nat.zero_lt_one
  · have unchanged : ∀ d, unread d (serverTrace (trace ++ [.server (.posted c reply)])) =
        unread d (serverTrace trace) := by
      intro d
      rw [serverTrace_append]
      simp [serverTrace, unread]
    refine SystemState.cost_lt_of_share (c := c) (SystemState.share_lt ?_ ?_) (fun d other => ?_) ?_
    · rw [SystemState.far_eq, SystemState.far_eq, List.map_singleton, unchanged]
      rfl
    · have posted : postedTo c [.posted c reply] = [reply] := by simp [postedTo]
      have next : sentTo c ((c, reply) :: todo) = reply :: sentTo c todo := by simp [sentTo]
      simp only [SystemState.load, posted, here, ServerPc.todo, next, ServerState.setConn_self,
        Conn.work_send, List.length_append, List.length_cons, List.length_nil]
      omega
    · refine SystemState.share_congr rfl rfl rfl ?_ ?_ ?_ ?_
      · simp [postedTo, other.symm]
      · change ((s.server.setConn c _).conns d).work = _
        rw [s.server.setConn_of_ne other]
      · rw [List.map_singleton, unchanged]
      · rw [here]
        simp [ServerPc.todo, sentTo, other.symm]
    · rw [here]
      rfl

/-- What is on its way to and from a client of the protocol. -/
theorem inFlight_le (run : (system N).Run (orderly P Q) trace s) (c : Fin N) :
    ((s.config trace).clients c).requests.length ≤ 1 ∧
      ((s.config trace).clients c).replies.length ≤ 2 ∧
      ((s.config trace).clients c).distance ≤ 11 := by
  obtain ⟨trace', cfg, run', -, rep⟩ := run.simulated (system_simulates P Q)
  obtain ⟨left, -, client⟩ := rep.client c
  have shape := (linked_of_run run').shape c
  have far := shape.distance_le
  obtain ⟨requests, replies, -⟩ := shape.inFlight
  rw [client] at far requests replies
  simp only [Client.behind, Client.distance, List.length_append] at far requests replies ⊢
  exact ⟨by omega, replies, by omega⟩

/-- A request that is handled is not ahead of its client any more. That outweighs the replies that
the server is to send. -/
theorem cost_of_parse (run : (system N).Run (orderly P Q) trace s) {addr : UInt64}
    {rkey : UInt32} (met : orderly P Q trace s (.parse addr rkey))
    (next : s.nextServer (.parse addr rkey) = some (s', events)) :
    s'.cost (trace ++ events) < s.cost trace := by
  have few := fun d => (inFlight_le (run.step met next) d).2.1
  obtain ⟨server, own, went, moved, rfl⟩ := SystemState.nextServer_cases next
  obtain ⟨c, here, rfl, conns, -⟩ := ServerState.parse_cases went
  have kept := met.1
  rw [bufferKept, here] at kept
  obtain ⟨message, one, -⟩ := ((intact_of_run (server_of_run run)).held c).resolve_left kept
  have client : ∀ d, s'.client d = s.client d := fun d => by rw [moved]; rfl
  have clients : s'.clients = s.clients := by rw [moved]
  have requests : s'.requests = s.requests := by rw [moved]
  have ended : s'.met = s.met := by rw [moved]
  have replies : ∀ d, s'.replies d = s.replies d := by
    intro d
    rw [moved]
    exact List.append_nil _
  have work : ∀ d, (s'.server.conns d).work = (s.server.conns d).work := by
    have cut : (s.server.conns c).cut.work = (s.server.conns c).work := rfl
    intro d
    rw [moved, conns]
    exact ServerState.setConn_same Conn.work s.server cut d
  have load : ∀ d, s'.load d ≤ s.load d + 12 := by
    intro d
    have replied := few d
    simp only [SystemState.config, List.length_append] at replied
    simp only [SystemState.load, clients, ended, requests, replies, work]
    omega
  have far : ∀ d, ((s'.config (trace ++ [.parsed c (text (s.server.conns c).buf)].map
      .server)).clients d).distance + (if d = c then 1 else 0) =
        ((s.config trace).clients d).distance := by
    intro d
    rw [SystemState.far_eq, SystemState.far_eq, client, requests, serverTrace_append,
      serverTrace_server, unread_parsed one]
    rcases eq_or_ne d c with rfl | other
    · rw [if_pos rfl, if_pos rfl, one, List.length_nil, List.length_singleton]
      omega
    · rw [if_neg other, if_neg other, Nat.add_zero]
  have shares : ∀ d, s'.share (trace ++ [.parsed c (text (s.server.conns c).buf)].map .server) d +
      (if d = c then SystemState.weight N else 0) ≤ s.share trace d + 12 := by
    intro d
    have loaded := load d
    have further := far d
    simp only [SystemState.share]
    rw [← further, Nat.mul_add, mul_ite, Nat.mul_one, Nat.mul_zero]
    omega
  have sum := Finset.sum_le_sum fun d (_ : d ∈ Finset.univ) => shares d
  rw [Finset.sum_add_distrib, Finset.sum_add_distrib, Finset.sum_ite_eq' Finset.univ c,
    if_pos (Finset.mem_univ c), Finset.sum_const, Finset.card_univ, Fintype.card_fin,
    smul_eq_mul, SystemState.weight] at sum
  have sends := s'.server.pc.cost_le_one
  rw [SystemState.cost, SystemState.cost]
  omega

end Server

/-! ## Runs -/

section Runs

variable [NeZero N] {P : Call → Prop} {Q : Config N → Fin N → Prop}
  {trace events : List (SystemEvent N)} {s s' : SystemState N} {action : SystemAction N}

/-- A useful step makes the cost smaller. -/
theorem cost_of_next (run : (system N).Run (orderly P Q) trace s)
    (met : orderly P Q trace s action) (useful : action.useful = true)
    (next : s.next action = some (s', events)) : s'.cost (trace ++ events) < s.cost trace := by
  cases action with
  | invoke c call => cases useful
  | step c =>
      obtain ⟨cl, own, -, went, moved, rfl⟩ := SystemState.step_cases next
      unfold ClientState.step at went
      split at went
      next request here =>
        cases went
        refine cost_of_post run (by simp [here]) rfl ?_ moved
        rw [here]
        simp only [ClientStage.cost, ClientStage.requests, Conn.work_post, List.length_singleton]
        simp only [Conn.work]
        omega
      next here =>
        cases went
        refine cost_of_post run (by simp [here]) rfl ?_ moved
        rw [here]
        simp only [ClientStage.cost, ClientStage.requests, Conn.work_post, List.length_nil]
        omega
      next here => exact cost_of_finish run here went moved
      next => cases went
  | pollClient c n =>
      obtain ⟨cl, own, went, rfl, rfl⟩ := SystemState.nextClient_cases next
      obtain ⟨same, less⟩ := ClientState.poll_nearer (of_decide_eq_true useful) went
      exact cost_of_wait same less
  | completeClient c wc =>
      obtain ⟨cl, own, went, rfl, rfl⟩ := SystemState.nextClient_cases next
      obtain ⟨conn, appears, same⟩ := Option.map_eq_some_iff.mp went
      cases same
      have taken := Conn.work_complete appears
      refine cost_of_wait rfl ?_
      simp only
      omega
  | transfer c => exact cost_of_transfer next
  | landReply c => exact cost_of_landReply run next
  | landRequest c => exact cost_of_landRequest run next
  | completeServer c wc => exact cost_of_completeServer next
  | pollServer n => exact cost_of_pollServer (of_decide_eq_true useful) next
  | parse addr rkey => exact cost_of_parse run met next
  | send => exact cost_of_send next

/-- A poll that finds nothing costs nothing. -/
theorem cost_of_idle (own : ∀ c call, action ≠ .invoke c call) (idle : action.useful = false)
    (next : s.next action = some (s', events)) : s'.cost (trace ++ events) = s.cost trace := by
  cases action with
  | invoke c call => exact absurd rfl (own c call)
  | pollClient c n =>
      obtain rfl : n = 0 := by simpa [SystemAction.useful] using idle
      obtain ⟨cl, shown, went, rfl, rfl⟩ := SystemState.nextClient_cases next
      have went : (s.clients c).poll 0 = some (cl, shown) := went
      obtain ⟨-, ⟨rfl, rfl⟩ | ⟨batch, conn, taken, nonempty, -, -⟩⟩ := ClientState.poll_cases went
      · refine congrArg (· + _) (Finset.sum_congr rfl fun d _ => ?_)
        have client : (s.putClient c (s.clients c) []).clients d = s.clients d :=
          congrFun (Function.update_eq_self c s.clients) d
        have requests : (s.putClient c (s.clients c) []).requests d = s.requests d := by
          rcases eq_or_ne d c with rfl | other
          · rw [SystemState.putClient_requests_self, List.append_nil]
          · exact s.putClient_requests_of_ne other ..
        refine SystemState.share_congr client rfl requests rfl rfl ?_ rfl
        rw [List.map_nil, List.append_nil]
      · exact absurd (Conn.poll_zero taken) nonempty
  | pollServer n =>
      obtain rfl : n = 0 := by simpa [SystemAction.useful] using idle
      obtain ⟨server, own, went, rfl, rfl⟩ := SystemState.nextServer_cases next
      obtain ⟨t, polled, same⟩ := Option.map_eq_some_iff.mp went
      cases same
      rcases ServerState.poll_cases polled with
        ⟨-, rfl | ⟨index, here, rfl⟩⟩ | ⟨index, batch, conn, routs, -, taken, nonempty, -⟩ |
        ⟨c, first, todo, batch, conn, -, taken, nonempty, -⟩
      · refine congrArg (· + _) (Finset.sum_congr rfl fun d _ => ?_)
        refine SystemState.share_congr rfl rfl rfl (List.append_nil _) rfl ?_ rfl
        rw [List.map_nil, List.append_nil]
      · refine congrArg₂ (· + ·) (Finset.sum_congr rfl fun d _ => ?_) ?_
        · refine SystemState.share_congr rfl rfl rfl (List.append_nil _) rfl ?_ ?_
          · rw [List.map_nil, List.append_nil]
          · rw [here]
            rfl
        · rw [here]
          rfl
      · exact absurd (Conn.poll_zero taken) nonempty
      · exact absurd (Conn.poll_zero taken) nonempty
  | step | completeClient | transfer | landReply | landRequest | completeServer | parse | send =>
      cases idle

/-- What a client and the server's end of its connection can cost. -/
theorem load_le (run : (system N).Run (oneByOne P Q) trace s) (c : Fin N) : s.load c ≤ 38 := by
  have ordered := orderly_run run
  obtain ⟨requests, replies, -⟩ := inFlight_le ordered c
  have counted := (accounted_of_run (client_of_run ordered c).toAlways).counted
  rw [surplus_of_run run c, Nat.add_zero, ClientState.available] at counted
  have supplied := supplied_of_run run c
  have atMost : (s.clients c).phase.due (s.clients c).stage ≤ 3 := by
    have two : repliesTo (s.clients c).phase.wants ≤ 2 := by
      cases (s.clients c).phase <;> simp [Phase.wants, repliesTo, Owed.replies]
    cases (s.clients c).stage <;> simp only [Phase.due] <;> omega
  have awaited : s.server.pc.awaited c ≤ 1 := by
    unfold ServerPc.awaited
    split
    · split <;> omega
    · omega
  have client := (s.clients c).conn.work_le
  have server := (s.server.conns c).work_le
  have stage := (s.clients c).stage.cost_le
  have once : (s.met c).toList.length ≤ 1 := by cases s.met c <;> simp
  simp only [SystemState.config, List.length_append, List.length_map, unread,
    List.length_drop] at requests replies
  simp only [Conn.completions] at client server supplied
  simp only [SystemState.load]
  omega

theorem cost_le (run : (system N).Run (oneByOne P Q) trace s) :
    s.cost trace ≤ N * (132 * N + 126) + 1 := by
  have shares : ∀ c ∈ Finset.univ, s.share trace c ≤ 132 * N + 126 := by
    intro c _
    have far := (inFlight_le (orderly_run run) c).2.2
    have load := load_le run c
    have weighed := Nat.mul_le_mul_left (SystemState.weight N) far
    simp only [SystemState.share, SystemState.weight] at weighed ⊢
    omega
  have sum := Finset.sum_le_card_nsmul Finset.univ _ _ shares
  rw [Finset.card_univ, Fintype.card_fin, smul_eq_mul] at sum
  exact Nat.add_le_add sum s.server.pc.cost_le_one

variable [DecidablePred P] [∀ cfg, DecidablePred (Q cfg)]

/-- Each useful step is paid for. -/
theorem paid_of_exec {actions : List (SystemAction N)} {t : SystemState N}
    {trace' : List (SystemEvent N)} (run : (system N).Run (oneByOne P Q) trace s)
    (goes : (system N).exec (oneByOne P Q) trace s actions = some (t, trace'))
    (own : ∀ c call, .invoke c call ∉ actions) :
    actions.countP SystemAction.useful + t.cost trace' ≤ s.cost trace := by
  refine run.paid SystemState.cost SystemAction.useful (fun action => ∀ c call,
    action ≠ .invoke c call) ?_ goes fun action member c call same => own c call (same ▸ member)
  intro trace s action s' events before met noCall next
  cases useful : action.useful with
  | true =>
      have less := cost_of_next (orderly_run before) met.1 useful next
      rw [if_pos rfl]
      omega
  | false =>
      have same : s'.cost (trace ++ events) = s.cost trace := cost_of_idle noCall useful next
      rw [if_neg Bool.false_ne_true, same, Nat.zero_add]

/-- Nothing goes on forever. While no library call fails and `malloc` returns zeroed memory,
however its steps follow one another, from every state of a run in which messages stay whole and no
poll returns more than one completion, the system takes at most `N * (132 * N + 126) + 1` steps
before the next call, polls that find nothing aside. -/
theorem costs_of_run {actions : List (SystemAction N)} {t : SystemState N}
    {trace' : List (SystemEvent N)} (run : (system N).Run (oneByOne P Q) trace s)
    (goes : (system N).exec (oneByOne P Q) trace s actions = some (t, trace'))
    (own : ∀ c call, .invoke c call ∉ actions) :
    actions.countP SystemAction.useful ≤ N * (132 * N + 126) + 1 :=
  (Nat.le_add_right _ _).trans ((paid_of_exec run goes own).trans (cost_le run))

end Runs

/-- The first request of client 0 is posted, and its completion taken. -/
theorem costs_of_run_set : ∃ trace trace', ∃ s t : SystemState numClients,
    (system numClients).Run (oneByOne Call.Words Config.Answerable) trace s ∧
      (system numClients).exec (oneByOne Call.Words Config.Answerable) trace s
        [.step 0, .completeClient 0 .send, .pollClient 0 1] = some (t, trace') ∧
      3 ≤ numClients * (132 * numClients + 126) + 1 := by
  obtain ⟨trace, s, run, ends⟩ := Machine.Run.of_exec (system numClients)
    (oneByOne Call.Words Config.Answerable) [.invoke 0 (.kvSet keyK valueV)]
    (fun trace s => ((system numClients).exec (oneByOne Call.Words Config.Answerable) trace s
      [.step 0, .completeClient 0 .send, .pollClient 0 1]).isSome) (by decide +kernel)
  obtain ⟨⟨t, trace'⟩, goes⟩ := Option.isSome_iff_exists.mp ends
  exact ⟨trace, trace', s, t, run, goes, costs_of_run run goes (by simp)⟩

/-! ## Two clients -/

section Pairs

variable {trace trace' : List (SystemEvent numClients)} {s t : SystemState numClients}
  {actions : List (SystemAction numClients)}

end Pairs

end RdmaWiki
