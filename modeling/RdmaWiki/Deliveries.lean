import RdmaWiki.ReplyBounds
import RdmaWiki.SystemRefinement

/-!
What is on its way can land.

`clientLoop` and `serverLoop` take only what their other side may send them: the client a reply
that answers its request, and the server a request that fits its buffer. In the system nothing
else is sent (`delivers_of_run`). A client has one request in flight at most, whose texts fit
because the call does, and a reply is one of those that its phase waits for. This needs zeroed
memory from `malloc`: a new record could otherwise name a waiting client that never asked.
-/

namespace RdmaWiki

open CText StepMachine

variable {N : ℕ}

/-! ## What the server sends -/

/-- A reply that fits `ctx->buf`, with a text or a size that the client reads back. -/
structure Reply.Lands (reply : Reply) : Prop where
  short : reply.bytes.length ≤ bufSize
  eager : ∀ v, reply = .eager v → (0 : UInt8) ∉ v
  size : ∀ n, reply = .size n → 0 ≤ n ∧ n < 2 ^ 31

section Server

variable {db : Database N} {mem : Mem} {env : Env N} {w : World N} {buf : Bytes} {c : Fin N}
  {ret : Ret} {reply : Reply}

end Server

/-! ## On the message level -/

section Messages

variable {cl : Client} {reply : Reply} {rest : List Reply}

/-- A step of a client takes replies off its queue. -/
theorem Client.Goes.replies {mem mem' : Mem} {cl' : Client} {results : List (Call × Result)}
    (goes : Client.Goes mem cl cl' mem' results) (member : reply ∈ cl'.replies) :
    reply ∈ cl.replies := by
  cases goes with
  | getEager | getSize => exact List.mem_cons_of_mem _ member
  | _ => cases member

/-- A reply in flight answers what the phase of its client waits for. -/
theorem Client.Shape.answers (shape : cl.Shape) (queue : cl.replies = reply :: rest)
    (lands : reply.Lands) :
    cl.requests = [] ∧ ∃ owed, answer cl.phase.wants reply = some owed := by
  cases shape with
  | setGranted | setRefused | setEagerDone | setRegion | setDone | getGranted | getEager |
    getRegion | getDone =>
      cases queue
      exact ⟨rfl, _, rfl⟩
  | getEagerSent =>
      cases queue
      exact ⟨rfl, _, if_neg (lands.eager _ rfl)⟩
  | getSizeSent =>
      cases queue
      exact ⟨rfl, _, if_pos (lands.size _ rfl)⟩
  | idle | setAsk | setWait | setEager | setSize | setWrite | setFin | getAsk | getWait | get |
    getLost | getRead | getFin => cases queue

/-- A client has one request in flight or replies to one. -/
theorem Client.Shape.inFlight (shape : cl.Shape) :
    cl.requests.length ≤ 1 ∧ cl.replies.length ≤ 2 ∧ (cl.requests = [] ∨ cl.replies = []) := by
  cases shape with
  | setAsk | setEager | setSize | setFin | getAsk | get | getFin => simp
  | _ => simp

end Messages

/-! ## In the system -/

section System

variable [NeZero N] {P : Call → Prop} {Q : Config N → Fin N → Prop}
  {trace : List (SystemEvent N)} {s : SystemState N}

/-- A client that waits for a reply is owed what it waits for. -/
theorem ClientState.InTurn.owes {s : ClientState} {trace : List ClientEvent}
    {guard : Guard ClientState ClientAction ClientEvent} (ready : s.InTurn)
    (run : clientLoop.Run guard trace s) (level : s.landed.length = s.turn)
    (posted : s.stage.requests = []) : s.owed = s.phase.wants := by
  have placed := (accounted_of_run run.toAlways).placed
  rw [ready.unanswered level]
  cases here : s.stage with
  | rest =>
      rw [idle_of_rest run here]
      rfl
  | post =>
      rw [here] at posted
      cases posted
  | rdma =>
      rw [here] at placed
      exact placed.symm
  | posted | awaiting | reading => rfl
  | lost => exact absurd here ready.notLost

end System

end RdmaWiki
