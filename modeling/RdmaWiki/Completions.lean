import RdmaWiki.Protocol

/-!
Completion queues and `pp_wait_completions`.

Every posted send, RDMA operation and receive ends in one completion on the
queue of its connection. `pp_wait_completions` polls until it has counted enough
completions, of whatever kind, and takes every batch that it polls whole. All of
the program's waits are for one completion, and such a wait takes the first batch
that is not empty (`ppWaitCompletions_one`).

Work requests succeed here: a completion carries its `wr_id` and no error.
-/

namespace RdmaWiki

open CText

/-- The `wr_id` of a completion; `PINGPONG_SEND_WRID` also stands for RDMA reads and
writes. -/
inductive Wc
  | send
  | recv
deriving DecidableEq

/-- `WC_BATCH` -/
def wcBatch : ℕ := 10

/-- `ctx->rx_depth` -/
def rxDepth : ℕ := 10000

/-- The counters of a wait and the `routs` of the context that it is given. -/
structure Wait where
  rcnt : ℕ
  scnt : ℕ
  routs : ℕ
deriving DecidableEq

/-- A wait that has counted nothing yet. -/
def Wait.start (routs : ℕ) : Wait := ⟨0, 0, routs⟩

/-- One round of the `switch`: a receive is posted anew when few are left. -/
def Wait.count (wait : Wait) : Wc → Wait
  | .send => { wait with scnt := wait.scnt + 1 }
  | .recv =>
    { wait with
      rcnt := wait.rcnt + 1
      routs := if wait.routs - 1 ≤ 10 then rxDepth else wait.routs - 1 }

/-- The inner `for` loop. -/
def Wait.absorb (wait : Wait) (batch : List Wc) : Wait := batch.foldl Wait.count wait

/-- `pp_wait_completions(ctx, iters)` on the batches that its polls return: the
counters at the end and the polls it did not make, or nothing while it still polls. -/
def ppWaitCompletions (iters : ℕ) (wait : Wait) (polls : List (List Wc)) :
    Option (Wait × List (List Wc)) :=
  if iters ≤ wait.rcnt + wait.scnt then some (wait, polls)
  else
    match polls with
    | [] => none
    | batch :: polls => ppWaitCompletions iters (wait.absorb batch) polls

variable {batch : List Wc} {routs : ℕ}

/-- A batch counts as many completions as it holds, of whatever kind. -/
theorem Wait.absorb_counts (wait : Wait) (batch : List Wc) :
    (wait.absorb batch).rcnt = wait.rcnt + batch.count .recv ∧
      (wait.absorb batch).scnt = wait.scnt + batch.count .send := by
  induction batch generalizing wait with
  | nil => exact ⟨rfl, rfl⟩
  | cons wc rest ih =>
      obtain ⟨recvs, sends⟩ := ih (wait.count wc)
      rw [Wait.absorb, List.foldl_cons, ← Wait.absorb, recvs, sends]
      cases wc with
      | send =>
          have other : List.count Wc.recv (Wc.send :: rest) = rest.count .recv :=
            List.count_cons_of_ne (by decide)
          rw [other, List.count_cons_self]
          exact ⟨rfl, by simp only [Wait.count]; omega⟩
      | recv =>
          have other : List.count Wc.send (Wc.recv :: rest) = rest.count .send :=
            List.count_cons_of_ne (by decide)
          rw [other, List.count_cons_self]
          exact ⟨by simp only [Wait.count]; omega, rfl⟩

theorem count_send_add_recv (batch : List Wc) :
    batch.count .send + batch.count .recv = batch.length := by
  induction batch with
  | nil => rfl
  | cons wc rest ih => cases wc <;> simp <;> omega

/-- A wait for one completion polls on after an empty batch. -/
theorem ppWaitCompletions_nil (polls : List (List Wc)) :
    ppWaitCompletions 1 (.start routs) ([] :: polls) =
      ppWaitCompletions 1 (.start routs) polls := by
  conv_lhs => unfold ppWaitCompletions
  rfl

/-- A wait for one completion ends with the first batch that is not empty, and takes
all of it. -/
theorem ppWaitCompletions_one (nonempty : batch ≠ []) (polls : List (List Wc)) :
    ppWaitCompletions 1 (.start routs) (batch :: polls) =
      some ((Wait.start routs).absorb batch, polls) := by
  have counted : 1 ≤ ((Wait.start routs).absorb batch).rcnt +
      ((Wait.start routs).absorb batch).scnt := by
    obtain ⟨recvs, sends⟩ := (Wait.start routs).absorb_counts batch
    have total := count_send_add_recv batch
    have positive := List.length_pos_iff.mpr nonempty
    simp only [Wait.start] at recvs sends ⊢
    omega
  have begun : ¬ 1 ≤ (Wait.start routs).rcnt + (Wait.start routs).scnt := by
    simp only [Wait.start]
    omega
  rw [ppWaitCompletions, if_neg begun]
  unfold ppWaitCompletions
  exact if_pos counted

/-- What one poll of a wait for one completion does. -/
theorem ppWaitCompletions_poll (batch : List Wc) :
    ppWaitCompletions 1 (.start routs) [batch] =
      if batch = [] then none else some ((Wait.start routs).absorb batch, []) := by
  split
  next empty =>
    subst empty
    rw [ppWaitCompletions_nil]
    rfl
  next nonempty => exact ppWaitCompletions_one nonempty []

/-! ## A connection -/

/-- Write `data` over the front of a buffer. -/
def writeFront (data buf : Bytes) : Bytes := data ++ buf.drop data.length

theorem writeFront_starts (data buf : Bytes) : data <+: writeFront data buf :=
  List.prefix_append ..

/-- One end of a connection: the bytes of `ctx->buf`, its completion queue, oldest
first, the completions that have not appeared on it yet, and `ctx->routs`. -/
structure Conn where
  buf : Bytes
  queue : List Wc
  sendsDue : ℕ
  recvsDue : ℕ
  routs : ℕ
deriving DecidableEq

/-- `pp_init_ctx` fills the buffer with `0x7b + is_server`. -/
def Conn.start (isServer : Bool) : Conn where
  buf := List.replicate bufSize (if isServer then 124 else 123)
  queue := []
  sendsDue := 0
  recvsDue := 0
  routs := rxDepth

/-- A message lands in the buffer. -/
def Conn.land (conn : Conn) (data : Bytes) : Conn :=
  { conn with buf := writeFront data conn.buf, recvsDue := conn.recvsDue + 1 }

/-- A work request is posted on this end. -/
def Conn.post (conn : Conn) : Conn := { conn with sendsDue := conn.sendsDue + 1 }

/-- A completion appears on the queue. -/
def Conn.complete (conn : Conn) : Wc → Option Conn
  | .send =>
    if conn.sendsDue = 0 then none
    else some { conn with queue := conn.queue ++ [.send], sendsDue := conn.sendsDue - 1 }
  | .recv =>
    if conn.recvsDue = 0 then none
    else some { conn with queue := conn.queue ++ [.recv], recvsDue := conn.recvsDue - 1 }

/-- `ibv_poll_cq(ctx->cq, WC_BATCH, wc)` returning `n` completions. -/
def Conn.poll (conn : Conn) (n : ℕ) : Option (List Wc × Conn) :=
  if n ≤ wcBatch ∧ n ≤ conn.queue.length then
    some (conn.queue.take n, { conn with queue := conn.queue.drop n })
  else none

/-- The send completions on the queue and to come. -/
def Conn.sends (conn : Conn) : ℕ := conn.sendsDue + conn.queue.count .send

/-- The receive completions on the queue and to come. -/
def Conn.recvs (conn : Conn) : ℕ := conn.recvsDue + conn.queue.count .recv

section Counts

variable {conn conn' : Conn} {n : ℕ}

theorem Conn.complete_counts {wc : Wc} (appears : conn.complete wc = some conn') :
    conn'.sends = conn.sends ∧ conn'.recvs = conn.recvs ∧ conn'.buf = conn.buf := by
  cases wc with
  | send | recv =>
      simp only [Conn.complete] at appears
      split at appears
      next => cases appears
      next due =>
        cases appears
        simp only [Conn.sends, Conn.recvs, List.count_append]
        simp
        omega

/-- A polled batch leaves the queue. -/
theorem Conn.poll_counts (polled : conn.poll n = some (batch, conn')) :
    conn'.sends + batch.count .send = conn.sends ∧
      conn'.recvs + batch.count .recv = conn.recvs ∧ conn'.buf = conn.buf ∧
      batch.length = n := by
  unfold Conn.poll at polled
  split at polled
  next within =>
    cases polled
    have whole := List.take_append_drop n conn.queue
    have sends := congrArg (List.count Wc.send) whole
    have recvs := congrArg (List.count Wc.recv) whole
    rw [List.count_append] at sends recvs
    refine ⟨?_, ?_, rfl, ?_⟩
    · simp only [Conn.sends]
      omega
    · simp only [Conn.recvs]
      omega
    · exact List.length_take_of_le within.2
  next => cases polled

end Counts

end RdmaWiki
