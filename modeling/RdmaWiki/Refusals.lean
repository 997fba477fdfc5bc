import RdmaWiki.Solo

/-!
When a set is refused.

`server_pending` answers `F` to the setters of a key that wait besides the first. Of two clients
only one can wait for the other, so that no set is ever refused (`accepted_of_run`). Of three, two
can wait. No library call fails here and `malloc` returns zeroed memory, so that a new record has
no waiting client.
-/

namespace RdmaWiki

open CText StepMachine

/-- A waiting setter is refused only when another one is granted. -/
theorem Locks.Step.refused {N : ℕ} {K : Type} [DecidableEq K] {s s' : Locks N K} {c d : Fin N}
    {a : Ask K} {k : K} (step : Locks.Step c a s s') (other : d ≠ c)
    (waits : s.pos d = .waitSet k) (out : s'.pos d = .out) :
    ∃ e, e ≠ c ∧ e ≠ d ∧ s.pos e = .waitSet k := by
  have moved : ∀ p, (s.move c p).pos d = .waitSet k := fun p => by
    rw [Locks.move_pos_of_ne other, waits]
  cases step with
  | stay =>
      rw [waits] at out
      cases out
  | ask | deferSet | grantGet | deferGet | lose =>
      rw [moved] at out
      cases out
  | store =>
      rw [Locks.setLock_pos, waits] at out
      cases out
  | grantSet | getLarge =>
      rw [Locks.setLock_pos, moved] at out
      cases out
  | @finish s a k' l leaves =>
      rcases Locks.wake_pos_cases (s.move c .out) k' l d with
        same | ⟨was, -, -⟩ | ⟨-, -, now⟩ | ⟨was, notFirst, -⟩
      · rw [same, moved] at out
        cases out
      · rw [moved] at was
        cases was
      · rw [now] at out
        cases out
      · -- the first setter is another one
        obtain rfl : k = k' := by
          rw [moved, Pos.waitSet.injEq] at was
          exact was
        obtain ⟨e, rest, setters⟩ := List.exists_cons_of_ne_nil
          (List.ne_nil_of_mem (Locks.mem_setters.mpr was))
        have first : (s.move c .out).pos e = .waitSet k :=
          Locks.mem_setters.mp (setters ▸ List.mem_cons_self)
        refine ⟨e, fun same => ?_, fun same => ?_, Locks.pos_before_move first nofun⟩
        · rw [same, Locks.move_pos_self] at first
          cases first
        · rw [setters, same] at notFirst
          exact notFirst rfl

/-! ## Two clients -/

/-- The client was told `F`. -/
def Client.Refused (cl : Client) : Prop := ∃ key value, cl = ⟨.setAsk key value, [], [.nack]⟩

section Clients

variable {cl : Client} {key value : CString} {more : List Reply}

theorem Client.Shape.refused_pos (shape : cl.Shape) (refused : cl.Refused) : cl.pos = .out := by
  obtain ⟨key, value, rfl⟩ := refused
  cases shape with
  | setRefused named => exact Client.pos_eq named rfl rfl

/-- The client has waited for what it is told. -/
theorem Client.Shape.told (shape : cl.Shape) (quiet : ¬ cl.Refused)
    (phase : cl.phase = .setAsk key value) (handled : cl.requests = [])
    (replies : cl.replies ++ more = [.nack]) : ∃ k, cl.pos = .waitSet k := by
  cases shape with
  | setWait named => exact ⟨_, Client.pos_eq named rfl rfl⟩
  | setAsk => cases handled
  | setGranted => cases replies
  | setRefused => exact absurd ⟨_, _, rfl⟩ quiet
  | _ => cases phase

end Clients

section Steps

variable {N : ℕ} {trace events : List (Event N)} {cfg cfg' : Config N} {c d : Fin N}
  {w : World N} {a : Ask Bytes} {r : Request} {addr : UInt64} {rkey : UInt32}

/-- The request of a setter is not answered `F`. -/
theorem Effect.not_refused {cl : Client} (effect : Effect addr rkey ⟨cfg.db, cfg.mem, []⟩ c r w)
    (sends : cl.Sends r) (rest : List Bytes) :
    ¬ Client.Refused ⟨cl.phase, rest, cl.replies ++ sentTo c w.sent⟩ := by
  intro ⟨key, value, told⟩
  obtain ⟨phase, -, replies⟩ := Client.mk.inj told
  cases sends with
  | setAsk named =>
      cases effect with
      | grantSet valid becomes =>
          rw [becomes.sent] at replies
          simp [sentTo] at replies
      | deferSet found invalid becomes =>
          rw [becomes.sent] at replies
          simp [sentTo] at replies
  | _ => cases phase

/-- A client that is told `F` has waited while another setter of its key did. -/
theorem Outcome.refused (linked : Linked trace cfg) (outcome : Outcome trace cfg c a w)
    (other : d ≠ c) (quiet : ¬ (cfg.clients d).Refused)
    (refused : ((cfg.afterServe c [] w).clients d).Refused) : ∃ e, e ≠ c ∧ e ≠ d := by
  have out : ((cfg.afterServe c [] w).clients d).pos = .out :=
    (outcome.shape d).refused_pos refused
  obtain ⟨key, value, told⟩ := refused
  obtain ⟨phase, handled, replies⟩ := Client.mk.inj told
  rw [if_neg other] at handled
  obtain ⟨k, waits⟩ := (linked.shape d).told quiet phase handled replies
  obtain ⟨e, notOwn, notSelf, -⟩ := outcome.step.refused other waits out
  exact ⟨e, notOwn, notSelf⟩

/-- No client is told `F` by a step of another one or by its own, unless there is a third. -/
theorem Linked.refused (linked : Linked trace cfg) (quiet : ∀ d, ¬ (cfg.clients d).Refused)
    {action : Action N} (next : cfg.next action = some (cfg', events))
    (refused : (cfg'.clients d).Refused) : ∃ c e, d ≠ c ∧ e ≠ c ∧ e ≠ d := by
  cases action with
  | invoke c call =>
      obtain ⟨-, -, rfl, -⟩ := Config.next_invoke next
      rcases eq_or_ne d c with rfl | other
      · simp only [Function.update_self] at refused
        obtain ⟨key, value, told⟩ := refused
        cases call <;> simp [Client.invoke] at told
      · simp only [Function.update_of_ne other] at refused
        exact absurd refused (quiet d)
  | proceed c =>
      obtain ⟨cl, mem, results, moved, rfl, -⟩ := Config.next_proceed next
      rcases eq_or_ne d c with rfl | other
      · simp only [Function.update_self] at refused
        obtain ⟨key, value, rfl⟩ := refused
        exact absurd rfl (((linked.shape d).proceed_refused moved).1 key value)
      · simp only [Function.update_of_ne other] at refused
        exact absurd refused (quiet d)
  | serve c addr rkey =>
      obtain ⟨buf, rest, queue, -, -, ⟨-, rfl, -⟩ | ⟨ret, w, served, rfl, -⟩⟩ :=
        Config.next_serve next
      · exact absurd refused (quiet d)
      · obtain ⟨rfl, r, -, sends, effect, outcome⟩ := linked.serve queue served
        rcases eq_or_ne d c with rfl | other
        · exact absurd refused (effect.not_refused sends _)
        · obtain ⟨e, notOwn, notSelf⟩ := outcome.refused linked other (quiet d) refused
          exact ⟨c, e, other, notOwn, notSelf⟩

end Steps

section Runs

variable {guard : Guard (Config numClients) (Action numClients) (Event numClients)}
  {trace : List (Event numClients)} {cfg : Config numClients}

theorem not_refused_of_run (run : (protocol numClients).Run guard trace cfg) :
    ∀ d, ¬ (cfg.clients d).Refused := by
  refine run.invariant (fun _ cfg => ∀ d, ¬ (cfg.clients d).Refused) (fun _ refused => ?_) ?_
  · obtain ⟨key, value, told⟩ := refused
    cases told
  · intro trace cfg action cfg' events before quiet _ next d refused
    obtain ⟨c, e, other, notOwn, notSelf⟩ := (linked_of_run before).refused quiet next refused
    exact notSelf (Locks.no_third notOwn other)

/-- Two clients are never refused: while no library call fails and `malloc` returns zeroed memory,
in no run of theirs, whatever they call, does a `kv_set` end with the server's `F`. -/
theorem accepted_of_run (run : (protocol numClients).Run guard trace cfg) (c : Fin numClients)
    (call : Call) : .res c call .refused ∉ trace := by
  refine run.invariant (fun trace _ => .res c call .refused ∉ trace) List.not_mem_nil ?_
  intro trace cfg action cfg' events before kept _ next member
  rcases List.mem_append.mp member with earlier | now
  · exact kept earlier
  · cases action with
    | invoke d call' =>
        obtain ⟨-, -, -, rfl⟩ := Config.next_invoke next
        cases List.mem_singleton.mp now
    | proceed d =>
        obtain ⟨cl, mem, results, moved, -, rfl⟩ := Config.next_proceed next
        obtain ⟨⟨call', result⟩, returned, same⟩ := List.mem_map.mp now
        cases same
        have refused := (((linked_of_run before).shape c).proceed_refused moved).2 call returned
        exact not_refused_of_run before c refused
    | serve d addr rkey =>
        obtain ⟨-, -, -, -, -, ⟨-, -, rfl⟩ | ⟨-, w, -, -, rfl⟩⟩ := Config.next_serve next
        · cases now
        · obtain ⟨message, -, woken⟩ := List.mem_filterMap.mp now
          split at woken
          next => cases woken
          next => split at woken <;> cases woken

end Runs

/-- Client 1 waits to set what client 0 sets, and is granted. -/
theorem accepted_of_run_waiting : ∃ trace, ∃ cfg : Config numClients,
    (protocol numClients).Run wordKeys trace cfg ∧
      .res 1 (.kvSet keyK valueV) .stored ∈ trace ∧
      .res 1 (.kvSet keyK valueV) .refused ∉ trace := by
  obtain ⟨trace, cfg, run, ends⟩ := Machine.Run.of_exec (protocol numClients) wordKeys
    [.invoke 0 (.kvSet keyK valueV), .serve 0 0 0, .invoke 1 (.kvSet keyK valueV), .serve 1 0 0,
      .proceed 0, .serve 0 0 0, .proceed 1, .serve 1 1 0, .proceed 1]
    (fun trace _ => decide (.res 1 (.kvSet keyK valueV) .stored ∈ trace)) (by decide +kernel)
  exact ⟨trace, cfg, run, of_decide_eq_true ends, accepted_of_run run 1 _⟩

/-- Of three clients the last one is refused when two wait for the first. -/
example : ∃ trace, ∃ cfg : Config 3, (protocol 3).Run wordKeys trace cfg ∧
    .res 2 (.kvSet keyK valueV) .refused ∈ trace := by
  obtain ⟨trace, cfg, run, ends⟩ := Machine.Run.of_exec (protocol 3) wordKeys
    [.invoke 0 (.kvSet keyK valueV), .serve 0 0 0, .invoke 1 (.kvSet keyK valueV), .serve 1 0 0,
      .invoke 2 (.kvSet keyK valueV), .serve 2 0 0, .proceed 0, .serve 0 0 0, .proceed 2]
    (fun trace _ => decide (.res 2 (.kvSet keyK valueV) .refused ∈ trace)) (by decide +kernel)
  exact ⟨trace, cfg, run, of_decide_eq_true ends⟩

end RdmaWiki
