import RdmaWiki.Lib.Termination
import RdmaWiki.Solo
import Mathlib.Algebra.BigOperators.Group.Finset.Basic
import Mathlib.Algebra.Order.BigOperators.Group.Finset

/-!
Calls come to an end.

Every step of a client and every request that is handled brings the end of a call nearer. So once
no call starts any more, all of it is over after a few steps for each client, however many
clients there are and whatever they send (`drains_of_run`). With two clients some step is possible
as long as a call is in progress, and then every call returns (`returns_of_run`). The calls are
those of `protocol`, whose waits are for messages: no library call fails, `malloc` returns zeroed
memory, and no wait takes the completion of another one.
-/

namespace RdmaWiki

open CText StepMachine Locks

variable {N : ℕ}

/-- No call starts. -/
def noCalls : Guard (Config N) (Action N) (Event N)
  | _, _, action => ∀ c call, action ≠ .invoke c call

/-- Requests are serviceable, and no call starts. -/
def draining (trace : List (Event N)) (cfg : Config N) (action : Action N) : Prop :=
  serviceable trace cfg action ∧ noCalls trace cfg action

/-- The distance of all clients from the ends of their calls, and of the server from a crash. -/
def Config.distance (cfg : Config N) : ℕ :=
  ∑ c, (cfg.clients c).distance + if cfg.up then 1 else 0

theorem noCalls_proceed (trace : List (Event N)) (cfg : Config N) (c : Fin N) :
    noCalls trace cfg (.proceed c) := by
  intro d call same
  cases same

theorem noCalls_serve (trace : List (Event N)) (cfg : Config N) (c : Fin N) (addr : UInt64)
    (rkey : UInt32) : noCalls trace cfg (.serve c addr rkey) := by
  intro d call same
  cases same

/-! ## Every step comes nearer -/

section Nearer

variable {trace events : List (Event N)} {cfg cfg' : Config N} {c : Fin N}

/-- One client comes nearer, and the others stay as far as they are. -/
theorem sum_distance_lt {clients clients' : Fin N → Client}
    (near : (clients' c).distance < (clients c).distance)
    (others : ∀ d, d ≠ c → (clients' d).distance = (clients d).distance) :
    ∑ d, (clients' d).distance < ∑ d, (clients d).distance := by
  refine Finset.sum_lt_sum (fun d _ => ?_) ⟨c, Finset.mem_univ c, near⟩
  rcases eq_or_ne d c with rfl | other
  · exact near.le
  · exact (others d other).le

theorem Linked.next_nearer (linked : Linked trace cfg) {action : Action N}
    (met : noCalls trace cfg action) (next : cfg.next action = some (cfg', events)) :
    cfg'.distance < cfg.distance := by
  cases action with
  | invoke c call => exact absurd rfl (met c call)
  | proceed c =>
      obtain ⟨cl, mem, results, moved, rfl, -⟩ := Config.next_proceed next
      refine Nat.add_lt_add_right (sum_distance_lt (c := c) ?_ fun d other => ?_) _
      · simp only [Function.update_self]
        exact (linked.shape c).proceed_nearer moved
      · simp only [Function.update_of_ne other]
  | serve c addr rkey =>
      obtain ⟨buf, rest, queue, up, -, ⟨-, rfl, -⟩ | ⟨ret, w, -, rfl, -⟩⟩ :=
        Config.next_serve next
      · simp [Config.distance, up]
      · refine Nat.add_lt_add_right (sum_distance_lt (c := c) ?_ fun d other => ?_) _
        · simp [Config.afterServe, Config.deliver, Client.distance, queue]
        · simp [Config.afterServe, Config.deliver, Client.distance, other]

theorem Client.Shape.distance_le {cl : Client} (shape : cl.Shape) : cl.distance ≤ 11 := by
  cases shape <;> simp [Client.distance, Phase.rank]

theorem Linked.distance_le (linked : Linked trace cfg) : cfg.distance ≤ 11 * N + 1 := by
  have each : ∑ c, (cfg.clients c).distance ≤ ∑ _c : Fin N, 11 :=
    Finset.sum_le_sum fun c _ => (linked.shape c).distance_le
  rw [Finset.sum_const, Finset.card_univ, Fintype.card_fin, smul_eq_mul, mul_comm] at each
  unfold Config.distance
  split <;> omega

end Nearer

/-- Nothing goes on forever. From every state that calls lead to, for any number of clients, at
most eleven steps for each of them follow before the next call, or one more when the server
crashes. The steps are those of the messages, where no library call fails. -/
theorem drains_of_run {guard : Guard (Config N) (Action N) (Event N)}
    {trace trace' : List (Event N)} {cfg cfg' : Config N} {n : ℕ}
    (run : (protocol N).Run guard trace cfg)
    (steps : (protocol N).Steps noCalls trace cfg n trace' cfg') : n ≤ 11 * N + 1 := by
  have far := (linked_of_run run).distance_le
  have near := run.toAlways.steps_le Config.distance (fun _ _ _ _ => True.intro)
    (fun before met next => (linked_of_run before).next_nearer met next) steps
  omega

instance (trace : List (Event N)) (cfg : Config N) (action : Action N) :
    Decidable (noCalls trace cfg action) :=
  match action with
  | .invoke c call => .isFalse fun met => met c call rfl
  | .proceed c => .isTrue (noCalls_proceed trace cfg c)
  | .serve c addr rkey => .isTrue (noCalls_serve trace cfg c addr rkey)

/-- The four steps of a small set after its call. -/
theorem drains_of_run_set : ∃ trace trace', ∃ cfg cfg' : Config numClients,
    (protocol numClients).Run wordKeys trace cfg ∧
      (protocol numClients).Steps noCalls trace cfg 4 trace' cfg' ∧
      (cfg'.clients 0).phase = .idle ∧ 4 ≤ 11 * numClients + 1 := by
  obtain ⟨trace, cfg, run, ends⟩ := Machine.Run.of_exec (protocol numClients) wordKeys
    [.invoke 0 (.kvSet keyK valueV)]
    (fun trace cfg => ((protocol numClients).exec noCalls trace cfg
      [.serve 0 0 0, .proceed 0, .serve 0 0 0, .proceed 0]).any
        fun reached : Config numClients × List (Event numClients) =>
          decide ((reached.1.clients 0).phase = .idle)) (by decide +kernel)
  obtain ⟨⟨cfg', trace'⟩, replay, idle⟩ := (Option.any_eq_true _ _).mp ends
  have steps : (protocol numClients).Steps noCalls trace cfg 4 trace' cfg' :=
    .of_exec .refl replay
  exact ⟨trace, trace', cfg, cfg', run, steps, of_decide_eq_true idle, drains_of_run run steps⟩

/-! ## Two clients -/

/-- Every call has returned; or memory is full, or a request is left that is not serviceable. -/
def Config.Drained (trace : List (Event N)) (cfg : Config N) : Prop :=
  (∀ c, (cfg.clients c).phase = .idle) ∨ cfg.mem.Full ∨
    ∃ c, (cfg.clients c).requests ≠ [] ∧ ¬ cfg.Serviceable trace c

section Goes

variable {trace : List (Event N)} {cfg : Config N} {c : Fin N} {addr : UInt64}

/-- A request can be handled, well or not. -/
theorem Config.next_of_request (asked : (cfg.clients c).requests ≠ []) (up : cfg.up = true)
    (free : cfg.mem.block addr = none) :
    ∃ cfg' events, cfg.next (.serve c addr 0) = some (cfg', events) := by
  obtain ⟨buf, rest, queue⟩ := List.exists_cons_of_ne_nil asked
  have runs : ¬ (cfg.up = false ∨ (cfg.mem.block addr).isSome = true) := by simp [up, free]
  simp only [Config.next, queue, if_neg runs]
  split
  · exact ⟨_, _, rfl⟩
  · exact ⟨_, _, rfl⟩

/-- A client in a call can take a step, or its request can be handled, or it waits for a key. -/
theorem Config.Ready.goes_or_waits (ready : cfg.Ready trace) (up : cfg.up = true)
    (free : cfg.mem.block addr = none)
    (serviced : (cfg.clients c).requests ≠ [] → cfg.Serviceable trace c)
    (found : ∀ k, (cfg.clients c).pos ≠ .lost k) (active : (cfg.clients c).phase ≠ .idle) :
    (∃ action cfg' events, draining trace cfg action ∧ cfg.next action = some (cfg', events)) ∨
      ∃ k, (cfg.clients c).pos = .waitSet k ∨ (cfg.clients c).pos = .waitGet k := by
  have shape := ready.linked.shape c
  by_cases handled : (cfg.clients c).requests = []
  · suffices goes : (((cfg.clients c).proceed cfg.mem).isSome = true) ∨
        ∃ k, (cfg.clients c).pos = .waitSet k ∨ (cfg.clients c).pos = .waitGet k by
      rcases goes with goes | waits
      · obtain ⟨cfg', events, next⟩ := Config.next_of_proceed goes
        have met : draining trace cfg (.proceed c) := ⟨True.intro, noCalls_proceed trace cfg c⟩
        exact .inl ⟨_, cfg', events, met, next⟩
      · exact .inr waits
    cases awaits : (cfg.clients c).phase.awaits with
    | true =>
        rcases shape.ready handled awaits with ⟨-, proceeds⟩ | ⟨-, k, -, point⟩
        · exact .inl (proceeds cfg.mem)
        · rcases point with waits | waits | lost
          · exact .inr ⟨k, .inl waits⟩
          · exact .inr ⟨k, .inr waits⟩
          · exact absurd lost (found k)
    | false =>
        left
        generalize cfg.clients c = cl at shape active awaits
        cases shape with
        | setWrite | getRead => rfl
        | idle => exact absurd rfl active
        | _ => cases awaits
  · obtain ⟨cfg', events, next⟩ := Config.next_of_request handled up free
    have met : draining trace cfg (.serve c addr 0) :=
      ⟨serviced handled, noCalls_serve trace cfg c addr 0⟩
    exact .inl ⟨_, cfg', events, met, next⟩

end Goes

section Runs

variable {trace : List (Event numClients)} {cfg : Config numClients}

/-- Until everything is over some step is possible: a client that waits leaves it to the one that
holds its key, and that one does not wait. -/
theorem goes_of_run (run : (protocol numClients).Run serviceable trace cfg)
    (going : ¬ cfg.Drained trace) :
    ∃ action cfg' events, draining trace cfg action ∧
      (protocol numClients).next cfg action = some (cfg', events) := by
  have ready := ready_of_run (fun _ _ _ _ met => met) run
  obtain ⟨up, settled⟩ := settled_of_run run
  unfold Config.Drained at going
  push Not at going
  obtain ⟨⟨c, active⟩, room, serviced⟩ := going
  rw [Mem.Full, not_forall] at room
  obtain ⟨addr, taken⟩ := room
  have free : cfg.mem.block addr = none := by simpa using taken
  rcases ready.goes_or_waits up free (serviced c) (settled c).1 active with goes | ⟨k, waits⟩
  · exact goes
  · obtain ⟨d, -, holds⟩ := (settled c).2 k waits
    change Holds (cfg.clients d).pos k at holds
    have inside : (cfg.clients d).phase ≠ .idle := by
      intro idle
      have shape := ready.linked.shape d
      generalize cfg.clients d = cl at shape idle holds
      cases shape with
      | idle => rcases holds with bad | bad | bad <;> cases bad
      | _ => cases idle
    rcases ready.goes_or_waits up free (serviced d) (settled d).1 inside with goes | ⟨k', waits'⟩
    · exact goes
    · rcases holds with here | here | here <;> rw [here] at waits' <;>
        rcases waits' with bad | bad <;> cases bad

/-- Calls return at the level of messages, while no library call fails and `malloc` returns zeroed
memory. From every state that two clients reach with serviceable requests, however their
steps and the server's follow one another, every call returns within 23 of them if no other call
starts, unless memory runs out or a request comes up that is not serviceable. -/
theorem returns_of_run (run : (protocol numClients).Run serviceable trace cfg) :
    (protocol numClients).Within draining (fun trace cfg => cfg.Drained trace) 23 trace cfg := by
  have within : (protocol numClients).Within draining (fun trace cfg => cfg.Drained trace)
      cfg.distance trace cfg :=
    run.within Config.distance (fun _ _ _ met => met.1) (fun before going => goes_of_run before going)
      (fun before met next => (linked_of_run before).next_nearer met.2 next)
  exact within.mono (linked_of_run run).distance_le

end Runs

/-- A set of client 0 that client 1 waits for. -/
theorem returns_of_run_waiting : ∃ trace, ∃ cfg : Config numClients,
    (protocol numClients).Run serviceable trace cfg ∧
      (cfg.clients 1).pos = .waitGet keyK.bytes ∧
      (protocol numClients).Within draining (fun trace cfg => cfg.Drained trace) 23 trace cfg := by
  obtain ⟨trace, cfg, run, ends⟩ := Machine.Run.of_exec (protocol numClients) serviceable
    [.invoke 0 (.kvSet keyK valueV), .serve 0 0 0, .invoke 1 (.kvGet keyK), .serve 1 0 0]
    (fun _ cfg => decide ((cfg.clients 1).pos = .waitGet keyK.bytes)) (by decide +kernel)
  exact ⟨trace, cfg, run, of_decide_eq_true ends, returns_of_run run⟩

end RdmaWiki
