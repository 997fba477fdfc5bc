import RdmaWiki.Lib.StepMachine

/-!
Machines whose steps come to an end.

A distance that every step of some kind makes smaller bounds how many of them follow one another
(`Machine.Run.steps_le`). When one of them is possible at every place but the goals, they
lead to a goal in as many steps, however they are chosen (`Machine.Run.within`). Where other steps
come in between, a cost that they do not raise pays for those that count (`Machine.Run.paid`).
-/

namespace StepMachine

variable {σ α ε : Type} {m : Machine σ α ε} {guard going : Guard σ α ε}

/-- `n` steps that meet the guard, one after the other. -/
inductive Machine.Steps (m : Machine σ α ε) (guard : Guard σ α ε) (trace : List ε) (s : σ) :
    ℕ → List ε → σ → Prop
  | refl : Machine.Steps m guard trace s 0 trace s
  | step {n : ℕ} {trace' events : List ε} {t u : σ} {action : α} :
    Machine.Steps m guard trace s n trace' t → guard trace' t action →
    m.next t action = some (u, events) →
    Machine.Steps m guard trace s (n + 1) (trace' ++ events) u

/-- A run goes on by steps that meet its guard. -/
theorem Machine.Run.append {trace trace' : List ε} {s t : σ} {n : ℕ} (run : m.Run guard trace s)
    (stronger : ∀ trace s action, going trace s action → guard trace s action)
    (steps : m.Steps going trace s n trace' t) : m.Run guard trace' t := by
  induction steps with
  | refl => exact run
  | step _ met next ih => exact .step ih (stronger _ _ _ met) next

/-- As many steps as the distance allows. -/
theorem Machine.Run.steps_le (distance : σ → ℕ)
    (stronger : ∀ trace s action, going trace s action → guard trace s action)
    (nearer : ∀ {trace s action s' events}, m.Run guard trace s → going trace s action →
      m.next s action = some (s', events) → distance s' < distance s)
    {trace trace' : List ε} {s t : σ} {n : ℕ} (run : m.Run guard trace s)
    (steps : m.Steps going trace s n trace' t) : n + distance t ≤ distance s := by
  induction steps with
  | refl => exact Nat.le_of_eq (Nat.zero_add _)
  | step before met next ih =>
      have near := nearer (run.append stronger before) met next
      omega

/-- A replay of actions takes as many steps. -/
theorem Machine.Steps.of_exec [∀ trace s action, Decidable (guard trace s action)]
    {actions : List α} {before trace trace' : List ε} {s t u : σ} {n : ℕ}
    (steps : m.Steps guard trace s n before t)
    (replay : m.exec guard before t actions = some (u, trace')) :
    m.Steps guard trace s (n + actions.length) trace' u := by
  induction actions generalizing before t n with
  | nil =>
      cases replay
      exact steps
  | cons action rest ih =>
      simp only [Machine.exec] at replay
      split at replay
      next met =>
        split at replay
        next => cases replay
        next next =>
          have further := ih (.step steps met next) replay
          rwa [Nat.add_assoc, Nat.add_comm 1] at further
      next => cases replay

/-- Useful actions are paid for by a cost that each of them lowers and no other action raises. -/
theorem Machine.Run.paid [∀ trace s action, Decidable (guard trace s action)]
    (cost : List ε → σ → ℕ) (useful : α → Bool) (allowed : α → Prop)
    (lowers : ∀ {trace s action s' events}, m.Run guard trace s → guard trace s action →
      allowed action → m.next s action = some (s', events) →
      (if useful action then 1 else 0) + cost (trace ++ events) s' ≤ cost trace s)
    {actions : List α} {trace trace' : List ε} {s t : σ} (run : m.Run guard trace s)
    (goes : m.exec guard trace s actions = some (t, trace'))
    (allow : ∀ action ∈ actions, allowed action) :
    actions.countP useful + cost trace' t ≤ cost trace s := by
  induction actions generalizing trace s with
  | nil =>
      cases goes
      exact Nat.le_of_eq (Nat.zero_add _)
  | cons action rest ih =>
      simp only [Machine.exec] at goes
      split at goes
      next met =>
        split at goes
        next => cases goes
        next s' events next =>
          have now := lowers run met (allow action List.mem_cons_self) next
          have later := ih (.step run met next) goes fun a member =>
            allow a (List.mem_cons_of_mem _ member)
          rw [List.countP_cons]
          omega
      next => cases goes

/-- However the steps that meet the guard are chosen, at most `n` of them reach `goal`, and until
then one is possible. -/
inductive Machine.Within (m : Machine σ α ε) (guard : Guard σ α ε)
    (goal : List ε → σ → Prop) : ℕ → List ε → σ → Prop
  | now {n : ℕ} {trace : List ε} {s : σ} : goal trace s → Machine.Within m guard goal n trace s
  | later {n : ℕ} {trace : List ε} {s : σ} :
    (∃ action s' events, guard trace s action ∧ m.next s action = some (s', events)) →
    (∀ action s' events, guard trace s action → m.next s action = some (s', events) →
      Machine.Within m guard goal n (trace ++ events) s') →
    Machine.Within m guard goal (n + 1) trace s

variable {goal : List ε → σ → Prop}

theorem Machine.Within.mono {n k : ℕ} {trace : List ε} {s : σ}
    (within : m.Within guard goal n trace s) (more : n ≤ k) : m.Within guard goal k trace s := by
  induction within generalizing k with
  | now reached => exact .now reached
  | later possible _ ih =>
      obtain ⟨k, rfl⟩ : ∃ j, k = j + 1 := ⟨k - 1, by omega⟩
      exact .later possible fun action s' events met next =>
        ih action s' events met next (Nat.le_of_succ_le_succ more)

/-- Steps that are possible until a goal is reached, each of which comes nearer, reach a goal. -/
theorem Machine.Run.within (distance : σ → ℕ)
    (stronger : ∀ trace s action, going trace s action → guard trace s action)
    (possible : ∀ {trace s}, m.Run guard trace s → ¬ goal trace s →
      ∃ action s' events, going trace s action ∧ m.next s action = some (s', events))
    (nearer : ∀ {trace s action s' events}, m.Run guard trace s → going trace s action →
      m.next s action = some (s', events) → distance s' < distance s)
    {trace : List ε} {s : σ} (run : m.Run guard trace s) :
    m.Within going goal (distance s) trace s := by
  induction far : distance s using Nat.strongRecOn generalizing trace s with
  | _ n ih =>
      rcases Classical.em (goal trace s) with reached | not_yet
      · exact .now reached
      · obtain ⟨action, s', events, met, next⟩ := possible run not_yet
        have positive : 0 < n := far ▸ Nat.lt_of_le_of_lt (Nat.zero_le _) (nearer run met next)
        obtain ⟨k, rfl⟩ : ∃ k, n = k + 1 := ⟨n - 1, by omega⟩
        refine .later ⟨action, s', events, met, next⟩ fun action s' events met next => ?_
        have near : distance s' < k + 1 := far ▸ nearer run met next
        have further : m.Run guard (trace ++ events) s' := .step run (stronger _ _ _ met) next
        exact (ih (distance s') near further rfl).mono (Nat.le_of_lt_succ near)

end StepMachine
