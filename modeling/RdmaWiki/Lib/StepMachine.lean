import Mathlib.Data.List.Basic

/-!
Executable step machines and their guarded runs.

A machine is a partial function from a state and an action to the next state
and the events that an observer sees. Nondeterminism lives in the choice of
the action, so a concrete run is replayed by evaluation (`Machine.exec`) and a
statement about all runs is an induction over `Machine.Run`.

A run carries a guard, a condition on every step that may look at the events
seen so far, the state and the action. The unguarded runs are the runs with
the guard `Machine.always`.
-/

namespace StepMachine

/-- A machine with states `σ`, actions `α` and visible events `ε`. -/
structure Machine (σ α ε : Type) where
  init : σ
  next : σ → α → Option (σ × List ε)

variable {σ α ε : Type}

/-- A condition on a step: the events before it, its state and its action. -/
abbrev Guard (σ α ε : Type) := List ε → σ → α → Prop

/-- The guard of unrestricted runs. -/
def always : Guard σ α ε := fun _ _ _ => True

instance (trace : List ε) (s : σ) (action : α) : Decidable (always trace s action) :=
  .isTrue True.intro

/-- `m.Run guard trace s`: some run from the initial state, all of whose steps
meet the guard, shows the events `trace` and ends in `s`. -/
inductive Machine.Run (m : Machine σ α ε) (guard : Guard σ α ε) :
    List ε → σ → Prop
  | init : Machine.Run m guard [] m.init
  | step {trace events : List ε} {s s' : σ} {action : α} :
    Machine.Run m guard trace s → guard trace s action →
    m.next s action = some (s', events) →
    Machine.Run m guard (trace ++ events) s'

variable {m : Machine σ α ε} {guard guard' : Guard σ α ε}

/-- A run under a guard is a run under every weaker guard. -/
theorem Machine.Run.mono {trace : List ε} {s : σ}
    (weaker : ∀ trace s action, guard trace s action → guard' trace s action)
    (run : m.Run guard trace s) : m.Run guard' trace s := by
  induction run with
  | init => exact .init
  | step _ met next ih => exact .step ih (weaker _ _ _ met) next

theorem Machine.Run.toAlways {trace : List ε} {s : σ}
    (run : m.Run guard trace s) : m.Run always trace s :=
  run.mono fun _ _ _ _ => True.intro

/-- The invariant rule: what holds initially and is kept by every step that
meets the guard holds after every guarded run. The step case may use that the
source state is itself reached. -/
theorem Machine.Run.invariant (inv : List ε → σ → Prop)
    (initially : inv [] m.init)
    (kept : ∀ {trace s action s' events}, m.Run guard trace s → inv trace s →
      guard trace s action → m.next s action = some (s', events) →
      inv (trace ++ events) s')
    {trace : List ε} {s : σ} (run : m.Run guard trace s) : inv trace s := by
  induction run with
  | init => exact initially
  | step before met next ih => exact kept before ih met next

/-! ## What every run reaches -/

/-- However the steps that meet the guard are chosen, `goal` is reached: until then one of
them is possible. -/
inductive Machine.Inevitable (m : Machine σ α ε) (guard : Guard σ α ε)
    (goal : List ε → σ → Prop) : List ε → σ → Prop
  | now {trace : List ε} {s : σ} : goal trace s → Machine.Inevitable m guard goal trace s
  | later {trace : List ε} {s : σ} :
    (∃ action s' events, guard trace s action ∧ m.next s action = some (s', events)) →
    (∀ action s' events, guard trace s action → m.next s action = some (s', events) →
      Machine.Inevitable m guard goal (trace ++ events) s') →
    Machine.Inevitable m guard goal trace s

/-- A run reaches a goal before which some step is always possible and every step comes
nearer. -/
theorem Machine.Run.inevitable {goal : List ε → σ → Prop} (distance : σ → ℕ)
    (possible : ∀ {trace s}, m.Run guard trace s → ¬ goal trace s →
      ∃ action s' events, guard trace s action ∧ m.next s action = some (s', events))
    (nearer : ∀ {trace s action s' events}, m.Run guard trace s → ¬ goal trace s →
      guard trace s action → m.next s action = some (s', events) → distance s' < distance s)
    {trace : List ε} {s : σ} (run : m.Run guard trace s) :
    m.Inevitable guard goal trace s := by
  induction far : distance s using Nat.strongRecOn generalizing trace s with
  | _ n ih =>
      rcases Classical.em (goal trace s) with reached | not_yet
      · exact .now reached
      · refine .later (possible run not_yet) fun action s' events met next => ?_
        have near := nearer run not_yet met next
        rw [far] at near
        exact ih _ near (.step run met next) rfl

/-! ## Going on -/

/-- The machine that goes on from a state. -/
def Machine.resume (m : Machine σ α ε) (s : σ) : Machine σ α ε := { m with init := s }

/-- What a run has kept since some state, the run goes on to keep. -/
theorem Machine.Run.resumed (inv : σ → Prop) {start s : σ} {trace : List ε}
    (run : (m.resume start).Run guard trace s) (initially : inv start)
    (kept : ∀ {trace s action s' events}, inv s → guard trace s action →
      m.next s action = some (s', events) → inv s') : inv s := by
  refine run.invariant (fun _ s => inv s) initially ?_
  intro trace s action s' events _ holds met next
  exact kept holds met next

/-! ## Two runs side by side -/

/-- The next step of a run that may be stuck. -/
def Machine.advance (m : Machine σ α ε) (s : Option σ) (action : α) : Option σ × List ε :=
  match s.bind fun s => m.next s action with
  | none => (none, [])
  | some (s', events) => (some s', events)

/-- Two copies of a machine, each with its own actions. A copy whose action is not possible is
stuck from then on. Every step shows the events of both. -/
def Machine.twin (m : Machine σ α ε) :
    Machine (Option σ × Option σ) (α × α) (List ε × List ε) where
  init := (some m.init, some m.init)
  next s actions :=
    some (((m.advance s.1 actions.1).1, (m.advance s.2 actions.2).1),
      [((m.advance s.1 actions.1).2, (m.advance s.2 actions.2).2)])

theorem Machine.advance_rel {R : σ → σ → Prop} {s s' : Option σ} {action action' : α}
    (related : Option.Rel R s s')
    (kept : ∀ t t', s = some t → s' = some t' → R t t' →
      Option.Rel (fun x y => R x.1 y.1 ∧ x.2 = y.2) (m.next t action) (m.next t' action')) :
    Option.Rel R (m.advance s action).1 (m.advance s' action').1 ∧
      (m.advance s action).2 = (m.advance s' action').2 := by
  cases related with
  | none => exact ⟨.none, rfl⟩
  | @some t t' near =>
      have next := kept t t' rfl rfl near
      simp only [Machine.advance, Option.bind_some]
      generalize m.next t action = x at next
      generalize m.next t' action' = y at next
      cases next with
      | none => exact ⟨.none, rfl⟩
      | some same => exact ⟨.some same.1, same.2⟩

/-- Two runs show the same, and end in related states, when steps from related states show the
same and keep the relation. -/
theorem Machine.Run.twin {guard : Guard (Option σ × Option σ) (α × α) (List ε × List ε)}
    {R : σ → σ → Prop} (initially : R m.init m.init)
    (kept : ∀ trace s s' action action', R s s' →
      guard trace (some s, some s') (action, action') →
      Option.Rel (fun x y => R x.1 y.1 ∧ x.2 = y.2) (m.next s action) (m.next s' action'))
    {trace : List (List ε × List ε)} {s s' : Option σ} (run : m.twin.Run guard trace (s, s')) :
    Option.Rel R s s' ∧ ∀ events ∈ trace, events.1 = events.2 := by
  refine run.invariant
    (fun trace s => Option.Rel R s.1 s.2 ∧ ∀ events ∈ trace, events.1 = events.2) ?_ ?_
  · exact ⟨.some initially, fun _ none => absurd none (List.not_mem_nil)⟩
  · intro trace ⟨s, s'⟩ ⟨action, action'⟩ next events _ ⟨related, same⟩ met stepped
    cases stepped
    obtain ⟨related', shown⟩ := Machine.advance_rel related fun t t' first second near => by
      subst first second
      exact kept trace t t' action action' near met
    refine ⟨related', fun pair member => ?_⟩
    rcases List.mem_append.mp member with before | now
    · exact same pair before
    · rw [List.mem_singleton.mp now]
      exact shown

/-! ## Watching a run -/

/-- A machine beside a record that is kept of its steps, from the state before, the action and
the state after. Where the record has no next value the step is not possible. -/
def Machine.watch {γ : Type} (m : Machine σ α ε) (start : γ)
    (record : σ → α → σ → γ → Option γ) : Machine (σ × γ) α ε where
  init := (m.init, start)
  next s action :=
    (m.next s.1 action).bind fun next =>
      (record s.1 action next.1 s.2).map fun kept => ((next.1, kept), next.2)

theorem Machine.watch_next {γ : Type} {start kept kept' : γ}
    {record : σ → α → σ → γ → Option γ} {s s' : σ} {action : α} {events : List ε} :
    (m.watch start record).next (s, kept) action = some ((s', kept'), events) ↔
      m.next s action = some (s', events) ∧ record s action s' kept = some kept' := by
  simp only [Machine.watch, Option.bind_eq_some_iff, Option.map_eq_some_iff, Prod.mk.injEq]
  constructor
  · rintro ⟨next, stepped, after, recorded, ⟨rfl, rfl⟩, rfl⟩
    exact ⟨stepped, recorded⟩
  · rintro ⟨stepped, recorded⟩
    exact ⟨(s', events), stepped, kept', recorded, ⟨rfl, rfl⟩, rfl⟩

/-- What holds of the start and the first value of a record, and is kept by every step
together with its record, holds after every watched run. -/
theorem Machine.Run.watched {γ : Type} {start : γ} {record : σ → α → σ → γ → Option γ}
    {guard : Guard (σ × γ) α ε} (inv : σ → γ → Prop) (initially : inv m.init start)
    (kept : ∀ {trace s action s' events g g'}, guard trace (s, g) action → inv s g →
      m.next s action = some (s', events) → record s action s' g = some g' → inv s' g')
    {trace : List ε} {s : σ} {g : γ} (run : (m.watch start record).Run guard trace (s, g)) :
    inv s g := by
  refine run.invariant (fun _ s => inv s.1 s.2) initially ?_
  intro trace ⟨s, g⟩ action ⟨s', g'⟩ events _ holds met next
  obtain ⟨stepped, recorded⟩ := Machine.watch_next.mp next
  exact kept met holds stepped recorded

/-! ## Replaying a list of actions -/

section Replay

variable (m : Machine σ α ε) (guard : Guard σ α ε)
  [∀ trace s action, Decidable (guard trace s action)]

/-- Replay a list of actions, checking the guard at every step. -/
def Machine.exec (trace : List ε) (s : σ) : List α → Option (σ × List ε)
  | [] => some (s, trace)
  | action :: rest =>
    if guard trace s action then
      match m.next s action with
      | none => none
      | some (s', events) => Machine.exec (trace ++ events) s' rest
    else none

theorem Machine.Run.of_exec_from {actions : List α} {before trace : List ε} {s last : σ}
    (run : m.Run guard before s)
    (replay : m.exec guard before s actions = some (last, trace)) :
    m.Run guard trace last := by
  induction actions generalizing before s with
  | nil =>
      simp only [Machine.exec, Option.some.injEq, Prod.mk.injEq] at replay
      obtain ⟨rfl, rfl⟩ := replay
      exact run
  | cons action rest ih =>
      simp only [Machine.exec] at replay
      split at replay
      next met =>
        split at replay
        next => cases replay
        next next => exact ih (.step run met next) replay
      next => cases replay

/-- A replay from the initial state ends a guarded run, at which any evaluated
property of its end holds. -/
theorem Machine.Run.of_exec (actions : List α) (ending : List ε → σ → Bool)
    (replay : (m.exec guard [] m.init actions).any
      (fun reached => ending reached.2 reached.1) = true) :
    ∃ trace last, m.Run guard trace last ∧ ending trace last = true := by
  obtain ⟨⟨last, trace⟩, replayed, holds⟩ := (Option.any_eq_true _ _).mp replay
  exact ⟨trace, last, .of_exec_from m guard .init replayed, holds⟩

end Replay

end StepMachine
