import RdmaWiki.Lib.StepMachine

/-!
Runs of one machine that are runs of another.

An observer sees some events of a machine, each as a value of his own. A relation between the
runs of two machines is a simulation when every step of the first is matched by a run of the
second that goes on and shows the observer the same. So every run of the first machine looks like
a run of the second one, which keeps its guard (`Machine.Run.simulated`).
-/

namespace StepMachine

variable {σ α ε τ β δ ω : Type}

/-- What an observer sees of a trace. -/
def observe (sees : ε → Option ω) (trace : List ε) : List ω := trace.filterMap sees

@[simp] theorem observe_nil (sees : ε → Option ω) : observe sees [] = [] := rfl

@[simp] theorem observe_append (sees : ε → Option ω) (trace events : List ε) :
    observe sees (trace ++ events) = observe sees trace ++ observe sees events :=
  List.filterMap_append

/-- Every step of a run of `m` is matched by any number of steps of a run of `m'`. -/
structure Machine.Simulation (m : Machine σ α ε) (guard : Guard σ α ε) (sees : ε → Option ω)
    (m' : Machine τ β δ) (guard' : Guard τ β δ) (sees' : δ → Option ω)
    (R : List ε → σ → List δ → τ → Prop) : Prop where
  init : R [] m.init [] m'.init
  step : ∀ {trace s action s' events trace' t}, m.Run guard trace s → m'.Run guard' trace' t →
    R trace s trace' t → guard trace s action → m.next s action = some (s', events) →
    ∃ events' t', m'.Run guard' (trace' ++ events') t' ∧
      observe sees' events' = observe sees events ∧ R (trace ++ events) s' (trace' ++ events') t'

variable {m : Machine σ α ε} {guard : Guard σ α ε} {sees : ε → Option ω} {m' : Machine τ β δ}
  {guard' : Guard τ β δ} {sees' : δ → Option ω} {R : List ε → σ → List δ → τ → Prop}

theorem Machine.Run.simulated (simulation : m.Simulation guard sees m' guard' sees' R)
    {trace : List ε} {s : σ} (run : m.Run guard trace s) :
    ∃ trace' t, m'.Run guard' trace' t ∧ observe sees' trace' = observe sees trace ∧
      R trace s trace' t := by
  induction run with
  | init => exact ⟨[], m'.init, .init, rfl, simulation.init⟩
  | step before met next ih =>
      obtain ⟨trace', t, run', same, related⟩ := ih
      obtain ⟨events', t', run'', same', related'⟩ := simulation.step before run' related met next
      refine ⟨trace' ++ events', t', run'', ?_, related'⟩
      rw [observe_append, observe_append, same, same']

/-- A step that the observer does not see may be matched by none. -/
theorem Machine.Run.stutter {trace : List ε} {events : List ε} {s' : σ} {trace' : List δ} {t : τ}
    (run' : m'.Run guard' trace' t) (unseen : observe sees events = [])
    (related : R (trace ++ events) s' trace' t) :
    ∃ events' t', m'.Run guard' (trace' ++ events') t' ∧
      observe sees' events' = observe sees events ∧
      R (trace ++ events) s' (trace' ++ events') t' := by
  refine ⟨[], t, ?_, ?_, ?_⟩
  · rwa [List.append_nil]
  · rw [unseen, observe_nil]
  · rwa [List.append_nil]

end StepMachine
