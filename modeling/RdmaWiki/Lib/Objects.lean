import Mathlib.Tactic.Common

/-!
Deterministic objects and their refinement.

An object answers every operation and moves to its next state. A relation between the
states of two objects that every operation keeps, with equal answers, is a refinement;
the two objects then answer every sequence of operations alike.
-/

namespace Objects

/-- An object with states `σ`, operations `ω` and answers `ρ`. -/
structure Object (σ ω ρ : Type) where
  init : σ
  apply : σ → ω → ρ × σ

variable {σ τ ω ρ : Type}

/-- The answers to a sequence of operations, and the state after it. -/
def Object.runFrom (o : Object σ ω ρ) (s : σ) : List ω → List ρ × σ
  | [] => ([], s)
  | op :: rest =>
    let (answer, s') := o.apply s op
    let (answers, last) := o.runFrom s' rest
    (answer :: answers, last)

def Object.run (o : Object σ ω ρ) (ops : List ω) : List ρ × σ := o.runFrom o.init ops

/-- `c` behaves as `a` does, their states being related by `R`. -/
structure Refines (c : Object σ ω ρ) (a : Object τ ω ρ) (R : σ → τ → Prop) : Prop where
  init : R c.init a.init
  apply : ∀ {s t} (op : ω), R s t →
    (c.apply s op).1 = (a.apply t op).1 ∧ R (c.apply s op).2 (a.apply t op).2

variable {c : Object σ ω ρ} {a : Object τ ω ρ} {R : σ → τ → Prop}

theorem Refines.runFrom (refines : Refines c a R) {s : σ} {t : τ} (related : R s t)
    (ops : List ω) :
    (c.runFrom s ops).1 = (a.runFrom t ops).1 ∧ R (c.runFrom s ops).2 (a.runFrom t ops).2 := by
  induction ops generalizing s t with
  | nil => exact ⟨rfl, related⟩
  | cons op rest ih =>
      obtain ⟨answer, next⟩ := refines.apply op related
      obtain ⟨answers, last⟩ := ih next
      simp only [Object.runFrom, answer, answers, true_and]
      exact last

/-- A refinement answers every sequence of operations as the other object does. -/
theorem Refines.run (refines : Refines c a R) (ops : List ω) :
    (c.run ops).1 = (a.run ops).1 ∧ R (c.run ops).2 (a.run ops).2 :=
  refines.runFrom refines.init ops

end Objects
