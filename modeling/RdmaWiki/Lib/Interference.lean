import Mathlib.Logic.Function.Basic
import RdmaWiki.Lib.LibraryCalls
import RdmaWiki.Lib.StepMachine

/-!
Programs side by side in one world.

Every party runs a program. Which answers its calls may get depends on the world, and a call
changes the world: `admits i w e = some w'` says that in `w` the call of party `i` may be answered
as in `e`, after which the world is `w'`. The parties take their calls in any order, so
`machine` has one action for each call that some party may make next, with its answer.

What a party does is proved without the programs of the others, from a contract: `rely` is what
the others may do to the world between two of its calls, and `guar` what it promises of each of
its own calls. `Keeps` says that a program meets a contract and, when it ends, a
postcondition. Where every guarantee is relied on by all the others, the parties keep their
contracts in every run (`keeps_of_run`).
-/

namespace Interference

open LibraryCalls StepMachine

variable {ι W C σ : Type} {R : C → Type} {α : ι → Type}

/-! ## The machine -/

/-- The parties' programs, as far as they are still to be run, and the world. -/
structure Joint (ι W C : Type) (R : C → Type) (σ : Type) (α : ι → Type) where
  programs : (i : ι) → Program C R σ (α i)
  world : W

/-- What a party does next: a call, with its answer. -/
abbrev Turn (ι C : Type) (R : C → Type) := ι × Answered C R

/-- The rest of a program whose next call gets an answer. -/
def resume [DecidableEq C] {β : Type} (p : Program C R σ β) (e : Answered C R) :
    Option (Program C R σ β) :=
  match p with
  | .call c next => if same : e.1 = c then some (next (same ▸ e.2)) else none
  | _ => none

theorem resume_eq_some [DecidableEq C] {β : Type} {p p' : Program C R σ β} {e : Answered C R}
    (resumed : resume p e = some p') : ∃ next, p = .call e.1 next ∧ p' = next e.2 := by
  cases p with
  | done a => cases resumed
  | stop s => cases resumed
  | call c next =>
      obtain ⟨c', r⟩ := e
      simp only [resume] at resumed
      split at resumed
      next same =>
        subst same
        exact ⟨next, rfl, (Option.some.inj resumed).symm⟩
      next => cases resumed

section Machine

variable [DecidableEq ι] [DecidableEq C]

def Joint.next (admits : ι → W → Answered C R → Option W) (s : Joint ι W C R σ α)
    (turn : Turn ι C R) : Option (Joint ι W C R σ α × List (Turn ι C R)) :=
  (resume (s.programs turn.1) turn.2).bind fun p =>
    (admits turn.1 s.world turn.2).map fun w =>
      (⟨Function.update s.programs turn.1 p, w⟩, [turn])

def machine (admits : ι → W → Answered C R → Option W) (start : Joint ι W C R σ α) :
    Machine (Joint ι W C R σ α) (Turn ι C R) (Turn ι C R) where
  init := start
  next := Joint.next admits

/-- A step is one call of one party. -/
theorem next_eq_some {admits : ι → W → Answered C R → Option W} {s s' : Joint ι W C R σ α}
    {turn : Turn ι C R} {events : List (Turn ι C R)}
    (stepped : Joint.next admits s turn = some (s', events)) :
    ∃ next w, s.programs turn.1 = .call turn.2.1 next ∧ admits turn.1 s.world turn.2 = some w ∧
      s' = ⟨Function.update s.programs turn.1 (next turn.2.2), w⟩ := by
  obtain ⟨p, resumed, mapped⟩ := Option.bind_eq_some_iff.mp stepped
  obtain ⟨w, admitted, same⟩ := Option.map_eq_some_iff.mp mapped
  obtain ⟨next, shape, rfl⟩ := resume_eq_some resumed
  cases same
  exact ⟨next, w, shape, admitted, rfl⟩

end Machine

/-! ## Contracts -/

/-- What a party may count on between its calls, and what it promises of each of them. -/
structure Contract (W : Type) where
  rely : W → W → Prop
  guar : W → W → Prop
  refl : ∀ w, rely w w
  trans : ∀ {w w' w''}, rely w w' → rely w' w'' → rely w w''

/-- The program meets the contract from the world on, and when it ends the postcondition holds
and goes on to hold. -/
def Keeps {β : Type} (admits : W → Answered C R → Option W) (k : Contract W)
    (post : Except σ β → W → Prop) : Program C R σ β → W → Prop
  | .done b, w => ∀ w', k.rely w w' → post (.ok b) w'
  | .stop s, w => ∀ w', k.rely w w' → post (.error s) w'
  | .call c next, w => ∀ w', k.rely w w' → ∀ r w'', admits w' ⟨c, r⟩ = some w'' →
    k.guar w' w'' ∧ Keeps admits k post (next r) w''

section Keeps

variable {β γ : Type} {admits : W → Answered C R → Option W} {k : Contract W}
  {post : Except σ β → W → Prop} {p : Program C R σ β} {w : W}

/-- What the others do does not matter. -/
theorem Keeps.relied {w' : W} (keeps : Keeps admits k post p w) (between : k.rely w w') :
    Keeps admits k post p w' := by
  cases p with
  | done b => exact fun w'' later => keeps w'' (k.trans between later)
  | stop s => exact fun w'' later => keeps w'' (k.trans between later)
  | call c next => exact fun w'' later => keeps w'' (k.trans between later)

theorem Keeps.mono {post' : Except σ β → W → Prop} (keeps : Keeps admits k post p w)
    (weaker : ∀ out w, post out w → post' out w) : Keeps admits k post' p w := by
  induction p generalizing w with
  | done b => exact fun w' later => weaker _ _ (keeps w' later)
  | stop s => exact fun w' later => weaker _ _ (keeps w' later)
  | call c next ih =>
      intro w' later r w'' admitted
      obtain ⟨promised, rest⟩ := keeps w' later r w'' admitted
      exact ⟨promised, ih r rest⟩

/-- A contract that promises less. -/
theorem Keeps.weaken {k' : Contract W} (keeps : Keeps admits k post p w)
    (relies : ∀ w w', k'.rely w w' → k.rely w w') (promises : ∀ w w', k.guar w w' → k'.guar w w') :
    Keeps admits k' post p w := by
  induction p generalizing w with
  | done b => exact fun w' later => keeps w' (relies w w' later)
  | stop s => exact fun w' later => keeps w' (relies w w' later)
  | call c next ih =>
      intro w' later r w'' admitted
      obtain ⟨promised, rest⟩ := keeps w' (relies w w' later) r w'' admitted
      exact ⟨promises w' w'' promised, ih r rest⟩

/-- The rule for a sequence. -/
theorem Keeps.bind {f : β → Program C R σ γ} {post' : Except σ γ → W → Prop}
    (first : Keeps admits k post p w)
    (ends : ∀ s w, post (.error s) w → post' (.error s) w)
    (second : ∀ b w, post (.ok b) w → Keeps admits k post' (f b) w) :
    Keeps admits k post' (p.bind f) w := by
  induction p generalizing w with
  | done b => exact second b w (first w (k.refl w))
  | stop s => exact fun w' later => ends s w' (first w' later)
  | call c next ih =>
      intro w' later r w'' admitted
      obtain ⟨promised, rest⟩ := first w' later r w'' admitted
      exact ⟨promised, ih r rest⟩

/-- What the others keep, and what the program promises to keep, is kept. -/
theorem Keeps.frame (F : W → Prop) (keeps : Keeps admits k post p w) (holds : F w)
    (relied : ∀ w w', k.rely w w' → F w → F w') (promised : ∀ w w', k.guar w w' → F w → F w') :
    Keeps admits k (fun out w => post out w ∧ F w) p w := by
  induction p generalizing w with
  | done b => exact fun w' later => ⟨keeps w' later, relied w w' later holds⟩
  | stop s => exact fun w' later => ⟨keeps w' later, relied w w' later holds⟩
  | call c next ih =>
      intro w' later r w'' admitted
      obtain ⟨kept, rest⟩ := keeps w' later r w'' admitted
      exact ⟨kept, ih r rest (promised w' w'' kept (relied w w' later holds))⟩

/-- The rule for a program that has ended. -/
theorem keeps_done {b : β} {P : W → Prop} (holds : P w)
    (stable : ∀ w w', k.rely w w' → P w → P w') (gives : ∀ w, P w → post (.ok b) w) :
    Keeps admits k post (.done b) w :=
  fun w' later => gives w' (stable w w' later holds)

/-- The rule for a call, made when `P` holds. -/
theorem keeps_call {c : C} {next : R c → Program C R σ β} {P : W → Prop} (holds : P w)
    (stable : ∀ w w', k.rely w w' → P w → P w')
    (answered : ∀ w r w', P w → admits w ⟨c, r⟩ = some w' →
      k.guar w w' ∧ Keeps admits k post (next r) w') :
    Keeps admits k post (.call c next) w :=
  fun w' later r w'' admitted => answered w' r w'' (stable w w' later holds) admitted

end Keeps

/-! ## Runs -/

section Runs

variable [DecidableEq ι] [DecidableEq C] {admits : ι → W → Answered C R → Option W}
  {contract : ι → Contract W} {post : (i : ι) → Except σ (α i) → W → Prop}
  {start s : Joint ι W C R σ α} {trace : List (Turn ι C R)}
  {guard : Guard (Joint ι W C R σ α) (Turn ι C R) (Turn ι C R)}

/-- In every run each party keeps its contract. -/
theorem keeps_of_run
    (relied : ∀ i j, i ≠ j → ∀ w w', (contract i).guar w w' → (contract j).rely w w')
    (initially : ∀ i, Keeps (admits i) (contract i) (post i) (start.programs i) start.world)
    (run : (machine admits start).Run guard trace s) (i : ι) :
    Keeps (admits i) (contract i) (post i) (s.programs i) s.world := by
  refine run.invariant
    (fun _ s => ∀ i, Keeps (admits i) (contract i) (post i) (s.programs i) s.world) initially ?_ i
  intro trace s turn s' events _ keeps _ stepped i
  obtain ⟨next, w, shape, admitted, rfl⟩ := next_eq_some stepped
  have own := keeps turn.1
  rw [shape] at own
  obtain ⟨promised, rest⟩ := own s.world ((contract turn.1).refl _) _ w admitted
  by_cases same : i = turn.1
  · subst same
    simpa using rest
  · have other := (keeps i).relied (relied turn.1 i (Ne.symm same) _ _ promised)
    simpa [Function.update_of_ne same] using other

/-- A party that has ended meets its postcondition. -/
theorem post_of_run
    (relied : ∀ i j, i ≠ j → ∀ w w', (contract i).guar w w' → (contract j).rely w w')
    (initially : ∀ i, Keeps (admits i) (contract i) (post i) (start.programs i) start.world)
    (run : (machine admits start).Run guard trace s) {i : ι} {a : α i}
    (ended : s.programs i = .done a) : post i (.ok a) s.world := by
  have keeps := keeps_of_run relied initially run i
  rw [ended] at keeps
  exact keeps s.world ((contract i).refl _)

/-- What every guarantee keeps is an invariant of the world. -/
theorem world_of_run
    (relied : ∀ i j, i ≠ j → ∀ w w', (contract i).guar w w' → (contract j).rely w w')
    (initially : ∀ i, Keeps (admits i) (contract i) (post i) (start.programs i) start.world)
    (inv : W → Prop) (holds : inv start.world)
    (kept : ∀ i w w', (contract i).guar w w' → inv w → inv w')
    (run : (machine admits start).Run guard trace s) : inv s.world := by
  refine run.invariant (fun _ s => inv s.world) holds ?_
  intro trace s turn s' events before invariant _ stepped
  obtain ⟨next, w, shape, admitted, rfl⟩ := next_eq_some stepped
  have own := keeps_of_run relied initially before turn.1
  rw [shape] at own
  exact kept turn.1 _ _ (own s.world ((contract turn.1).refl _) _ w admitted).1 invariant

end Runs

end Interference
