import Mathlib.Data.List.Induction
import Mathlib.Logic.Function.Basic
import Mathlib.Tactic.Common

/-!
Linearizability by atomic objects.

An atomic object carries out every operation at one moment between its call and
its return, following a sequential specification; only the calls and the
returns are visible. `Atomic spec h s stage` says that some execution of the
object shows the history `h`, and a history is linearizable when there is one.
A concurrent implementation is shown linearizable by building such an execution
along its run: a step that is invisible to its clients is matched by any number
of moments of effect.
-/

namespace AtomicObject

/-- A sequential object: its initial state, and when an operation may take it from
one state to another with a result. -/
structure Spec (σ Op Ret : Type) where
  init : σ
  act : σ → Op → Ret → σ → Prop

/-- What is visible of an operation of client `c`. -/
inductive Visible (C Op Ret : Type)
  | call (c : C) (op : Op)
  | ret (c : C) (op : Op) (r : Ret)
deriving DecidableEq

/-- How far a client is with its operation. -/
inductive Stage (Op Ret : Type)
  | idle
  | called (op : Op)
  | done (op : Op) (r : Ret)

variable {σ C Op Ret : Type} [DecidableEq C]

/-- Some execution of the object shows the history, ends in the state and leaves the
clients in their stages. -/
inductive Atomic (spec : Spec σ Op Ret) :
    List (Visible C Op Ret) → σ → (C → Stage Op Ret) → Prop
  | init : Atomic spec [] spec.init fun _ => .idle
  | call {h : List (Visible C Op Ret)} {s : σ} {stage : C → Stage Op Ret} {c : C} {op : Op} :
    Atomic spec h s stage → stage c = .idle →
    Atomic spec (h ++ [.call c op]) s (Function.update stage c (.called op))
  | act {h : List (Visible C Op Ret)} {s s' : σ} {stage : C → Stage Op Ret} {c : C} {op : Op}
    {r : Ret} : Atomic spec h s stage → stage c = .called op → spec.act s op r s' →
    Atomic spec h s' (Function.update stage c (.done op r))
  | ret {h : List (Visible C Op Ret)} {s : σ} {stage : C → Stage Op Ret} {c : C} {op : Op}
    {r : Ret} : Atomic spec h s stage → stage c = .done op r →
    Atomic spec (h ++ [.ret c op r]) s (Function.update stage c .idle)

def Linearizable (spec : Spec σ Op Ret) (h : List (Visible C Op Ret)) : Prop :=
  ∃ s stage, Atomic spec h s stage

variable {spec : Spec σ Op Ret} {h : List (Visible C Op Ret)} {s : σ}
  {stage : C → Stage Op Ret} {c : C} {op : Op} {r : Ret}

/-- An operation that takes effect and returns in one step of the implementation. -/
theorem Atomic.actRet {s' : σ} (atomic : Atomic spec h s stage) (called : stage c = .called op)
    (acts : spec.act s op r s') :
    Atomic spec (h ++ [.ret c op r]) s' (Function.update stage c .idle) := by
  have done := (atomic.act called acts).ret (Function.update_self ..)
  rwa [Function.update_idem] at done

/-- What holds of the initial state and of the results, as operations take effect,
holds of everything that the history returns. -/
theorem Atomic.returned {P : List (Visible C Op Ret) → σ → Prop}
    {Q : List (Visible C Op Ret) → Op → Ret → Prop}
    (initially : P [] spec.init)
    (grow : ∀ {h s e}, P h s → P (h ++ [e]) s)
    (keep : ∀ {h op r e}, Q h op r → Q (h ++ [e]) op r)
    (acts : ∀ {h s s' c op r}, Visible.call c op ∈ h → P h s → spec.act s op r s' →
      P h s' ∧ Q h op r)
    (atomic : Atomic spec h s stage) :
    P h s ∧ (∀ c op r, Visible.ret c op r ∈ h → Q h op r) := by
  -- along the execution every stage is backed by its call and its result
  suffices all : P h s ∧ (∀ c op r, Visible.ret c op r ∈ h → Q h op r) ∧
      (∀ c op, stage c = .called op → Visible.call c op ∈ h) ∧
      ∀ c op r, stage c = .done op r → Q h op r from ⟨all.1, all.2.1⟩
  induction atomic with
  | init => exact ⟨initially, nofun, nofun, nofun⟩
  | @call h s stage c op before idle ih =>
      obtain ⟨holds, returns, calls, results⟩ := ih
      refine ⟨grow holds, ?_, ?_, ?_⟩
      · intro d op' r' member
        rcases List.mem_append.mp member with old | new
        · exact keep (returns d op' r' old)
        · cases List.mem_singleton.mp new
      · intro d op' called
        rcases eq_or_ne d c with rfl | other
        · rw [Function.update_self, Stage.called.injEq] at called
          rw [called]
          exact List.mem_append_right _ List.mem_cons_self
        · rw [Function.update_of_ne other] at called
          exact List.mem_append_left _ (calls d op' called)
      · intro d op' r' done
        rcases eq_or_ne d c with rfl | other
        · rw [Function.update_self] at done
          cases done
        · rw [Function.update_of_ne other] at done
          exact keep (results d op' r' done)
  | @act h s s' stage c op r before called acted ih =>
      obtain ⟨holds, returns, calls, results⟩ := ih
      obtain ⟨holds', result⟩ := acts (calls c op called) holds acted
      refine ⟨holds', returns, ?_, ?_⟩
      · intro d op' called'
        rcases eq_or_ne d c with rfl | other
        · rw [Function.update_self] at called'
          cases called'
        · rw [Function.update_of_ne other] at called'
          exact calls d op' called'
      · intro d op' r' done
        rcases eq_or_ne d c with rfl | other
        · rw [Function.update_self, Stage.done.injEq] at done
          obtain ⟨rfl, rfl⟩ := done
          exact result
        · rw [Function.update_of_ne other] at done
          exact results d op' r' done
  | @ret h s stage c op r before done ih =>
      obtain ⟨holds, returns, calls, results⟩ := ih
      refine ⟨grow holds, ?_, ?_, ?_⟩
      · intro d op' r' member
        rcases List.mem_append.mp member with old | new
        · exact keep (returns d op' r' old)
        · cases List.mem_singleton.mp new
          exact keep (results c op r done)
      · intro d op' called
        rcases eq_or_ne d c with rfl | other
        · rw [Function.update_self] at called
          cases called
        · rw [Function.update_of_ne other] at called
          exact List.mem_append_left _ (calls d op' called)
      · intro d op' r' done'
        rcases eq_or_ne d c with rfl | other
        · rw [Function.update_self] at done'
          cases done'
        · rw [Function.update_of_ne other] at done'
          exact keep (results d op' r' done')

/-! ## One client alone -/

/-- After the operations that `h` returns, one after the other, the object is in `s`. -/
inductive After (spec : Spec σ Op Ret) : List (Visible C Op Ret) → σ → Prop
  | init : After spec [] spec.init
  | call {h : List (Visible C Op Ret)} {s : σ} {c : C} {op : Op} :
    After spec h s → After spec (h ++ [.call c op]) s
  | ret {h : List (Visible C Op Ret)} {s s' : σ} {c : C} {op : Op} {r : Ret} :
    After spec h s → spec.act s op r s' → After spec (h ++ [.ret c op r]) s'

/-- The state after the operation of a stage, where that has taken effect. -/
def Stage.From (spec : Spec σ Op Ret) (s₀ s : σ) : Stage Op Ret → Prop
  | .idle => s = s₀
  | .called _ => s = s₀
  | .done op r => spec.act s₀ op r s

/-- The client of a call or a return. -/
def Visible.client : Visible C Op Ret → C
  | .call c _ => c
  | .ret c _ _ => c

section After

omit [DecidableEq C]

theorem After.call_iff : After spec (h ++ [.call c op]) s ↔ After spec h s := by
  constructor
  · intro after
    generalize shown : h ++ [Visible.call c op] = h' at after
    cases after with
    | init => simp at shown
    | call before =>
        obtain ⟨rfl, -⟩ := List.append_inj' shown rfl
        exact before
    | ret before acted =>
        obtain ⟨-, bad⟩ := List.append_inj' shown rfl
        cases bad
  · exact .call

theorem After.ret_iff :
    After spec (h ++ [.ret c op r]) s ↔ ∃ s₀, After spec h s₀ ∧ spec.act s₀ op r s := by
  constructor
  · intro after
    generalize shown : h ++ [Visible.ret c op r] = h' at after
    cases after with
    | init => simp at shown
    | call before =>
        obtain ⟨-, bad⟩ := List.append_inj' shown rfl
        cases bad
    | ret before acted =>
        obtain ⟨rfl, same⟩ := List.append_inj' shown rfl
        cases same
        exact ⟨_, before, acted⟩
  · intro ⟨s₀, before, acted⟩
    exact .ret before acted

/-- What was returned was the answer of the object at that point. -/
theorem After.answered {h₁ h₂ : List (Visible C Op Ret)}
    (after : After spec (h₁ ++ .ret c op r :: h₂) s) :
    ∃ s₁ s₂, After spec h₁ s₁ ∧ spec.act s₁ op r s₂ := by
  induction h₂ using List.reverseRecOn generalizing s with
  | nil =>
      obtain ⟨s₁, before, acted⟩ := After.ret_iff.mp after
      exact ⟨s₁, s, before, acted⟩
  | append_singleton h₂ e ih =>
      rw [← List.cons_append, ← List.append_assoc] at after
      cases e with
      | call d op' => exact ih (After.call_iff.mp after)
      | ret d op' r' =>
          obtain ⟨s₀, before, -⟩ := After.ret_iff.mp after
          exact ih before

end After

/-- A client that is alone has its operations carried out one after the other. -/
theorem Atomic.alone (atomic : Atomic spec h s stage) (alone : ∀ e ∈ h, e.client = c) :
    ∃ s₀, After spec h s₀ ∧ (stage c).From spec s₀ s ∧ ∀ d, d ≠ c → stage d = .idle := by
  induction atomic with
  | init => exact ⟨spec.init, .init, rfl, fun _ _ => rfl⟩
  | @call h s stage d op before idle ih =>
      obtain ⟨s₀, after, from₀, others⟩ :=
        ih fun e member => alone e (List.mem_append_left _ member)
      have own : d = c := alone (.call d op) (List.mem_append_right _ List.mem_cons_self)
      subst own
      rw [idle] at from₀
      refine ⟨s₀, after.call, ?_, fun e other => ?_⟩
      · rw [Function.update_self]
        exact from₀
      · rw [Function.update_of_ne other]
        exact others e other
  | @act h s s' stage d op r before called acted ih =>
      obtain ⟨s₀, after, from₀, others⟩ := ih alone
      have own : d = c := by
        by_contra other
        rw [others d other] at called
        cases called
      subst own
      rw [called] at from₀
      refine ⟨s₀, after, ?_, fun e other => ?_⟩
      · rw [Function.update_self]
        change s = s₀ at from₀
        rw [← from₀]
        exact acted
      · rw [Function.update_of_ne other]
        exact others e other
  | @ret h s stage d op r before done ih =>
      obtain ⟨s₀, after, from₀, others⟩ :=
        ih fun e member => alone e (List.mem_append_left _ member)
      have own : d = c := alone (.ret d op r) (List.mem_append_right _ List.mem_cons_self)
      subst own
      rw [done] at from₀
      refine ⟨s, after.ret from₀, ?_, fun e other => ?_⟩
      · rw [Function.update_self]
        rfl
      · rw [Function.update_of_ne other]
        exact others e other

end AtomicObject
