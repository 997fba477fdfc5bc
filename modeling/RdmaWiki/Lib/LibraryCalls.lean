import Mathlib.Data.List.Basic

/-!
Programs that call a library, and what they make of its answers.

A program is a tree: it is done, it stops without a result, or it makes a call and goes on
with the answer. What the library answers is left open, so that the paths of the tree are
the runs of the program under every behaviour of the library. A path shows the calls that
were made with their answers, in order. `Program.Calls allowed` says which calls there are in
the tree.

Two things are said of all paths. `Program.Propagates caught failure`: the program ends in a
failure exactly if one of the answers is caught, the rule for code that returns as soon as
it notices an error. `Program.Ensures fine Q`: on paths whose answers are all fine, `Q`
holds of the log and the outcome. Both have one rule for each form of a program.
-/

namespace LibraryCalls

/-- A program over calls `C` with answers `R`, which gives a result of type `α` or stops for
a reason of type `σ`. -/
inductive Program (C : Type) (R : C → Type) (σ α : Type)
  | done (a : α)
  | stop (s : σ)
  | call (c : C) (next : R c → Program C R σ α)

/-- A call with its answer. -/
abbrev Answered (C : Type) (R : C → Type) := (c : C) × R c

variable {C : Type} {R : C → Type} {σ α β : Type}

def Program.bind : Program C R σ α → (α → Program C R σ β) → Program C R σ β
  | .done a, f => f a
  | .stop s, _ => .stop s
  | .call c next, f => .call c fun r => (next r).bind f

instance : Monad (Program C R σ) where
  pure := .done
  bind := .bind

/-- The program that makes one call and gives its answer. -/
def Program.invoke (c : C) : Program C R σ (R c) := .call c .done

/-- `p.Path log out`: with some answers `p` makes the calls of `log` and ends with `out`. -/
inductive Program.Path :
    Program C R σ α → List (Answered C R) → Except σ α → Prop
  | done (a : α) : Program.Path (.done a) [] (.ok a)
  | stop (s : σ) : Program.Path (.stop s) [] (.error s)
  | call {c : C} {next : R c → Program C R σ α} {log : List (Answered C R)}
    {out : Except σ α} (r : R c) : Program.Path (next r) log out →
    Program.Path (.call c next) (⟨c, r⟩ :: log) out

/-- The outcome of a program whose calls get the answers of `log`, if it makes these calls
and no others. -/
def Program.replay [DecidableEq C] : Program C R σ α → List (Answered C R) →
    Option (Except σ α)
  | .done a, [] => some (.ok a)
  | .stop s, [] => some (.error s)
  | .call c next, ⟨c', r⟩ :: log =>
    if same : c' = c then (next (same ▸ r)).replay log else none
  | _, _ => none

section Paths

variable {p : Program C R σ α} {f : α → Program C R σ β} {log : List (Answered C R)}

theorem Program.path_of_replay [DecidableEq C] {out : Except σ α}
    (replayed : p.replay log = some out) : p.Path log out := by
  induction p generalizing log with
  | done a =>
      cases log with
      | nil =>
          cases replayed
          exact .done a
      | cons => cases replayed
  | stop s =>
      cases log with
      | nil =>
          cases replayed
          exact .stop s
      | cons => cases replayed
  | call c next ih =>
      cases log with
      | nil => cases replayed
      | cons first rest =>
          obtain ⟨c', r⟩ := first
          simp only [Program.replay] at replayed
          split at replayed
          next same =>
            subst same
            exact .call r (ih r replayed)
          next => cases replayed

theorem Program.bind_done (p : Program C R σ α) : p.bind .done = p := by
  induction p with
  | done a => rfl
  | stop s => rfl
  | call c next ih => exact congrArg (Program.call c) (funext ih)

/-- A path of the first part goes on with a path of the second. -/
theorem Program.Path.bind {a : α} {log' : List (Answered C R)} {out : Except σ β}
    (first : p.Path log (.ok a)) (second : (f a).Path log' out) :
    (p.bind f).Path (log ++ log') out := by
  induction p generalizing log with
  | done a =>
      cases first
      exact second
  | stop s => cases first
  | call c next ih =>
      cases first with
      | call r rest => exact .call r (ih r rest)

/-- A path through a sequence ends in its first part, or passes from the first part to the
second. -/
theorem Program.path_bind {out : Except σ β} (path : (p.bind f).Path log out) :
    (∃ s, out = .error s ∧ p.Path log (.error s)) ∨
      ∃ a before after, log = before ++ after ∧ p.Path before (.ok a) ∧
        (f a).Path after out := by
  induction p generalizing log with
  | done a => exact .inr ⟨a, [], log, rfl, .done a, path⟩
  | stop s =>
      cases path
      exact .inl ⟨s, rfl, .stop s⟩
  | call c next ih =>
      cases path with
      | call r rest =>
          rcases ih r rest with ⟨s, rfl, first⟩ | ⟨a, before, after, rfl, first, second⟩
          · exact .inl ⟨s, rfl, .call r first⟩
          · exact .inr ⟨a, _, after, rfl, .call r first, second⟩

/-- What holds of the log of every path, part by part. -/
theorem Program.log_bind {K K₁ K₂ : List (Answered C R) → Prop}
    (first : ∀ log out, p.Path log out → K₁ log)
    (second : ∀ a log out, (f a).Path log out → K₂ log) (ends : ∀ log, K₁ log → K log)
    (append : ∀ log log', K₁ log → K₂ log' → K (log ++ log')) (log : List (Answered C R))
    (out : Except σ β) (path : (p.bind f).Path log out) : K log := by
  rcases path_bind path with ⟨s, -, stops⟩ | ⟨a, before, after, rfl, passes, rest⟩
  · exact ends log (first log _ stops)
  · exact append before after (first before _ passes) (second a after out rest)

end Paths

/-! ## The calls of a program -/

/-- Every call in the tree is allowed. -/
def Program.Calls (allowed : C → Prop) : Program C R σ α → Prop
  | .done _ => True
  | .stop _ => True
  | .call c next => allowed c ∧ ∀ r, (next r).Calls allowed

section Calls

variable {allowed allowed' : C → Prop} {p : Program C R σ α} {f : α → Program C R σ β}

theorem Program.Calls.bind (first : p.Calls allowed) (second : ∀ a, (f a).Calls allowed) :
    (p.bind f).Calls allowed := by
  induction p with
  | done a => exact second a
  | stop s => exact True.intro
  | call c next ih => exact ⟨first.1, fun r => ih r (first.2 r)⟩

theorem Program.Calls.mono (calls : p.Calls allowed) (more : ∀ c, allowed c → allowed' c) :
    p.Calls allowed' := by
  induction p with
  | done a => exact True.intro
  | stop s => exact True.intro
  | call c next ih => exact ⟨more c calls.1, fun r => ih r (calls.2 r)⟩

/-- The log of a path shows calls of the tree. -/
theorem Program.Calls.of_path {log : List (Answered C R)} {out : Except σ α}
    (calls : p.Calls allowed) (path : p.Path log out) : ∀ e ∈ log, allowed e.1 := by
  induction path with
  | done a => exact fun e none => absurd none List.not_mem_nil
  | stop s => exact fun e none => absurd none List.not_mem_nil
  | call r rest ih => exact List.forall_mem_cons.mpr ⟨calls.1, ih (calls.2 r)⟩

end Calls

/-! ## Failures that are caught -/

/-- The program ends in a failure exactly if some answer is caught. -/
def Program.Propagates (caught : Answered C R → Prop) (failure : α → Prop)
    (p : Program C R σ α) : Prop :=
  ∀ log out, p.Path log out → ((∃ e ∈ log, caught e) ↔ ∃ a, out = .ok a ∧ failure a)

section Propagates

variable {caught : Answered C R → Prop} {failure : α → Prop}

theorem Program.propagates_done {a : α} (fine : ¬ failure a) :
    (Program.done a : Program C R σ α).Propagates caught failure := by
  intro log out path
  cases path
  apply iff_of_false
  · rintro ⟨e, none, -⟩
    exact List.not_mem_nil none
  · rintro ⟨a', same, failed⟩
    cases same
    exact fine failed

theorem Program.propagates_stop (s : σ) :
    (Program.stop s : Program C R σ α).Propagates caught failure := by
  intro log out path
  cases path
  apply iff_of_false
  · rintro ⟨e, none, -⟩
    exact List.not_mem_nil none
  · rintro ⟨a, same, -⟩
    cases same

theorem Program.propagates_invoke {c : C} {failed : R c → Prop}
    (tests : ∀ r, caught ⟨c, r⟩ ↔ failed r) :
    (Program.invoke c : Program C R σ (R c)).Propagates caught failed := by
  intro log out path
  cases path with
  | call r rest =>
      cases rest
      constructor
      · rintro ⟨e, member, found⟩
        rw [List.mem_singleton.mp member] at found
        exact ⟨r, rfl, (tests r).mp found⟩
      · rintro ⟨r', same, found⟩
        cases same
        exact ⟨_, List.mem_singleton_self _, (tests _).mpr found⟩

/-- The rule for a sequence: a failure of the first part is returned at once, and after any
other result the second part catches what it meets. -/
theorem Program.Propagates.bind {failed : β → Prop} {p : Program C R σ β}
    {f : β → Program C R σ α} (first : p.Propagates caught failed)
    (returns : ∀ b, failed b → ∃ a, f b = .done a ∧ failure a)
    (second : ∀ b, ¬ failed b → (f b).Propagates caught failure) :
    (p.bind f).Propagates caught failure := by
  intro log out path
  rcases p.path_bind path with ⟨s, rfl, ends⟩ | ⟨b, before, after, rfl, passes, rest⟩
  · rw [first log _ ends]
    apply iff_of_false <;>
    · rintro ⟨a, same, -⟩
      cases same
  · have passed := first before _ passes
    by_cases bad : failed b
    · obtain ⟨a, stops, failing⟩ := returns b bad
      obtain ⟨e, member, found⟩ := passed.mpr ⟨b, rfl, bad⟩
      rw [stops] at rest
      cases rest
      exact iff_of_true ⟨e, List.mem_append_left _ member, found⟩ ⟨a, rfl, failing⟩
    · rw [← second b bad after out rest]
      constructor
      · rintro ⟨e, member, found⟩
        rcases List.mem_append.mp member with earlier | later
        · obtain ⟨b', same, failing⟩ := passed.mp ⟨e, earlier, found⟩
          cases same
          exact absurd failing bad
        · exact ⟨e, later, found⟩
      · rintro ⟨e, member, found⟩
        exact ⟨e, List.mem_append_right _ member, found⟩

/-- A failure is returned as soon as it is seen. -/
theorem Program.Propagates.check {failed : β → Prop} [DecidablePred failed]
    {p : Program C R σ β} {q : β → Program C R σ α} {a : α} (first : p.Propagates caught failed)
    (failing : failure a) (second : ∀ b, ¬ failed b → (q b).Propagates caught failure) :
    (p.bind fun b => if failed b then .done a else q b).Propagates caught failure := by
  apply first.bind
  · intro b bad
    exact ⟨a, if_pos bad, failing⟩
  · intro b fine
    rw [if_neg fine]
    exact second b fine

/-- The first part catches nothing. -/
theorem Program.Propagates.bind_quiet {p : Program C R σ β} {f : β → Program C R σ α}
    (first : p.Propagates caught fun _ => False)
    (second : ∀ b, (f b).Propagates caught failure) : (p.bind f).Propagates caught failure :=
  first.bind (fun _ bad => bad.elim) fun b _ => second b

end Propagates

/-! ## Paths without failures -/

/-- On every path whose answers are all fine, `Q` holds of the log and the outcome. -/
def Program.Ensures (fine : Answered C R → Prop) (p : Program C R σ α)
    (Q : List (Answered C R) → Except σ α → Prop) : Prop :=
  ∀ log out, p.Path log out → (∀ e ∈ log, fine e) → Q log out

section Ensures

variable {fine : Answered C R → Prop} {Q : List (Answered C R) → Except σ α → Prop}

theorem Program.ensures_done {a : α} (holds : Q [] (.ok a)) :
    (Program.done a).Ensures fine Q := by
  intro log out path _
  cases path
  exact holds

theorem Program.ensures_stop {s : σ} (holds : Q [] (.error s)) :
    (Program.stop s).Ensures fine Q := by
  intro log out path _
  cases path
  exact holds

theorem Program.ensures_invoke {c : C} {Q : List (Answered C R) → Except σ (R c) → Prop}
    (holds : ∀ r, fine ⟨c, r⟩ → Q [⟨c, r⟩] (.ok r)) : (Program.invoke c).Ensures fine Q := by
  intro log out path good
  cases path with
  | call r rest =>
      cases rest
      exact holds r (good _ List.mem_cons_self)

theorem Program.ensures_call {c : C} {next : R c → Program C R σ α}
    (holds : ∀ r, fine ⟨c, r⟩ → (next r).Ensures fine fun log out => Q (⟨c, r⟩ :: log) out) :
    (Program.call c next).Ensures fine Q := by
  intro log out path good
  cases path with
  | call r rest =>
      apply holds r (good _ List.mem_cons_self) _ _ rest
      exact fun e member => good e (List.mem_cons_of_mem _ member)

theorem Program.Ensures.mono {Q' : List (Answered C R) → Except σ α → Prop}
    {p : Program C R σ α} (ensures : p.Ensures fine Q)
    (weaker : ∀ log out, Q log out → Q' log out) : p.Ensures fine Q' :=
  fun log out path good => weaker log out (ensures log out path good)

theorem Program.Ensures.weaken {fine' : Answered C R → Prop} {p : Program C R σ α}
    (ensures : p.Ensures fine' Q) (more : ∀ e, fine e → fine' e) : p.Ensures fine Q :=
  fun log out path good => ensures log out path fun e member => more e (good e member)

/-- The rule for a sequence. -/
theorem Program.Ensures.bind {p : Program C R σ β} {f : β → Program C R σ α}
    {Q' : List (Answered C R) → Except σ β → Prop} (first : p.Ensures fine Q')
    (ends : ∀ log s, Q' log (.error s) → Q log (.error s))
    (second : ∀ log b, Q' log (.ok b) →
      (f b).Ensures fine fun log' out => Q (log ++ log') out) : (p.bind f).Ensures fine Q := by
  intro log out path good
  rcases p.path_bind path with ⟨s, rfl, stops⟩ | ⟨b, before, after, rfl, passes, rest⟩
  · exact ends log s (first log _ stops good)
  · have earlier := first before _ passes fun e member =>
      good e (List.mem_append_left _ member)
    exact second before b earlier after out rest fun e member =>
      good e (List.mem_append_right _ member)

end Ensures

end LibraryCalls
