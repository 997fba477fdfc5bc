import RdmaWiki.Lib.LibraryCalls

/-!
Paths that are not at their end.

`p.Leads log q`: when the calls of `log` got their answers, `q` is left of the program `p`. A path
of `q` goes on to one of `p` (`Program.Leads.path`), and a sequence whose first part leads somewhere
leads there with what follows (`Program.Leads.bind`).
-/

namespace LibraryCalls

variable {C : Type} {R : C → Type} {σ α β γ : Type}

inductive Program.Leads :
    Program C R σ α → List (Answered C R) → Program C R σ α → Prop
  | refl (p : Program C R σ α) : Program.Leads p [] p
  | call {c : C} {next : R c → Program C R σ α} {log : List (Answered C R)}
    {q : Program C R σ α} (r : R c) : Program.Leads (next r) log q →
    Program.Leads (.call c next) (⟨c, r⟩ :: log) q

section Leads

variable {p q t : Program C R σ α} {log log' : List (Answered C R)}

theorem Program.Leads.trans (first : p.Leads log q) (second : q.Leads log' t) :
    p.Leads (log ++ log') t := by
  induction first with
  | refl p => exact second
  | call r _ ih => exact .call r (ih second)

/-- What is left of the first part of a sequence, and what follows. -/
theorem Program.Leads.bind (first : p.Leads log q) (f : α → Program C R σ β) :
    (p.bind f).Leads log (q.bind f) := by
  induction first with
  | refl p => exact .refl _
  | call r _ ih => exact .call r ih

theorem Program.Leads.path {out : Except σ α} (first : p.Leads log q) (second : q.Path log' out) :
    p.Path (log ++ log') out := by
  induction first with
  | refl p => exact second
  | call r _ ih => exact .call r (ih second)

/-- A program that has led to its result. -/
theorem Program.Leads.done {a : α} (leads : p.Leads log (.done a)) : p.Path log (.ok a) := by
  have path := leads.path (.done a)
  rwa [List.append_nil] at path

end Leads

theorem Program.bind_assoc (p : Program C R σ α) (f : α → Program C R σ β)
    (g : β → Program C R σ γ) : (p.bind f).bind g = p.bind fun a => (f a).bind g := by
  induction p with
  | done a => rfl
  | stop s => rfl
  | call c next ih => exact congrArg (Program.call c) (funext ih)

end LibraryCalls
