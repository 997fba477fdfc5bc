import Mathlib.Data.Finset.Insert
import Mathlib.Data.Finset.Erase
import RdmaWiki.Lib.LibraryCalls

/-!
What a program holds.

A ledger says which resources are held. An entry acquires one that is free, releases one that is
held, or uses some. A resource can be acquired only where everything that it needs is held, and
released only where nothing that is held needs it; any other entry is a fault.

`Balances` says that a program makes no fault, whatever the answers to its calls, and that a
postcondition relates its outcome and what it then holds. `Balances.of_path` says it of a path of
the program and the ledger that its log gives.
-/

namespace Ledger

open LibraryCalls

variable {K : Type} [DecidableEq K]

inductive Entry (K : Type)
  | acquire (k : K)
  | release (k : K)
  | use (ks : List K)

/-- What is held after an entry, if it is no fault. -/
def Entry.post (needs : K → List K) (held : Finset K) : Entry K → Option (Finset K)
  | .acquire k => if k ∉ held ∧ ∀ n ∈ needs k, n ∈ held then some (insert k held) else none
  | .release k => if k ∈ held ∧ ∀ d ∈ held, k ∉ needs d then some (held.erase k) else none
  | .use ks => if ∀ k ∈ ks, k ∈ held then some held else none

variable {C : Type} {R : C → Type} {σ α β : Type}

/-- From `held` on the program makes no fault, and ends with `post`. -/
def Balances (needs : K → List K) (entry : Answered C R → Entry K)
    (post : Except σ α → Finset K → Prop) : Program C R σ α → Finset K → Prop
  | .done a, held => post (.ok a) held
  | .stop s, held => post (.error s) held
  | .call c next, held => ∀ r, ∃ held', (entry ⟨c, r⟩).post needs held = some held' ∧
    Balances needs entry post (next r) held'

section Balances

variable {needs : K → List K} {entry : Answered C R → Entry K}
  {post : Except σ α → Finset K → Prop} {p : Program C R σ α} {held : Finset K}

/-- What is held after the calls of a log, if none of them is a fault. -/
def balance (needs : K → List K) (entry : Answered C R → Entry K) (held : Finset K) :
    List (Answered C R) → Option (Finset K)
  | [] => some held
  | e :: log => ((entry e).post needs held).bind fun held => balance needs entry held log

/-- The ledger along a path. -/
theorem Balances.of_path (balances : Balances needs entry post p held)
    {log : List (Answered C R)} {out : Except σ α} (path : p.Path log out) :
    ∃ held', balance needs entry held log = some held' ∧ post out held' := by
  induction path generalizing held with
  | done a => exact ⟨held, rfl, balances⟩
  | stop s => exact ⟨held, rfl, balances⟩
  | call r rest ih =>
      obtain ⟨after, posted, balances⟩ := balances r
      obtain ⟨last, balanced, holds⟩ := ih balances
      exact ⟨last, by rw [balance, posted]; exact balanced, holds⟩

/-- What is not acquired again stays away. -/
theorem not_mem_of_balance {k : K} {log : List (Answered C R)} {held' : Finset K}
    (never : ∀ e ∈ log, entry e ≠ .acquire k) (away : k ∉ held)
    (balanced : balance needs entry held log = some held') : k ∉ held' := by
  induction log generalizing held with
  | nil =>
      obtain rfl := Option.some.inj balanced
      exact away
  | cons e log ih =>
      obtain ⟨after, posted, rest⟩ := Option.bind_eq_some_iff.mp balanced
      obtain ⟨first, others⟩ := List.forall_mem_cons.mp never
      refine ih others ?_ rest
      cases same : entry e with
      | acquire d =>
          rw [same] at posted first
          obtain ⟨-, eq⟩ := Option.ite_none_right_eq_some.mp posted
          obtain rfl := Option.some.inj eq
          rw [Finset.mem_insert]
          rintro (rfl | old)
          · exact first rfl
          · exact away old
      | release d =>
          rw [same] at posted
          obtain ⟨-, eq⟩ := Option.ite_none_right_eq_some.mp posted
          obtain rfl := Option.some.inj eq
          exact fun member => away (Finset.mem_of_mem_erase member)
      | use ks =>
          rw [same] at posted
          obtain ⟨-, eq⟩ := Option.ite_none_right_eq_some.mp posted
          obtain rfl := Option.some.inj eq
          exact away

theorem Balances.mono {post' : Except σ α → Finset K → Prop}
    (balances : Balances needs entry post p held)
    (weaker : ∀ out held, post out held → post' out held) :
    Balances needs entry post' p held := by
  induction p generalizing held with
  | done a => exact weaker _ _ balances
  | stop s => exact weaker _ _ balances
  | call c next ih =>
      intro r
      obtain ⟨after, posted, rest⟩ := balances r
      exact ⟨after, posted, ih r rest⟩

/-- The rule for a sequence. -/
theorem Balances.bind {f : α → Program C R σ β} {post' : Except σ β → Finset K → Prop}
    (first : Balances needs entry post p held)
    (ends : ∀ s held, post (.error s) held → post' (.error s) held)
    (second : ∀ a held, post (.ok a) held → Balances needs entry post' (f a) held) :
    Balances needs entry post' (p.bind f) held := by
  induction p generalizing held with
  | done a => exact second a held first
  | stop s => exact ends s held first
  | call c next ih =>
      intro r
      obtain ⟨after, posted, rest⟩ := first r
      exact ⟨after, posted, ih r rest⟩

end Balances

end Ledger
