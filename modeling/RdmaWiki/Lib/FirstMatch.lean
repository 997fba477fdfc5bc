import Mathlib.Data.List.Basic
import Mathlib.Logic.Function.Basic

/-!
Keyed lists read and written at their first match.

`find keyOf k l` is the first element of `l` with key `k`, and `update` changes
that element in place. The pair behaves like a finite map from keys to
elements: `find_update` computes one in terms of the other, and
`find_cons_absent` does the same for an insertion at the head.
-/

namespace FirstMatch

variable {κ β : Type} [DecidableEq κ] {keyOf : β → κ}

/-- The first element with key `k`. -/
def find (keyOf : β → κ) (k : κ) : List β → Option β
  | [] => none
  | x :: rest => if keyOf x = k then some x else find keyOf k rest

/-- Change the first element with key `k`. -/
def update (keyOf : β → κ) (k : κ) (change : β → β) : List β → List β
  | [] => []
  | x :: rest =>
    if keyOf x = k then change x :: rest else x :: update keyOf k change rest

theorem key_of_find {k : κ} {x : β} {l : List β}
    (found : find keyOf k l = some x) : keyOf x = k := by
  induction l with
  | nil => cases found
  | cons y rest ih =>
      simp only [find] at found
      split at found
      next same => cases found; exact same
      next => exact ih found

theorem find_update_self {k : κ} {change : β → β} {l : List β}
    (keeps : ∀ x, keyOf (change x) = keyOf x) :
    find keyOf k (update keyOf k change l) = (find keyOf k l).map change := by
  induction l with
  | nil => rfl
  | cons y rest ih =>
      by_cases same : keyOf y = k
      · simp [find, update, same, keeps]
      · simp [find, update, same, ih]

theorem find_update_ne {k k' : κ} {change : β → β} {l : List β}
    (keeps : ∀ x, keyOf (change x) = keyOf x) (ne : k' ≠ k) :
    find keyOf k' (update keyOf k change l) = find keyOf k' l := by
  induction l with
  | nil => rfl
  | cons y rest ih =>
      by_cases same : keyOf y = k
      · have other : ¬ keyOf y = k' := fun eq => ne (eq.symm.trans same)
        have other' : ¬ k = k' := fun eq => ne eq.symm
        simp [find, update, same, keeps, other']
      · simp [find, update, same, ih]

/-- An update of a present key is a point update of the lookup function. -/
theorem find_update {k : κ} {change : β → β} {l : List β} {x : β}
    (keeps : ∀ x, keyOf (change x) = keyOf x) (found : find keyOf k l = some x) :
    (fun k' => find keyOf k' (update keyOf k change l)) =
      Function.update (fun k' => find keyOf k' l) k (some (change x)) := by
  funext k'
  by_cases same : k' = k
  · subst same
    simp [find_update_self keeps, found]
  · simp [Function.update_of_ne same, find_update_ne keeps same]

/-- An insertion at the head is a point update of the lookup function. -/
theorem find_cons {k : κ} {l : List β} {x : β} (keyed : keyOf x = k) :
    (fun k' => find keyOf k' (x :: l)) =
      Function.update (fun k' => find keyOf k' l) k (some x) := by
  funext k'
  by_cases same : k' = k
  · subst same
    simp [find, keyed]
  · have other : ¬ keyOf x = k' := fun eq => same (eq.symm.trans keyed)
    simp [find, other, Function.update_of_ne same]

/-! ## Lists without repeated keys -/

theorem mem_of_find {k : κ} {x : β} {l : List β} (found : find keyOf k l = some x) : x ∈ l := by
  induction l with
  | nil => cases found
  | cons y rest ih =>
      simp only [find] at found
      split at found
      next => cases found; exact List.mem_cons_self
      next => exact List.mem_cons_of_mem y (ih found)

theorem find_none_iff {k : κ} {l : List β} : find keyOf k l = none ↔ k ∉ l.map keyOf := by
  induction l with
  | nil => simp [find]
  | cons y rest ih =>
      by_cases same : keyOf y = k
      · simp [find, same]
      · have other : k ≠ keyOf y := fun eq => same eq.symm
        simp only [find, same, if_false, List.map_cons, List.mem_cons, other, false_or]
        exact ih

/-- Where no key is repeated, every element is the first match of its own key. -/
theorem find_of_mem {x : β} {l : List β} (distinct : (l.map keyOf).Nodup) (member : x ∈ l) :
    find keyOf (keyOf x) l = some x := by
  induction l with
  | nil => cases member
  | cons y rest ih =>
      rw [List.map_cons, List.nodup_cons] at distinct
      rcases List.mem_cons.mp member with rfl | later
      · simp [find]
      · have other : keyOf y ≠ keyOf x := by
          intro same
          rw [same] at distinct
          exact distinct.1 (List.mem_map_of_mem later)
        simp only [find, other, if_false]
        exact ih distinct.2 later

/-- An update keeps the keys and their order. -/
theorem map_update {k : κ} {change : β → β} {l : List β}
    (keeps : ∀ x, keyOf (change x) = keyOf x) :
    (update keyOf k change l).map keyOf = l.map keyOf := by
  induction l with
  | nil => rfl
  | cons y rest ih =>
      simp only [update]
      split
      next => simp [keeps]
      next => simp [ih]

omit [DecidableEq κ] in
/-- A property of the elements of at most one key is met at most once. -/
theorem countP_le_one {p : β → Bool} {l : List β} (distinct : (l.map keyOf).Nodup)
    (one : ∀ x ∈ l, ∀ y ∈ l, p x = true → p y = true → keyOf x = keyOf y) :
    l.countP p ≤ 1 := by
  induction l with
  | nil => simp
  | cons x rest ih =>
      rw [List.map_cons, List.nodup_cons] at distinct
      have later := ih distinct.2 fun y memberY z memberZ =>
        one y (List.mem_cons_of_mem x memberY) z (List.mem_cons_of_mem x memberZ)
      rw [List.countP_cons]
      split
      next holds =>
        have nobody : rest.countP p = 0 := by
          rw [List.countP_eq_zero]
          intro y member holds'
          apply distinct.1
          rw [one x List.mem_cons_self y (List.mem_cons_of_mem x member) holds holds']
          exact List.mem_map_of_mem member
        omega
      next => omega

/-- An update exchanges one element for its change. -/
theorem countP_update {k : κ} {change : β → β} {l : List β} {x : β} (p : β → Bool)
    (found : find keyOf k l = some x) :
    (update keyOf k change l).countP p + (if p x = true then 1 else 0) =
      l.countP p + (if p (change x) = true then 1 else 0) := by
  induction l with
  | nil => cases found
  | cons y rest ih =>
      simp only [find] at found
      simp only [update]
      split at found
      next same =>
        cases found
        rw [if_pos same, List.countP_cons, List.countP_cons]
        omega
      next other =>
        have later := ih found
        rw [if_neg other, List.countP_cons, List.countP_cons]
        omega

/-! ## Two lists side by side -/

section Pairs

variable {γ : Type} {keyOf' : γ → κ} {R : β → γ → Prop} {l : List β} {l' : List γ}

/-- Lists whose elements are related find related elements. -/
theorem find_rel (keys : ∀ x y, R x y → keyOf x = keyOf' y) (related : List.Forall₂ R l l')
    (k : κ) : Option.Rel R (find keyOf k l) (find keyOf' k l') := by
  induction related with
  | nil => exact .none
  | @cons x y rest rest' near later ih =>
      simp only [find, keys x y near]
      split
      next => exact .some near
      next => exact ih

theorem update_rel {change : β → β} {change' : γ → γ} (keys : ∀ x y, R x y → keyOf x = keyOf' y)
    (kept : ∀ x y, R x y → R (change x) (change' y)) (related : List.Forall₂ R l l') (k : κ) :
    List.Forall₂ R (update keyOf k change l) (update keyOf' k change' l') := by
  induction related with
  | nil => exact .nil
  | @cons x y rest rest' near later ih =>
      simp only [update, keys x y near]
      split
      next => exact .cons (kept x y near) later
      next => exact .cons near ih

end Pairs

end FirstMatch
