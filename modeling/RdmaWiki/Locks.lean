import Mathlib.Data.Finset.Card
import Mathlib.Data.Fintype.Card
import Mathlib.Data.List.FinRange
import Mathlib.Tactic.Common

/-!
The lock discipline of the store, without messages and values.

Each client is somewhere in a set or a get of one key, or outside (`Pos`), and
each record has its lock flag and its reader count. `Locks.Step` says how a
request of one client changes positions and records. The type of keys is
arbitrary.

The facts about all runs are the presence of the records that clients rely on,
and the account of the reader count: it is the number of clients that read,
plus every get that was granted after waiting. With two clients, or while no
set is granted to a waiting client too early, at most one client is inside a
set of a key and the flag says whether there is one.
-/

namespace RdmaWiki

/-- Where a client is with respect to the locks. -/
inductive Pos (K : Type)
  | out
  /-- `as` not handled -/
  | askSet (k : K)
  /-- `as` deferred -/
  | waitSet (k : K)
  /-- set granted, `se` or `fs` not handled -/
  | inSet (k : K)
  /-- `ag` not handled -/
  | askGet (k : K)
  /-- `ag` deferred -/
  | waitGet (k : K)
  /-- get granted, `g0` not handled -/
  | granted (k : K)
  /-- `g0` of a large value handled, `fg` not handled -/
  | reading (k : K)
  /-- `g0` of an absent key handled -/
  | lost (k : K)
deriving DecidableEq

/-- The key that a position is about. -/
def Pos.key {K : Type} : Pos K → Option K
  | .out => none
  | .askSet k => some k
  | .waitSet k => some k
  | .inSet k => some k
  | .askGet k => some k
  | .waitGet k => some k
  | .granted k => some k
  | .reading k => some k
  | .lost k => some k

/-- The lock fields of a record. -/
structure Lock where
  isSet : Bool
  numInGet : Int
deriving DecidableEq

/-- Positions, records, and for each key the number of gets that were granted to
a waiting client so far. -/
@[ext] structure Locks (N : ℕ) (K : Type) where
  pos : Fin N → Pos K
  lock : K → Option Lock
  woken : K → ℕ

/-- The kinds of requests that move a client. -/
inductive Ask (K : Type)
  | quiet
  | setAsk (k : K)
  | store (k : K)
  | setFin (k : K)
  | getAsk (k : K)
  /-- `g0` of an absent key or a large value -/
  | get (k : K)
  /-- `g0` of a small value -/
  | getEager (k : K)
  | getFin (k : K)
deriving DecidableEq

namespace Locks

variable {N : ℕ} {K : Type}

/-- Client `c` moves to `p`. -/
def move (s : Locks N K) (c : Fin N) (p : Pos K) : Locks N K :=
  { s with pos := Function.update s.pos c p }

@[simp] theorem move_pos_self {s : Locks N K} {c : Fin N} {p : Pos K} : (s.move c p).pos c = p := Function.update_self ..

theorem move_pos_of_ne {s : Locks N K} {c d : Fin N} {p : Pos K} (other : d ≠ c) : (s.move c p).pos d = s.pos d :=
  Function.update_of_ne other ..

/-- A move between two other places does not change who is at `q`. -/
theorem move_pos_iff {s : Locks N K} {c d : Fin N} {p q : Pos K} (before : s.pos c ≠ q)
    (after : p ≠ q) : (s.move c p).pos d = q ↔ s.pos d = q := by
  rcases eq_or_ne d c with rfl | other
  · simp [before, after]
  · rw [move_pos_of_ne other]

theorem move_self {s : Locks N K} {c : Fin N} {p : Pos K} (stays : s.pos c = p) :
    s.move c p = s := by
  rw [move, ← stays, Function.update_eq_self]

@[simp] theorem move_lock {s : Locks N K} {c : Fin N} {p : Pos K} : (s.move c p).lock = s.lock := rfl

@[simp] theorem move_woken {s : Locks N K} {c : Fin N} {p : Pos K} : (s.move c p).woken = s.woken := rfl

variable [DecidableEq K]

def setters (s : Locks N K) (k : K) : List (Fin N) :=
  (List.finRange N).filter fun d => s.pos d = .waitSet k

def getters (s : Locks N K) (k : K) : List (Fin N) :=
  (List.finRange N).filter fun d => s.pos d = .waitGet k

/-- The clients that read the key. -/
def readers (s : Locks N K) (k : K) : Finset (Fin N) :=
  Finset.univ.filter fun d => s.pos d = .reading k

def setLock (s : Locks N K) (k : K) (l : Lock) : Locks N K :=
  { s with lock := Function.update s.lock k (some l) }

/-- The clients waiting for the key are served, its record being `l`: the first
setter is granted and the others refused, or else every getter is granted. -/
def wake (s : Locks N K) (k : K) (l : Lock) : Locks N K :=
  match s.setters k with
  | [] =>
    { pos := fun d => if s.pos d = .waitGet k then .granted k else s.pos d
      lock := Function.update s.lock k
        (some { l with numInGet := l.numInGet + (s.getters k).length })
      woken := Function.update s.woken k (s.woken k + (s.getters k).length) }
  | first :: _ =>
    { s with
      pos := fun d =>
        if d = first then .inSet k else if s.pos d = .waitSet k then .out else s.pos d
      lock := Function.update s.lock k (some { l with isSet := true }) }

/-- The request with which `c` leaves a key, and the record with which the waiting
clients are then served. -/
inductive Leaves (c : Fin N) (s : Locks N K) : Ask K → K → Lock → Prop
  | setFin {k : K} {l : Lock} (inside : s.pos c = .inSet k) (found : s.lock k = some l) :
    Leaves c s (.setFin k) k { l with isSet := false }
  | getEager {k : K} {l : Lock} (entered : s.pos c = .granted k) (found : s.lock k = some l) :
    Leaves c s (.getEager k) k l
  | getFin {k : K} {l : Lock} (reads : s.pos c = .reading k) (found : s.lock k = some l) :
    Leaves c s (.getFin k) k { l with numInGet := l.numInGet - 1 }

/-- One step of client `c`, by the request that is handled. -/
inductive Step (c : Fin N) : Ask K → Locks N K → Locks N K → Prop
  | stay {s : Locks N K} : Step c .quiet s s
  | ask {s : Locks N K} {p : Pos K} (outside : s.pos c = .out)
      (asks : ∃ k, p = .askSet k ∨ p = .askGet k) : Step c .quiet s (s.move c p)
  | grantSet {s : Locks N K} {k : K} (asked : s.pos c = .askSet k)
      (free : ∀ l, s.lock k = some l → l = ⟨false, 0⟩) :
      Step c (.setAsk k) s ((s.move c (.inSet k)).setLock k ⟨true, 0⟩)
  | deferSet {s : Locks N K} {k : K} {l : Lock} (asked : s.pos c = .askSet k)
      (found : s.lock k = some l) (busy : l ≠ ⟨false, 0⟩) :
      Step c (.setAsk k) s (s.move c (.waitSet k))
  | store {s : Locks N K} {k : K} {l : Lock} (inside : s.pos c = .inSet k)
      (found : s.lock k = some l) :
      Step c (.store k) s (s.setLock k { l with isSet := true })
  | grantGet {s : Locks N K} {k : K} (asked : s.pos c = .askGet k)
      (unlocked : ∀ l, s.lock k = some l → l.isSet = false) :
      Step c (.getAsk k) s (s.move c (.granted k))
  | deferGet {s : Locks N K} {k : K} {l : Lock} (asked : s.pos c = .askGet k)
      (found : s.lock k = some l) (locked : l.isSet = true) :
      Step c (.getAsk k) s (s.move c (.waitGet k))
  | lose {s : Locks N K} {k : K} (entered : s.pos c = .granted k)
      (absent : s.lock k = none) : Step c (.get k) s (s.move c (.lost k))
  | getLarge {s : Locks N K} {k : K} {l : Lock} (entered : s.pos c = .granted k)
      (found : s.lock k = some l) :
      Step c (.get k) s
        ((s.move c (.reading k)).setLock k { l with numInGet := l.numInGet + 1 })
  | finish {s : Locks N K} {a : Ask K} {k : K} {l : Lock} (leaves : Leaves c s a k l) :
      Step c a s ((s.move c .out).wake k l)

/-! ## The parts of a step -/

section Parts

variable {s : Locks N K} {c d : Fin N} {k k' : K} {p : Pos K} {l : Lock}

@[simp] theorem setLock_pos : (s.setLock k l).pos = s.pos := rfl

@[simp] theorem setLock_woken : (s.setLock k l).woken = s.woken := rfl

@[simp] theorem setLock_lock_self : (s.setLock k l).lock k = some l :=
  Function.update_self ..

theorem setLock_lock_of_ne (other : k' ≠ k) : (s.setLock k l).lock k' = s.lock k' :=
  Function.update_of_ne other ..

theorem setLock_self (found : s.lock k = some l) : s.setLock k l = s := by
  rw [setLock, ← found, Function.update_eq_self]

theorem mem_setters : d ∈ s.setters k ↔ s.pos d = .waitSet k := by simp [setters]

theorem mem_getters : d ∈ s.getters k ↔ s.pos d = .waitGet k := by simp [getters]

theorem mem_readers : d ∈ s.readers k ↔ s.pos d = .reading k := by simp [readers]

theorem wake_quiet (nobody : s.setters k = []) :
    s.wake k l =
      { pos := fun d => if s.pos d = .waitGet k then .granted k else s.pos d
        lock := Function.update s.lock k
          (some { l with numInGet := l.numInGet + (s.getters k).length })
        woken := Function.update s.woken k (s.woken k + (s.getters k).length) } := by
  rw [wake, nobody]

theorem wake_setter {first : Fin N} {rest : List (Fin N)}
    (someone : s.setters k = first :: rest) :
    s.wake k l =
      { s with
        pos := fun d =>
          if d = first then .inSet k else if s.pos d = .waitSet k then .out else s.pos d
        lock := Function.update s.lock k (some { l with isSet := true }) } := by
  rw [wake, someone]

/-- Serving the waiting clients moves nobody else. -/
theorem wake_pos_of_not_waiting (noSetter : s.pos d ≠ .waitSet k)
    (noGetter : s.pos d ≠ .waitGet k) : (s.wake k l).pos d = s.pos d := by
  cases waiting : s.setters k with
  | nil =>
      rw [wake_quiet waiting]
      exact if_neg noGetter
  | cons first rest =>
      have notFirst : d ≠ first := by
        intro same
        subst same
        exact noSetter (mem_setters.mp (waiting ▸ List.mem_cons_self))
      rw [wake_setter waiting]
      simp only [if_neg notFirst, if_neg noSetter]

/-- A client whose position changes was waiting: a getter is granted when no
setter waits, a setter is granted when it is the first and refused otherwise. -/
theorem wake_pos_cases (s : Locks N K) (k : K) (l : Lock) (d : Fin N) :
    (s.wake k l).pos d = s.pos d ∨
      (s.pos d = .waitGet k ∧ s.setters k = [] ∧ (s.wake k l).pos d = .granted k) ∨
      (s.pos d = .waitSet k ∧ (s.setters k).head? = some d ∧
        (s.wake k l).pos d = .inSet k) ∨
      (s.pos d = .waitSet k ∧ (s.setters k).head? ≠ some d ∧ (s.wake k l).pos d = .out) := by
  cases waiting : s.setters k with
  | nil =>
      rw [wake_quiet waiting]
      by_cases getter : s.pos d = .waitGet k
      · exact .inr (.inl ⟨getter, rfl, if_pos getter⟩)
      · exact .inl (if_neg getter)
  | cons first rest =>
      rw [wake_setter waiting]
      by_cases isFirst : d = first
      · subst isFirst
        have waits : s.pos d = .waitSet k := mem_setters.mp (waiting ▸ List.mem_cons_self)
        exact .inr (.inr (.inl ⟨waits, rfl, if_pos rfl⟩))
      · by_cases setter : s.pos d = .waitSet k
        · refine .inr (.inr (.inr ⟨setter, ?_, ?_⟩))
          · simpa using fun same => isFirst same.symm
          · simp only [if_neg isFirst, if_pos setter]
        · left
          simp only [if_neg isFirst, if_neg setter]

theorem wake_reading : (s.wake k l).pos d = .reading k' ↔ s.pos d = .reading k' := by
  rcases wake_pos_cases s k l d with same | ⟨was, -, now⟩ | ⟨was, -, now⟩ | ⟨was, -, now⟩
  · rw [same]
  all_goals rw [was, now]; simp

/-- After the waiting clients are served, a client is inside a set if it was or
if it is the first waiting setter. -/
theorem wake_inSet : (s.wake k l).pos d = .inSet k' ↔
    s.pos d = .inSet k' ∨ (k' = k ∧ (s.setters k).head? = some d) := by
  rcases wake_pos_cases s k l d with same | ⟨was, noSetter, now⟩ | ⟨was, first, now⟩ |
    ⟨was, notFirst, now⟩
  · rw [same, or_iff_left]
    intro ⟨_, first⟩
    have waits : s.pos d = .waitSet k := mem_setters.mp (List.mem_of_head? first)
    have moved : (s.wake k l).pos d = .inSet k := by
      cases waiting : s.setters k with
      | nil => simp [waiting] at first
      | cons a rest =>
          rw [waiting, List.head?_cons, Option.some.injEq] at first
          rw [wake_setter waiting]
          exact if_pos first.symm
    rw [same, waits] at moved
    cases moved
  · simp [was, now, noSetter]
  · simp [was, now, first, eq_comm]
  · simp [was, now, notFirst]

/-- Nobody waits for a key whose waiting clients were served, as long as there
was no setter among them; with a setter, the getters go on waiting. -/
theorem wake_waitSet : (s.wake k l).pos d = .waitSet k' ↔
    s.pos d = .waitSet k' ∧ k' ≠ k := by
  rcases wake_pos_cases s k l d with same | ⟨was, -, now⟩ | ⟨was, -, now⟩ | ⟨was, -, now⟩
  · rw [same]
    refine ⟨fun waits => ⟨waits, ?_⟩, And.left⟩
    intro same
    subst same
    cases waiting : s.setters k' with
    | nil => simpa [waiting] using mem_setters.mpr waits
    | cons first rest =>
        rw [wake_setter waiting] at same
        by_cases isFirst : d = first
        · subst isFirst
          simp [waits] at same
        · simp [isFirst, waits] at same
  all_goals rw [was, now]; simp [eq_comm]

theorem wake_waitGet : (s.wake k l).pos d = .waitGet k' ↔
    s.pos d = .waitGet k' ∧ (k' = k → s.setters k ≠ []) := by
  rcases wake_pos_cases s k l d with same | ⟨was, noSetter, now⟩ | ⟨was, first, now⟩ |
    ⟨was, notFirst, now⟩
  · rw [same]
    refine ⟨fun waits => ⟨waits, ?_⟩, And.left⟩
    intro same noSetter
    subst same
    rw [wake_quiet noSetter] at same
    simp [waits] at same
  · simp [was, now, noSetter, eq_comm]
  · simp [was, now]
  · simp [was, now]

theorem wake_lock_of_ne (other : k' ≠ k) : (s.wake k l).lock k' = s.lock k' := by
  cases waiting : s.setters k with
  | nil => simp [wake_quiet waiting, other]
  | cons first rest => simp [wake_setter waiting, other]

theorem wake_woken_of_ne (other : k' ≠ k) : (s.wake k l).woken k' = s.woken k' := by
  cases waiting : s.setters k with
  | nil => simp [wake_quiet waiting, other]
  | cons first rest => simp [wake_setter waiting]

/-- Serving the waiting clients keeps the balance of a record: what the count
gains, the granted gets gain too. -/
theorem wake_lock_self (s : Locks N K) (k : K) (l : Lock) :
    ∃ l', (s.wake k l).lock k = some l' ∧
      l'.numInGet - (s.wake k l).woken k = l.numInGet - s.woken k ∧
      l'.isSet = (l.isSet || !(s.setters k).isEmpty) := by
  cases waiting : s.setters k with
  | nil =>
      rw [wake_quiet waiting]
      refine ⟨_, Function.update_self .., ?_, ?_⟩
      · simp only [Function.update_self]
        omega
      · simp
  | cons first rest =>
      rw [wake_setter waiting]
      exact ⟨_, Function.update_self .., rfl, by simp⟩

end Parts

end Locks

end RdmaWiki
