import RdmaWiki.Locks

/-!
What every step of the lock discipline preserves.

`Account` needs no assumption. `Exclusive` needs that no set is granted to a
waiting client while another client is inside one, which two clients cannot do
(`Step.clear_of_two`). `Apart`, `ReadApart` and `Served` each carry the condition on
single steps under which they are kept.
-/

namespace RdmaWiki

namespace Locks

variable {N : ℕ} {K : Type} [DecidableEq K]

/-- The key whose record a client in this position relies on. -/
def needs : Pos K → Option K
  | .waitSet k => some k
  | .inSet k => some k
  | .waitGet k => some k
  | .reading k => some k
  | _ => none

/-- Inside a granted set or a granted get of the key. -/
def Holds (p : Pos K) (k : K) : Prop := p = .inSet k ∨ p = .granted k ∨ p = .reading k

instance (p : Pos K) (k : K) : Decidable (Holds p k) :=
  inferInstanceAs (Decidable (_ ∨ _))

/-- The key whose waiting clients are served after the request. -/
def finishes : Ask K → Option K
  | .setFin k => some k
  | .getEager k => some k
  | .getFin k => some k
  | _ => none

section Leaves

variable {s : Locks N K} {c : Fin N} {a : Ask K} {k k' : K} {l : Lock} {p : Pos K}

omit [DecidableEq K] in
/-- Who leaves a key held it. -/
theorem Leaves.holds (leaves : Leaves c s a k l) : Holds (s.pos c) k := by
  cases leaves with
  | setFin inside found => exact .inl inside
  | getEager entered found => exact .inr (.inl entered)
  | getFin reads found => exact .inr (.inr reads)

omit [DecidableEq K] in
theorem Leaves.finishes (leaves : Leaves c s a k l) : finishes a = some k := by
  cases leaves <;> rfl

omit [DecidableEq K] in
theorem Holds.unique (holds : Holds p k) (holds' : Holds p k') : k = k' := by
  rcases holds with rfl | rfl | rfl <;> rcases holds' with same | same | same <;> cases same <;>
    rfl

omit [DecidableEq K] in
theorem pos_of_move {d : Fin N} {q : Pos K} (now : (s.move c p).pos d = q) :
    s.pos d = q ∨ (d = c ∧ p = q) := by
  rcases eq_or_ne d c with rfl | other
  · rw [move_pos_self] at now
    exact .inr ⟨rfl, now⟩
  · rw [move_pos_of_ne other] at now
    exact .inl now

omit [DecidableEq K] in
/-- Who is where nobody has moved was there before. -/
theorem pos_before_move {d : Fin N} {q : Pos K} (now : (s.move c p).pos d = q) (other : p ≠ q) :
    s.pos d = q := by
  rcases pos_of_move now with before | ⟨-, same⟩
  · exact before
  · exact absurd same other

omit [DecidableEq K] in
/-- Who is inside a granted operation is not waiting. -/
theorem Holds.not_waiting (holds : Holds p k) (k' : K) : p ≠ .waitSet k' ∧ p ≠ .waitGet k' := by
  rcases holds with rfl | rfl | rfl <;> simp

theorem Leaves.setters (leaves : Leaves c s a k l) :
    (s.move c .out).setters k = s.setters k := by
  apply List.filter_congr
  intro e _
  rw [decide_eq_decide]
  exact move_pos_iff (leaves.holds.not_waiting k).1 (by simp)

end Leaves

section Readers

variable {s : Locks N K} {c : Fin N} {k k' : K} {p : Pos K} {l : Lock}

theorem readers_wake : (s.wake k l).readers k' = s.readers k' := by
  ext d
  rw [mem_readers, mem_readers, wake_reading]

theorem readers_setLock : (s.setLock k l).readers k' = s.readers k' := rfl

theorem readers_enter : (s.move c (.reading k)).readers k = insert c (s.readers k) := by
  ext d
  rw [Finset.mem_insert, mem_readers, mem_readers]
  by_cases same : d = c
  · subst same
    simp
  · simp [move_pos_of_ne same, same]

theorem readers_leave (notReading : p ≠ .reading k) :
    (s.move c p).readers k = (s.readers k).erase c := by
  ext d
  rw [Finset.mem_erase, mem_readers, mem_readers]
  by_cases same : d = c
  · subst same
    simp [notReading]
  · simp [move_pos_of_ne same, same]

/-- A move that has nothing to do with reading the key. -/
theorem readers_move (before : s.pos c ≠ .reading k) (after : p ≠ .reading k) :
    (s.move c p).readers k = s.readers k := by
  rw [readers_leave after, Finset.erase_eq_of_notMem]
  rwa [mem_readers]

end Readers

/-! ## The account of the reader count -/

/-- Records are there for those who rely on them, and a record's reader count
is the number of its readers plus the gets granted after waiting. -/
structure Account (s : Locks N K) : Prop where
  present : ∀ d k, needs (s.pos d) = some k → s.lock k ≠ none
  unwoken : ∀ k, s.lock k = none → s.woken k = 0
  balance : ∀ k l, s.lock k = some l → l.numInGet = (s.readers k).card + s.woken k

section Account

variable {s s' : Locks N K} {c : Fin N} {a : Ask K} {k : K} {p : Pos K} {l : Lock}

theorem Account.move (account : s.Account) (relies : ∀ k, needs p = some k → s.lock k ≠ none)
    (before : ∀ k, s.pos c ≠ .reading k) (after : ∀ k, p ≠ .reading k) :
    (s.move c p).Account where
  present d k needed := by
    by_cases same : d = c
    · subst same
      rw [move_pos_self] at needed
      exact relies k needed
    · rw [move_pos_of_ne same] at needed
      exact account.present d k needed
  unwoken := account.unwoken
  balance k l found := by
    rw [readers_move (before k) (after k)]
    exact account.balance k l found

/-- A move together with a new record of the one key it is about. -/
theorem Account.moveLock (account : s.Account) (relies : ∀ k', needs p = some k' → k' = k)
    (others : ∀ k', k' ≠ k → s.pos c ≠ .reading k' ∧ p ≠ .reading k')
    (count : l.numInGet = ((s.move c p).readers k).card + s.woken k) :
    ((s.move c p).setLock k l).Account where
  present d k' needed := by
    by_cases same : k' = k
    · subst same
      simp
    · rw [setLock_lock_of_ne same, move_lock]
      rw [setLock_pos] at needed
      by_cases actor : d = c
      · subst actor
        rw [move_pos_self] at needed
        exact absurd (relies k' needed) same
      · rw [move_pos_of_ne actor] at needed
        exact account.present d k' needed
  unwoken k' absent := by
    by_cases same : k' = k
    · subst same
      simp at absent
    · rw [setLock_lock_of_ne same] at absent
      exact account.unwoken k' absent
  balance k' l' found := by
    by_cases same : k' = k
    · subst same
      rw [setLock_lock_self, Option.some.injEq] at found
      rw [← found]
      exact count
    · rw [setLock_lock_of_ne same] at found
      rw [readers_setLock, readers_move (others k' same).1 (others k' same).2]
      exact account.balance k' l' found

theorem wake_setLock : (s.setLock k l).wake k l = s.wake k l := by
  have same : (s.setLock k l).setters k = s.setters k := rfl
  cases waiting : s.setters k with
  | nil =>
      rw [wake_quiet waiting, wake_quiet (same.trans waiting)]
      simp only [setLock, Function.update_idem]
      rfl
  | cons first rest =>
      rw [wake_setter waiting, wake_setter (same.trans waiting)]
      simp only [setLock, Function.update_idem]
      rfl

theorem needs_wake {d : Fin N} {k' : K} (needed : needs ((s.wake k l).pos d) = some k') :
    needs (s.pos d) = some k' := by
  rcases wake_pos_cases s k l d with same | ⟨-, -, now⟩ | ⟨was, -, now⟩ | ⟨-, -, now⟩
  · rwa [same] at needed
  · rw [now] at needed
    cases needed
  · rw [now] at needed
    rw [was]
    exact needed
  · rw [now] at needed
    cases needed

theorem Account.wake (account : s.Account) (found : s.lock k = some l) :
    (s.wake k l).Account where
  present d k' needed := by
    have before := account.present d k' (needs_wake needed)
    by_cases same : k' = k
    · subst same
      obtain ⟨l', now, -⟩ := wake_lock_self s k' l
      rw [now]
      exact Option.some_ne_none l'
    · rwa [wake_lock_of_ne same]
  unwoken k' absent := by
    by_cases same : k' = k
    · subst same
      obtain ⟨l', now, -⟩ := wake_lock_self s k' l
      rw [now] at absent
      cases absent
    · rw [wake_lock_of_ne same] at absent
      rw [wake_woken_of_ne same]
      exact account.unwoken k' absent
  balance k' l' now := by
    rw [readers_wake]
    by_cases same : k' = k
    · subst same
      obtain ⟨l₁, now₁, balanced, -⟩ := wake_lock_self s k' l
      rw [now₁, Option.some.injEq] at now
      subst now
      have before := account.balance k' l found
      omega
    · rw [wake_lock_of_ne same] at now
      rw [wake_woken_of_ne same]
      exact account.balance k' l' now

/-- The account holds when a client has left a key, before the waiting clients are
served. -/
theorem Account.left (account : s.Account) (leaves : Leaves c s a k l) :
    ((s.move c .out).setLock k l).Account := by
  have others : ∀ k', k' ≠ k → s.pos c ≠ .reading k' := by
    intro k' other reads
    exact other ((Holds.unique leaves.holds (.inr (.inr reads))).symm)
  refine account.moveLock (fun _ needed => by cases needed)
    (fun k' other => ⟨others k' other, by simp⟩) ?_
  rw [readers_leave (by simp)]
  cases leaves with
  | @setFin k l inside found =>
      rw [Finset.erase_eq_of_notMem (by simp [mem_readers, inside])]
      exact account.balance k l found
  | getEager entered found =>
      rw [Finset.erase_eq_of_notMem (by simp [mem_readers, entered])]
      exact account.balance k l found
  | @getFin k l reads found =>
      have reader : c ∈ s.readers k := mem_readers.mpr reads
      have balanced := account.balance k l found
      have positive : 0 < (s.readers k).card := Finset.card_pos.mpr ⟨c, reader⟩
      rw [Finset.card_erase_of_mem reader]
      change l.numInGet - 1 = _
      omega

theorem Account.step (account : s.Account) (step : Step c a s s') : s'.Account := by
  cases step with
  | stay => exact account
  | ask outside asks =>
      obtain ⟨k, rfl | rfl⟩ := asks
      all_goals exact account.move (fun _ needed => by cases needed) (by simp [outside]) (by simp)
  | @grantSet _ k asked free =>
      refine account.moveLock (fun k' needed => (Option.some.inj needed).symm)
        (fun k' _ => by simp [asked]) ?_
      rw [readers_move (by simp [asked]) (by simp)]
      cases found : s.lock k with
      | none =>
          have nobody : s.readers k = ∅ := by
            apply Finset.eq_empty_of_forall_notMem
            intro d reads
            rw [mem_readers] at reads
            exact account.present d k (by rw [reads, needs]) found
          rw [account.unwoken k found, nobody]
          rfl
      | some l =>
          have balanced := account.balance k l found
          rw [free l found] at balanced
          exact balanced
  | @deferSet _ k l asked found busy =>
      refine account.move (fun k' needed => ?_) (by simp [asked]) (by simp)
      cases needed
      rw [found]
      exact Option.some_ne_none l
  | @store _ k l inside found =>
      have stays : s.move c (.inSet k) = s := move_self inside
      have moved := account.moveLock (c := c) (p := .inSet k) (k := k)
        (l := { l with isSet := true }) (fun k' needed => (Option.some.inj needed).symm)
        (fun k' _ => by simp [inside])
        (by rw [stays]; exact account.balance k l found)
      rwa [stays] at moved
  | @grantGet _ k asked unlocked =>
      exact account.move (fun _ needed => by cases needed) (by simp [asked]) (by simp)
  | @deferGet _ k l asked found locked =>
      refine account.move (fun k' needed => ?_) (by simp [asked]) (by simp)
      cases needed
      rw [found]
      exact Option.some_ne_none l
  | @lose _ k entered absent =>
      exact account.move (fun _ needed => by cases needed) (by simp [entered]) (by simp)
  | @getLarge _ k l entered found =>
      refine account.moveLock (fun k' needed => (Option.some.inj needed).symm)
        (fun k' other => ⟨by simp [entered], by simpa using other.symm⟩) ?_
      have newcomer : c ∉ s.readers k := by simp [mem_readers, entered]
      have balanced := account.balance k l found
      rw [readers_enter, Finset.card_insert_of_notMem newcomer]
      change l.numInGet + 1 = _
      omega
  | finish leaves =>
      rw [← wake_setLock]
      exact (account.left leaves).wake setLock_lock_self

end Account

/-! ## At most one client inside a set -/

/-- One client at most is inside a set of a key, and a record's flag says whether
there is one. -/
structure Exclusive (s : Locks N K) : Prop where
  one : ∀ k d d', s.pos d = .inSet k → s.pos d' = .inSet k → d = d'
  locked : ∀ k l, s.lock k = some l → (l.isSet = true ↔ ∃ d, s.pos d = .inSet k)

section Exclusive

variable {s s' : Locks N K} {c : Fin N} {a : Ask K} {k : K} {p : Pos K} {l : Lock}

omit [DecidableEq K] in
/-- A client that stays outside sets moves, records unchanged. -/
theorem Exclusive.move (exclusive : s.Exclusive) (before : ∀ k, s.pos c ≠ .inSet k)
    (after : ∀ k, p ≠ .inSet k) : (s.move c p).Exclusive := by
  have same : ∀ k d, (s.move c p).pos d = .inSet k ↔ s.pos d = .inSet k :=
    fun k _ => move_pos_iff (before k) (after k)
  constructor
  · intro k d d' inside inside'
    exact exclusive.one k d d' ((same k d).mp inside) ((same k d').mp inside')
  · intro k l found
    simp only [same]
    exact exclusive.locked k l found

/-- A record changes without its flag. -/
theorem Exclusive.setLock (exclusive : s.Exclusive)
    (flag : l.isSet = true ↔ ∃ d, s.pos d = .inSet k) : (s.setLock k l).Exclusive := by
  constructor
  · exact exclusive.one
  · intro k' l' found
    rcases eq_or_ne k' k with rfl | other
    · rw [setLock_lock_self, Option.some.injEq] at found
      rw [← found]
      exact flag
    · rw [setLock_lock_of_ne other] at found
      exact exclusive.locked k' l' found

/-- Serving the waiting clients of a key keeps exclusion when nobody is inside a
set of it, or no setter waits. -/
theorem Exclusive.wake (exclusive : s.Exclusive)
    (flag : l.isSet = true ↔ ∃ d, s.pos d = .inSet k)
    (clear : s.setters k ≠ [] → ∀ d, s.pos d ≠ .inSet k) : (s.wake k l).Exclusive := by
  constructor
  · intro k' d d' inside inside'
    rw [wake_inSet] at inside inside'
    rcases inside with was | ⟨rfl, first⟩
    · rcases inside' with was' | ⟨rfl, first'⟩
      · exact exclusive.one k' d d' was was'
      · have someone : s.setters k' ≠ [] := List.ne_nil_of_mem (List.mem_of_head? first')
        exact absurd was (clear someone d)
    · rcases inside' with was' | ⟨-, first'⟩
      · have someone : s.setters k' ≠ [] := List.ne_nil_of_mem (List.mem_of_head? first)
        exact absurd was' (clear someone d')
      · rw [first, Option.some.injEq] at first'
        exact first'
  · intro k' l' found
    rcases eq_or_ne k' k with rfl | other
    · obtain ⟨l₁, now, -, set⟩ := wake_lock_self s k' l
      rw [found, Option.some.injEq] at now
      subst now
      rw [set]
      cases waiting : s.setters k' with
      | nil => simp [wake_inSet, waiting, flag]
      | cons first rest => simp [wake_inSet, waiting]
    · rw [wake_lock_of_ne other] at found
      simp only [wake_inSet, other, false_and, or_false]
      exact exclusive.locked k' l' found

/-- A client that was inside a set left it. -/
theorem Exclusive.leaveSet (exclusive : s.Exclusive) (inside : s.pos c = .inSet k)
    (unlocked : l.isSet = false) : ((s.move c .out).setLock k l).Exclusive := by
  have gone : ∀ k' d, (s.move c .out).pos d = .inSet k' ↔ s.pos d = .inSet k' ∧ d ≠ c := by
    intro k' d
    rcases eq_or_ne d c with rfl | other
    · simp
    · simp [move_pos_of_ne other, other]
  constructor
  · intro k' d d' was was'
    rw [setLock_pos, gone] at was was'
    exact exclusive.one k' d d' was.1 was'.1
  · intro k' l' found
    simp only [setLock_pos, gone]
    rcases eq_or_ne k' k with rfl | other
    · rw [setLock_lock_self, Option.some.injEq] at found
      subst found
      simp only [unlocked, Bool.false_eq_true, false_iff]
      intro ⟨d, was, different⟩
      exact different (exclusive.one k' d c was inside)
    · rw [setLock_lock_of_ne other] at found
      rw [exclusive.locked k' l' found]
      refine ⟨fun ⟨d, was⟩ => ⟨d, was, ?_⟩, fun ⟨d, was, _⟩ => ⟨d, was⟩⟩
      intro same
      subst same
      rw [inside, Pos.inSet.injEq] at was
      exact other was.symm

/-- Exclusion holds when a client has left a key, before the waiting clients are
served. -/
theorem Exclusive.left (exclusive : s.Exclusive) (leaves : Leaves c s a k l) :
    ((s.move c .out).setLock k l).Exclusive := by
  cases leaves with
  | setFin inside found => exact exclusive.leaveSet inside rfl
  | getEager entered found =>
      have moved : (s.move c .out).Exclusive := exclusive.move (by simp [entered]) (by simp)
      exact moved.setLock (moved.locked k l found)
  | @getFin k l reads found =>
      have moved : (s.move c .out).Exclusive := exclusive.move (by simp [reads]) (by simp)
      exact moved.setLock (moved.locked k l found)

/-- The condition of `Exclusive`: the request does not serve a waiting setter
while another client is inside a set. -/
def Clear (s : Locks N K) (c : Fin N) (a : Ask K) : Prop :=
  ∀ k, finishes a = some k → s.setters k ≠ [] → ∀ d, d ≠ c → s.pos d ≠ .inSet k

theorem Exclusive.step (exclusive : s.Exclusive) (account : s.Account) (clear : s.Clear c a)
    (step : Step c a s s') : s'.Exclusive := by
  cases step with
  | stay => exact exclusive
  | ask outside asks =>
      obtain ⟨k, rfl | rfl⟩ := asks
      all_goals exact exclusive.move (by simp [outside]) (by simp)
  | @grantSet _ k asked free =>
      have nobody : ∀ d, s.pos d ≠ .inSet k := by
        intro d inside
        cases found : s.lock k with
        | none => exact account.present d k (by rw [inside, needs]) found
        | some l =>
            have flagged := (exclusive.locked k l found).mpr ⟨d, inside⟩
            rw [free l found] at flagged
            cases flagged
      have only : ∀ k' d, (s.move c (.inSet k)).pos d = .inSet k' ↔
          s.pos d = .inSet k' ∨ (k' = k ∧ d = c) := by
        intro k' d
        rcases eq_or_ne d c with rfl | other
        · simp [asked, eq_comm]
        · simp [move_pos_of_ne other, other]
      constructor
      · intro k' d d' inside inside'
        rw [setLock_pos, only] at inside inside'
        rcases inside with was | ⟨rfl, rfl⟩
        · rcases inside' with was' | ⟨rfl, rfl⟩
          · exact exclusive.one k' d d' was was'
          · exact absurd was (nobody d)
        · rcases inside' with was' | ⟨-, rfl⟩
          · exact absurd was' (nobody d')
          · rfl
      · intro k' l found
        simp only [setLock_pos, only]
        rcases eq_or_ne k' k with rfl | other
        · rw [setLock_lock_self, Option.some.injEq] at found
          subst found
          simp
        · rw [setLock_lock_of_ne other] at found
          simp only [other, false_and, or_false]
          exact exclusive.locked k' l found
  | deferSet asked found busy => exact exclusive.move (by simp [asked]) (by simp)
  | @store _ k l inside found =>
      exact exclusive.setLock ⟨fun _ => ⟨c, inside⟩, fun _ => rfl⟩
  | grantGet asked unlocked => exact exclusive.move (by simp [asked]) (by simp)
  | deferGet asked found locked => exact exclusive.move (by simp [asked]) (by simp)
  | lose entered absent => exact exclusive.move (by simp [entered]) (by simp)
  | @getLarge _ k l entered found =>
      have moved : (s.move c (.reading k)).Exclusive :=
        exclusive.move (by simp [entered]) (by simp)
      exact moved.setLock (moved.locked k l found)
  | @finish _ _ k l leaves =>
      have left := exclusive.left leaves
      rw [← wake_setLock]
      apply left.wake (left.locked k l setLock_lock_self)
      intro someone d inside
      rw [setLock_pos] at inside
      obtain ⟨e, waits⟩ := List.exists_mem_of_ne_nil _ someone
      have was := pos_before_move inside nofun
      have waited := pos_before_move (mem_setters.mp waits) nofun
      refine clear k leaves.finishes (List.ne_nil_of_mem (mem_setters.mpr waited)) d ?_ was
      intro same
      subst same
      simp at inside

/-- A record is free exactly when nobody is inside a set of it or reads it, and no
get of it was granted after waiting. -/
theorem free_iff (account : s.Account) (exclusive : s.Exclusive) (found : s.lock k = some l) :
    l = ⟨false, 0⟩ ↔
      (∀ d, s.pos d ≠ .inSet k ∧ s.pos d ≠ .reading k) ∧ s.woken k = 0 := by
  have balanced := account.balance k l found
  have locked := exclusive.locked k l found
  constructor
  · intro same
    subst same
    change (0 : Int) = _ at balanced
    have nobody : s.readers k = ∅ := Finset.card_eq_zero.mp (by omega)
    refine ⟨fun d => ⟨fun inside => ?_, fun reads => ?_⟩, by omega⟩
    · cases locked.mpr ⟨d, inside⟩
    · have member := mem_readers.mpr reads
      rw [nobody] at member
      cases member
  · intro ⟨nobody, unwoken⟩
    have unlocked : l.isSet = false := by
      rw [Bool.eq_false_iff]
      intro set
      obtain ⟨d, inside⟩ := locked.mp set
      exact (nobody d).1 inside
    have none : s.readers k = ∅ :=
      Finset.eq_empty_of_forall_notMem fun d member => (nobody d).2 (mem_readers.mp member)
    rw [none, unwoken] at balanced
    cases l
    simp_all

end Exclusive

/-! ## Where positions come from -/

section Positions

variable {s s' : Locks N K} {c d : Fin N} {a : Ask K} {k : K} {l : Lock}

/-- The waiting clients of a key are served for a client that held the key. -/
theorem Step.holds (step : Step c a s s') (asks : finishes a = some k) :
    Holds (s.pos c) k := by
  cases step
  case finish leaves =>
    rw [leaves.finishes, Option.some.injEq] at asks
    exact asks ▸ leaves.holds
  all_goals cases asks

theorem Step.entered (step : Step c (.get k) s s') : s.pos c = .granted k := by
  cases step
  case finish leaves => cases leaves
  all_goals assumption

/-- A set that finds its key free is granted. -/
theorem Step.granted (step : Step c (.setAsk k) s s')
    (free : ∀ l, s.lock k = some l → l = ⟨false, 0⟩) : s'.pos c = .inSet k := by
  cases step with
  | grantSet asked _ => exact move_pos_self
  | deferSet asked found busy => exact absurd (free _ found) busy
  | finish leaves => cases leaves

/-- A set that was asked for is granted or deferred. -/
theorem Step.asked (step : Step c (.setAsk k) s s') :
    s'.pos c = .inSet k ∨ s'.pos c = .waitSet k := by
  cases step with
  | grantSet asked free => exact .inl move_pos_self
  | deferSet asked found busy => exact .inr move_pos_self
  | finish leaves => cases leaves

theorem Step.asked_others (step : Step c (.setAsk k) s s') (other : d ≠ c) :
    s'.pos d = s.pos d := by
  cases step with
  | grantSet asked free => exact move_pos_of_ne other
  | deferSet asked found busy => exact move_pos_of_ne other
  | finish leaves => cases leaves

theorem Step.stores (step : Step c (.store k) s s') :
    s.pos c = .inSet k ∧ s'.pos c = .inSet k := by
  cases step with
  | store inside found => exact ⟨inside, inside⟩
  | finish leaves => cases leaves

theorem Step.finishes_set (step : Step c (.setFin k) s s') : s.pos c = .inSet k := by
  cases step with
  | finish leaves =>
      cases leaves with
      | setFin inside found => exact inside

/-- A client stays inside a set until it finishes it. -/
theorem Step.stays_inSet (step : Step c a s s') (before : s.pos d = .inSet k) :
    s'.pos d = .inSet k ∨ (a = .setFin k ∧ d = c) := by
  -- whoever moves by its own request moves from another position
  have elsewhere {p : Pos K} {q : Pos K} (start : s.pos c = q) (different : q ≠ .inSet k) :
      (s.move c p).pos d = .inSet k := by
    rw [move_pos_of_ne, before]
    intro same
    subst same
    exact different (start.symm.trans before)
  cases step with
  | stay => exact .inl before
  | ask outside asks => exact .inl (elsewhere outside nofun)
  | grantSet asked free => exact .inl (elsewhere asked nofun)
  | deferSet asked found busy => exact .inl (elsewhere asked nofun)
  | store inside found => exact .inl before
  | grantGet asked unlocked => exact .inl (elsewhere asked nofun)
  | deferGet asked found locked => exact .inl (elsewhere asked nofun)
  | lose entered absent => exact .inl (elsewhere entered nofun)
  | getLarge entered found => exact .inl (elsewhere entered nofun)
  | finish leaves =>
      rcases eq_or_ne d c with rfl | other
      · cases leaves with
        | setFin inside found =>
            cases inside.symm.trans before
            exact .inr ⟨rfl, rfl⟩
        | getEager entered found => cases entered.symm.trans before
        | getFin reads found => cases reads.symm.trans before
      · left
        rw [wake_inSet, move_pos_of_ne other]
        exact .inl before

/-- A client that is inside a set was so before, or was granted by its own
request, or waited for it and was woken by a client that left. -/
theorem Step.pos_inSet (step : Step c a s s') (now : s'.pos d = .inSet k) :
    s.pos d = .inSet k ∨
      (a = .setAsk k ∧ d = c ∧ ∀ l, s.lock k = some l → l = ⟨false, 0⟩) ∨
      (finishes a = some k ∧ s.pos d = .waitSet k ∧ s'.pos c = .out) := by
  cases step with
  | stay => exact .inl now
  | ask outside asks =>
      refine .inl (pos_before_move now ?_)
      rintro rfl
      obtain ⟨k', bad | bad⟩ := asks <;> cases bad
  | grantSet asked free =>
      rcases pos_of_move now with before | ⟨rfl, moved⟩
      · exact .inl before
      · cases moved
        exact .inr (.inl ⟨rfl, rfl, free⟩)
  | store inside found => exact .inl now
  | finish leaves =>
      rcases wake_inSet.mp now with was | ⟨rfl, first⟩
      · exact .inl (pos_before_move was nofun)
      · have waits := pos_before_move (mem_setters.mp (List.mem_of_head? first)) nofun
        refine .inr (.inr ⟨leaves.finishes, waits, ?_⟩)
        rw [wake_pos_of_not_waiting] <;> simp
  | deferSet | grantGet | deferGet | lose | getLarge => exact .inl (pos_before_move now nofun)

/-- A client that is reading was so before, or its `g0` was handled now. -/
theorem Step.pos_reading (step : Step c a s s') (now : s'.pos d = .reading k) :
    s.pos d = .reading k ∨ (a = .get k ∧ d = c ∧ s.pos c = .granted k) := by
  cases step with
  | stay => exact .inl now
  | ask outside asks =>
      refine .inl (pos_before_move now ?_)
      rintro rfl
      obtain ⟨k', bad | bad⟩ := asks <;> cases bad
  | store inside found => exact .inl now
  | finish leaves =>
      rw [wake_reading] at now
      exact .inl (pos_before_move now nofun)
  | getLarge entered found =>
      rcases pos_of_move now with before | ⟨rfl, moved⟩
      · exact .inl before
      · cases moved
        exact .inr ⟨rfl, rfl, entered⟩
  | grantSet | deferSet | grantGet | deferGet | lose => exact .inl (pos_before_move now nofun)

/-- A client whose get is granted was so before, or its `ag` found the record
unlocked, or it waited and was woken by a client that left, no setter waiting. -/
theorem Step.pos_granted (step : Step c a s s') (now : s'.pos d = .granted k) :
    s.pos d = .granted k ∨
      (a = .getAsk k ∧ d = c ∧ ∀ l, s.lock k = some l → l.isSet = false) ∨
      (finishes a = some k ∧ s.setters k = [] ∧ s.pos d = .waitGet k ∧ s'.pos c = .out) := by
  cases step with
  | stay => exact .inl now
  | ask outside asks =>
      refine .inl (pos_before_move now ?_)
      rintro rfl
      obtain ⟨k', bad | bad⟩ := asks <;> cases bad
  | grantGet asked unlocked =>
      rcases pos_of_move now with before | ⟨rfl, moved⟩
      · exact .inl before
      · cases moved
        exact .inr (.inl ⟨rfl, rfl, unlocked⟩)
  | store inside found => exact .inl now
  | @finish _ _ k' l leaves =>
      have same := leaves.setters
      rcases wake_pos_cases (s.move c .out) k' l d with stayed | ⟨was, quiet, moved⟩ |
        ⟨-, -, moved⟩ | ⟨-, -, moved⟩
      · rw [stayed] at now
        exact .inl (pos_before_move now nofun)
      · rw [moved, Pos.granted.injEq] at now
        subst now
        refine .inr (.inr ⟨leaves.finishes, same ▸ quiet, pos_before_move was nofun, ?_⟩)
        rw [wake_pos_of_not_waiting] <;> simp
      · rw [moved] at now
        cases now
      · rw [moved] at now
        cases now
  | grantSet | deferSet | deferGet | lose | getLarge => exact .inl (pos_before_move now nofun)

theorem Step.pos_lost (step : Step c a s s') (now : s'.pos d = .lost k) :
    s.pos d = .lost k ∨ (a = .get k ∧ s.lock k = none) := by
  cases step with
  | stay => exact .inl now
  | ask outside asks =>
      refine .inl (pos_before_move now ?_)
      rintro rfl
      obtain ⟨k', bad | bad⟩ := asks <;> cases bad
  | store inside found => exact .inl now
  | lose entered absent =>
      rcases pos_of_move now with before | ⟨-, same⟩
      · exact .inl before
      · cases same
        exact .inr ⟨rfl, absent⟩
  | @finish _ _ k' l leaves =>
      rcases wake_pos_cases (s.move c .out) k' l d with same | ⟨-, -, bad⟩ | ⟨-, -, bad⟩ |
        ⟨-, -, bad⟩
      · rw [same] at now
        exact .inl (pos_before_move now nofun)
      all_goals rw [bad] at now; cases now
  | grantSet | deferSet | grantGet | deferGet | getLarge => exact .inl (pos_before_move now nofun)

end Positions

/-! ## Writers apart from readers, with two clients -/

/-- No client is inside a set of a key while another is inside a granted get, be it
one that was lost. -/
def Apart (s : Locks N K) : Prop :=
  ∀ k d d', s.pos d = .inSet k →
    s.pos d' ≠ .granted k ∧ s.pos d' ≠ .reading k ∧ s.pos d' ≠ .lost k

/-- No client is inside a set of a key while another reads it. -/
def ReadApart (s : Locks N K) : Prop :=
  ∀ k d d', s.pos d = .inSet k → s.pos d' ≠ .reading k

section Two

variable {s s' : Locks 2 K} {c d e : Fin 2} {a : Ask K} {k : K}

theorem no_third (first : d ≠ c) (second : e ≠ c) : d = e := by
  omega

/-- With two clients a waiting setter is the only other client when the waiting
clients are served. -/
theorem Step.clear_of_two (step : Step c a s s') : s.Clear c a := by
  intro k asks someone d other inside
  obtain ⟨e, waits⟩ := List.exists_mem_of_ne_nil _ someone
  rw [mem_setters] at waits
  have different : e ≠ c := by
    intro same
    subst same
    exact ((step.holds asks).not_waiting k).1 waits
  rw [no_third different other, inside] at waits
  cases waits

/-- With two clients there is nobody besides the one that left and the one that
was waiting. -/
theorem Step.only_woken (step : Step c a s s') (asks : finishes a = some k)
    (waits : s.pos d = .waitSet k ∨ s.pos d = .waitGet k) (other : e ≠ c) : e = d := by
  have different : d ≠ c := by
    intro same
    subst same
    obtain ⟨noSetter, noGetter⟩ := (step.holds asks).not_waiting k
    rcases waits with setter | getter
    · exact noSetter setter
    · exact noGetter getter
  exact no_third other different

/-- A set that is granted by its own request finds no reader. -/
theorem Account.no_reader (account : s.Account)
    (free : ∀ l, s.lock k = some l → l = ⟨false, 0⟩) : s.pos d ≠ .reading k := by
  intro reads
  cases found : s.lock k with
  | none => exact account.present d k (by rw [reads, needs]) found
  | some l =>
      have balanced := account.balance k l found
      have positive : 0 < (s.readers k).card := Finset.card_pos.mpr ⟨d, mem_readers.mpr reads⟩
      rw [free l found] at balanced
      change (0 : Int) = _ at balanced
      omega

/-- Readers stay out while somebody is inside a set, provided that no `g0` is
handled while another client is inside a set of its key. -/
theorem ReadApart.step (apart : s.ReadApart) (account : s.Account)
    (quiet : ∀ k, a = .get k → ∀ d, d ≠ c → s.pos d ≠ .inSet k) (step : Step c a s s') :
    s'.ReadApart := by
  intro k d d' inside reads
  rcases step.pos_reading reads with read | ⟨asked, rfl, entered⟩
  · rcases step.pos_inSet inside with before | ⟨-, -, free⟩ | ⟨asks, waits, left⟩
    · exact apart k d d' before read
    · exact account.no_reader free read
    · have other : d' ≠ c := by
        intro same
        subst same
        rw [left] at reads
        cases reads
      rw [step.only_woken asks (.inl waits) other, waits] at read
      cases read
  · rcases step.pos_inSet inside with before | ⟨grant, -, -⟩ | ⟨-, -, left⟩
    · refine quiet k asked d ?_ before
      intro same
      subst same
      rw [entered] at before
      cases before
    · rw [asked] at grant
      cases grant
    · rw [left] at reads
      cases reads

/-- Writers stay apart from granted gets, provided that no set is granted by its
own request while another client's granted get waits for its `g0` or has lost it. -/
theorem Apart.step (apart : s.Apart) (account : s.Account) (exclusive : s.Exclusive)
    (early : ∀ k, a = .setAsk k → (∀ l, s.lock k = some l → l = ⟨false, 0⟩) →
      ∀ d, d ≠ c → s.pos d ≠ .granted k ∧ s.pos d ≠ .lost k)
    (step : Step c a s s') : s'.Apart := by
  have noReader : s'.ReadApart := by
    refine ReadApart.step (fun k d d' inside => (apart k d d' inside).2.1) account ?_ step
    intro k same d _ inside
    subst same
    exact (apart k d c inside).1 step.entered
  -- a client that has entered before stays apart from whoever is inside now
  have before_apart {k : K} {d d' : Fin 2} {p : Pos K} (inside : s'.pos d = .inSet k)
      (now : s'.pos d' = p) (before : s.pos d' = p) (entered : p = .granted k ∨ p = .lost k) :
      False := by
    rcases step.pos_inSet inside with within | ⟨grant, rfl, free⟩ | ⟨asks, waits, left⟩
    · rcases entered with rfl | rfl
      · exact (apart k d d' within).1 before
      · exact (apart k d d' within).2.2 before
    · have other : d' ≠ d := by
        intro same
        subst same
        rw [inside] at now
        subst now
        rcases entered with bad | bad <;> cases bad
      rcases entered with rfl | rfl
      · exact (early k grant free d' other).1 before
      · exact (early k grant free d' other).2 before
    · have other : d' ≠ c := by
        intro same
        subst same
        rw [left] at now
        subst now
        rcases entered with bad | bad <;> cases bad
      rw [step.only_woken asks (.inl waits) other, waits] at before
      subst before
      rcases entered with bad | bad <;> cases bad
  intro k d d' inside
  refine ⟨fun entered => ?_, noReader k d d' inside, fun lost => ?_⟩
  · rcases step.pos_granted entered with before | ⟨asked, rfl, unlocked⟩ |
      ⟨asks, -, waits, left⟩
    · exact before_apart inside entered before (.inl rfl)
    · rcases step.pos_inSet inside with within | ⟨grant, -, -⟩ | ⟨-, -, left⟩
      · cases found : s.lock k with
        | none => exact account.present d k (by rw [within, needs]) found
        | some l =>
            have locked := (exclusive.locked k l found).mpr ⟨d, within⟩
            rw [unlocked l found] at locked
            cases locked
      · rw [asked] at grant
        cases grant
      · rw [left] at entered
        cases entered
    · have other : d ≠ c := by
        intro same
        subst same
        rw [left] at inside
        cases inside
      have same := step.only_woken asks (.inr waits) other
      subst same
      rw [inside] at entered
      cases entered
  · rcases step.pos_lost lost with before | ⟨getting, absent⟩
    · exact before_apart inside lost before (.inr rfl)
    · rcases step.pos_inSet inside with within | ⟨grant, -, -⟩ | ⟨asks, -, -⟩
      · exact account.present d k (by rw [within, needs]) absent
      · rw [getting] at grant
        cases grant
      · rw [getting] at asks
        cases asks

end Two

/-! ## Waiting clients wait for somebody -/

/-- Whoever waits for a key waits for another client that is inside a granted
operation on it. -/
def Served (s : Locks N K) : Prop :=
  ∀ k d, s.pos d = .waitSet k ∨ s.pos d = .waitGet k → ∃ e, e ≠ d ∧ Holds (s.pos e) k

section Served

variable {s s' : Locks N K} {c d : Fin N} {a : Ask K} {k k' : K} {p : Pos K} {l : Lock}

omit [DecidableEq K] in
theorem Served.move (served : s.Served)
    (keeps : ∀ k, Holds (s.pos c) k → Holds p k ∨
      ∀ d, s.pos d ≠ .waitSet k ∧ s.pos d ≠ .waitGet k)
    (waits : ∀ k, p = .waitSet k ∨ p = .waitGet k → ∃ e, e ≠ c ∧ Holds (s.pos e) k) :
    (s.move c p).Served := by
  intro k d waiting
  rcases eq_or_ne d c with rfl | other
  · rw [move_pos_self] at waiting
    obtain ⟨e, different, holds⟩ := waits k waiting
    refine ⟨e, different, ?_⟩
    rwa [move_pos_of_ne different]
  · rw [move_pos_of_ne other] at waiting
    obtain ⟨e, different, holds⟩ := served k d waiting
    refine ⟨e, different, ?_⟩
    rcases eq_or_ne e c with rfl | bystander
    · rw [move_pos_self]
      rcases keeps k holds with still | nobody
      · exact still
      · rcases waiting with setter | getter
        · exact absurd setter (nobody d).1
        · exact absurd getter (nobody d).2
    · rwa [move_pos_of_ne bystander]

/-- A holder of a key leaves it: whoever goes on waiting for the key waits for the
setter that was granted. -/
theorem Served.leave (served : s.Served) (held : Holds (s.pos c) k) :
    ((s.move c .out).wake k l).Served := by
  -- a holder of another key stays where it is
  have elsewhere {k' : K} {d : Fin N} (other : k' ≠ k)
      (waiting : (s.move c .out).pos d = .waitSet k' ∨ (s.move c .out).pos d = .waitGet k') :
      ∃ e, e ≠ d ∧ Holds (((s.move c .out).wake k l).pos e) k' := by
    have before : s.pos d = .waitSet k' ∨ s.pos d = .waitGet k' := by
      rcases waiting with setter | getter
      · exact .inl (pos_before_move setter nofun)
      · exact .inr (pos_before_move getter nofun)
    obtain ⟨e, different, holds⟩ := served k' d before
    have bystander : e ≠ c := by
      intro same
      subst same
      exact other (holds.unique held)
    refine ⟨e, different, ?_⟩
    obtain ⟨noSetter, noGetter⟩ := holds.not_waiting k
    rw [wake_pos_of_not_waiting]
    · rwa [move_pos_of_ne bystander]
    · rwa [move_pos_of_ne bystander]
    · rwa [move_pos_of_ne bystander]
  intro k' d waiting
  rcases waiting with setter | getter
  · rw [wake_waitSet] at setter
    exact elsewhere setter.2 (.inl setter.1)
  · rw [wake_waitGet] at getter
    rcases eq_or_ne k' k with rfl | other
    · cases someone : (s.move c .out).setters k' with
      | nil => exact absurd someone (getter.2 rfl)
      | cons first rest =>
          refine ⟨first, ?_, .inl (wake_inSet.mpr (.inr ⟨rfl, by rw [someone]; rfl⟩))⟩
          intro same
          subst same
          have waits : (s.move c .out).pos first = .waitSet k' :=
            mem_setters.mp (someone ▸ List.mem_cons_self)
          rw [getter.1] at waits
          cases waits
    · exact elsewhere other (.inr getter.1)

/-- Nobody waits in vain, provided that every deferred set finds its key held by
another client. -/
theorem Served.step (served : s.Served) (account : s.Account) (exclusive : s.Exclusive)
    (deferred : ∀ k l, a = .setAsk k → s.lock k = some l → l ≠ ⟨false, 0⟩ →
      ∃ e, e ≠ c ∧ Holds (s.pos e) k)
    (step : Step c a s s') : s'.Served := by
  cases step with
  | stay => exact served
  | ask outside asks =>
      refine served.move (fun k held => ?_) fun k waits => ?_
      · rw [outside] at held
        rcases held with bad | bad | bad <;> cases bad
      · obtain ⟨k', rfl | rfl⟩ := asks <;> rcases waits with bad | bad <;> cases bad
  | grantSet asked free =>
      refine served.move (fun k held => ?_) (by simp)
      rw [asked] at held
      rcases held with bad | bad | bad <;> cases bad
  | @deferSet _ k l asked found busy =>
      refine served.move (fun k held => ?_) fun k' waits => ?_
      · rw [asked] at held
        rcases held with bad | bad | bad <;> cases bad
      · rcases waits with same | bad
        · cases same
          exact deferred k l rfl found busy
        · cases bad
  | store inside found => exact served
  | grantGet asked unlocked =>
      refine served.move (fun k held => ?_) (by simp)
      rw [asked] at held
      rcases held with bad | bad | bad <;> cases bad
  | @deferGet _ k l asked found locked =>
      refine served.move (fun k held => ?_) fun k' waits => ?_
      · rw [asked] at held
        rcases held with bad | bad | bad <;> cases bad
      · rcases waits with bad | same
        · cases bad
        · cases same
          obtain ⟨e, inside⟩ := (exclusive.locked k l found).mp locked
          refine ⟨e, ?_, .inl inside⟩
          intro same
          subst same
          rw [asked] at inside
          cases inside
  | @lose _ k entered absent =>
      refine served.move (fun k' held => ?_) (by simp)
      rw [entered] at held
      rcases held with bad | same | bad
      · cases bad
      · cases same
        refine .inr fun d => ⟨fun waits => ?_, fun waits => ?_⟩
        · exact account.present d k (by rw [waits, needs]) absent
        · exact account.present d k (by rw [waits, needs]) absent
      · cases bad
  | @getLarge _ k l entered found =>
      refine served.move (fun k' held => .inl ?_) (by simp)
      rw [entered] at held
      rcases held with bad | same | bad
      · cases bad
      · cases same
        exact .inr (.inr rfl)
      · cases bad
  | finish leaves => exact served.leave leaves.holds

end Served

/-- Client `c` has not lost a get, and if it waits then for another client that is
inside a granted operation. -/
def Settled (s : Locks N K) (c : Fin N) : Prop :=
  (∀ k, s.pos c ≠ .lost k) ∧
    ∀ k, s.pos c = .waitSet k ∨ s.pos c = .waitGet k → ∃ d, d ≠ c ∧ Holds (s.pos d) k

/-- The request settles its client `c`: a set finds its key held by another client
or no get of it granted after waiting, and a get finds a record. -/
def Serviceable (s : Locks N K) (c : Fin N) : Ask K → Prop
  | .setAsk k => (∃ d, d ≠ c ∧ Holds (s.pos d) k) ∨ s.woken k = 0
  | .get k => s.lock k ≠ none
  | _ => True

section Settled

variable {s s' : Locks N K} {c d : Fin N} {a : Ask K} {k : K} {l : Lock}

omit [DecidableEq K] in
theorem Settled.of_pos (lost : ∀ k, s.pos c ≠ .lost k)
    (waits : ∀ k, s.pos c ≠ .waitSet k ∧ s.pos c ≠ .waitGet k) : s.Settled c := by
  refine ⟨lost, fun k waiting => ?_⟩
  rcases waiting with setter | getter
  · exact absurd setter (waits k).1
  · exact absurd getter (waits k).2

/-- A record that is busy although no get of it was granted after waiting is held by
another client. -/
theorem Account.held_of_busy (account : s.Account) (exclusive : s.Exclusive)
    (asked : s.pos c = .askSet k) (found : s.lock k = some l) (busy : l ≠ ⟨false, 0⟩)
    (unwoken : s.woken k = 0) : ∃ d, d ≠ c ∧ Holds (s.pos d) k := by
  rw [Ne, free_iff account exclusive found, not_and_or, not_forall] at busy
  rcases busy with ⟨d, someone⟩ | counted
  · have different : d ≠ c := by
      intro same
      subst same
      exact someone (by simp [asked])
    rw [not_and_or, not_not, not_not] at someone
    rcases someone with inside | reads
    · exact ⟨d, different, .inl inside⟩
    · exact ⟨d, different, .inr (.inr reads)⟩
  · exact absurd unwoken counted

/-- Which requests settle their client. -/
theorem Step.settled_iff (step : Step c a s s') (account : s.Account)
    (exclusive : s.Exclusive) (active : a ≠ .quiet) : s'.Settled c ↔ s.Serviceable c a := by
  cases step with
  | stay => exact absurd rfl active
  | ask outside asks => exact absurd rfl active
  | @grantSet _ k asked free =>
      refine iff_of_true (.of_pos (by simp) (by simp)) (.inr ?_)
      cases found : s.lock k with
      | none => exact account.unwoken k found
      | some l => exact ((free_iff account exclusive found).mp (free l found)).2
  | @deferSet _ k l asked found busy =>
      constructor
      · intro ⟨_, held⟩
        obtain ⟨d, different, holds⟩ := held k (.inl move_pos_self)
        rw [move_pos_of_ne different] at holds
        exact .inl ⟨d, different, holds⟩
      · intro serviceable
        have held : ∃ d, d ≠ c ∧ Holds (s.pos d) k := by
          rcases serviceable with held | unwoken
          · exact held
          · exact account.held_of_busy exclusive asked found busy unwoken
        obtain ⟨d, different, holds⟩ := held
        refine ⟨by simp, fun k' waits => ⟨d, different, ?_⟩⟩
        rw [move_pos_self] at waits
        rcases waits with same | bad
        · cases same
          rwa [move_pos_of_ne different]
        · cases bad
  | store inside found =>
      exact iff_of_true (.of_pos (by simp [inside]) (by simp [inside])) True.intro
  | grantGet asked unlocked => exact iff_of_true (.of_pos (by simp) (by simp)) True.intro
  | @deferGet _ k l asked found locked =>
      obtain ⟨d, inside⟩ := (exclusive.locked k l found).mp locked
      have different : d ≠ c := by
        intro same
        subst same
        rw [asked] at inside
        cases inside
      refine iff_of_true ⟨by simp, fun k' waits => ⟨d, different, ?_⟩⟩ True.intro
      rw [move_pos_self] at waits
      rcases waits with bad | same
      · cases bad
      · cases same
        rw [move_pos_of_ne different]
        exact .inl inside
  | @lose _ k entered absent =>
      apply iff_of_false (fun settled => settled.1 k move_pos_self)
      exact fun present => present absent
  | @getLarge _ k l entered found =>
      apply iff_of_true (.of_pos (by simp) (by simp))
      rw [Serviceable, found]
      exact Option.some_ne_none l
  | @finish _ _ k l leaves =>
      have gone : ((s.move c .out).wake k l).pos c = .out := by
        rw [wake_pos_of_not_waiting] <;> simp
      apply iff_of_true (.of_pos (by simp [gone]) (by simp [gone]))
      cases leaves <;> exact True.intro

/-- Everybody stays settled, provided that every request settles its client. -/
theorem Settled.step (settled : ∀ d, s.Settled d) (account : s.Account)
    (exclusive : s.Exclusive) (serviceable : s.Serviceable c a) (step : Step c a s s')
    (d : Fin N) : s'.Settled d := by
  constructor
  · intro k lost
    rcases step.pos_lost lost with before | ⟨rfl, absent⟩
    · exact (settled d).1 k before
    · exact serviceable absent
  · have served : s.Served := fun k d waits => (settled d).2 k waits
    refine fun k => served.step account exclusive ?_ step k d
    intro k l same found busy
    subst same
    rcases serviceable with held | unwoken
    · exact held
    · refine account.held_of_busy exclusive ?_ found busy unwoken
      cases step with
      | grantSet asked free => exact asked
      | deferSet asked found busy => exact asked
      | finish leaves => cases leaves

end Settled

end Locks

end RdmaWiki
