import RdmaWiki.FiniteMap
import RdmaWiki.Lib.LibraryCalls

/-!
Who owns a value.

`set_item` takes over the `Value` that it is given and frees the one that it replaces. Here it
is a program over `malloc`, `ibv_dereg_mr` and `free`, and a `Value` is known by its
allocation, so that the calls on a path tell what became of each. Every call keeps the
balance: what is stored, freed and rejected is what was stored and is passed
(`setItems_balance`). So of the values that are passed once each is in one place at every
moment (`values_owned_once`). The list and the heap change as `Database.setItem` says
(`setItem_shows`).
-/

namespace RdmaWiki

open CText LibraryCalls

/-! ## The calls -/

/-- A `Value` that `malloc` has returned: which allocation it is, and its fields. -/
structure Allocated where
  id : ℕ
  value : Value
deriving DecidableEq

/-- The fields of a record that `set_item` reads and writes. -/
structure Row where
  key : Bytes
  value : Option Allocated
  isSet : Bool

inductive DbCall
  | mallocItem
  | mallocNode
  | deregMr (v : Allocated)
  /-- `free((*value)->value)` -/
  | freeBytes (v : Allocated)
  /-- `free(*value)` -/
  | freeValue (v : Allocated)
deriving DecidableEq

/-- A `malloc` returns NULL or not, `ibv_dereg_mr` 0 or an `errno`. -/
abbrev DbCall.Answer : DbCall → Type
  | .mallocItem | .mallocNode => Bool
  | .deregMr _ => Int
  | .freeBytes _ | .freeValue _ => Unit

abbrev DbProgram := Program DbCall DbCall.Answer Empty

abbrev DbEvent := Answered DbCall DbCall.Answer

namespace DbProgram

def lib (call : DbCall) : DbProgram call.Answer := .invoke call

/-- The end of `dealloc_value`. -/
def freeAll (v : Allocated) : DbProgram Ret := do
  let _ ← lib (.freeBytes v)
  let _ ← lib (.freeValue v)
  return .exitSuccess

def deallocValue (v : Allocated) : DbProgram Ret := do
  if v.value.isLarge then
    let errno ← lib (.deregMr v)
    if errno ≠ 0 then return .exitFailure
    else freeAll v
  else freeAll v

def addItem (rows : List Row) (key : Bytes) (value : Option Allocated) :
    DbProgram (Ret × List Row) := do
  let item ← lib .mallocItem
  if item = false then return (.exitFailure, rows)
  else
    let node ← lib .mallocNode
    if node = false then return (.exitFailure, rows)
    else return (.exitSuccess, ⟨key, value, true⟩ :: rows)

/-- The writes of `set_item` to the record that it finds. -/
def replaced (rows : List Row) (key : Bytes) (value : Option Allocated) : List Row :=
  FirstMatch.update Row.key key (fun row => { row with value := value, isSet := true }) rows

def setItem (rows : List Row) (key : Bytes) (value : Option Allocated) :
    DbProgram (Ret × List Row) :=
  match FirstMatch.find Row.key key rows with
  | none => addItem rows key value
  | some row =>
    match row.value with
    | none => return (.exitSuccess, replaced rows key value)
    | some old => do
      let ret ← deallocValue old
      if ret = .exitFailure then return (.exitFailure, rows)
      else return (.exitSuccess, replaced rows key value)

end DbProgram

/-- A call of `set_item`. -/
structure SetCall where
  key : Key
  value : Option Allocated

/-- One `set_item` after the other, with what they return. -/
def setItems (rows : List Row) : List SetCall → DbProgram (List Ret × List Row)
  | [] => return ([], rows)
  | call :: rest => do
    let (ret, rows) ← DbProgram.setItem rows call.key.bytes call.value
    let (rets, rows) ← setItems rows rest
    return (ret :: rets, rows)

/-! ## What a path has done -/

section Counts

variable (v : Allocated)

/-- The records that hold the value. -/
def stored (rows : List Row) : ℕ := rows.countP fun row => row.value = some v

/-- The calls that passed the value. -/
def passed (calls : List SetCall) : ℕ := calls.countP fun call => call.value = some v

/-- The calls that passed the value and returned `EXIT_FAILURE`. -/
def rejected (calls : List SetCall) (rets : List Ret) : ℕ :=
  (calls.zip rets).countP fun done => done.1.value = some v ∧ done.2 = .exitFailure

/-- How often the value was freed. -/
def freed (log : List DbEvent) : ℕ := log.countP fun e => e.1 = .freeValue v

def bytesFreed (log : List DbEvent) : ℕ := log.countP fun e => e.1 = .freeBytes v

def deregCalls (log : List DbEvent) : ℕ := log.countP fun e => e.1 = .deregMr v

/-- How often `ibv_dereg_mr` succeeded for the value. -/
def deregistered (log : List DbEvent) : ℕ :=
  log.countP fun
    | ⟨.deregMr v', errno⟩ => v' = v ∧ errno = 0
    | _ => false

variable (log log' : List DbEvent)

@[simp] theorem freed_append : freed v (log ++ log') = freed v log + freed v log' :=
  List.countP_append

@[simp] theorem bytesFreed_append :
    bytesFreed v (log ++ log') = bytesFreed v log + bytesFreed v log' := List.countP_append

@[simp] theorem deregCalls_append :
    deregCalls v (log ++ log') = deregCalls v log + deregCalls v log' := List.countP_append

@[simp] theorem deregistered_append :
    deregistered v (log ++ log') = deregistered v log + deregistered v log' :=
  List.countP_append

end Counts

/-- The calls of a path release what they release whole: the bytes with the value, after one
successful `ibv_dereg_mr` for a large value and none for a small one. -/
structure Whole (v : Allocated) (log : List DbEvent) : Prop where
  bytes : bytesFreed v log = freed v log
  large : v.value.isLarge = true → deregistered v log = freed v log
  small : v.value.isLarge = false → deregCalls v log = 0

theorem Whole.append {v : Allocated} {log log' : List DbEvent} (whole : Whole v log)
    (whole' : Whole v log') : Whole v (log ++ log') where
  bytes := by rw [bytesFreed_append, freed_append, whole.bytes, whole'.bytes]
  large large := by
    rw [deregistered_append, freed_append, whole.large large, whole'.large large]
  small small := by rw [deregCalls_append, whole.small small, whole'.small small]

/-! ## One call -/

section SetItem

variable {rows rows' : List Row} {key : Bytes} {value : Option Allocated} {log : List DbEvent}
  {ret : Ret}

/-- `dealloc_value` frees nothing, or everything. -/
theorem deallocValue_cases {old : Allocated}
    (path : (DbProgram.deallocValue old).Path log (.ok ret)) :
    (ret = .exitFailure ∧ old.value.isLarge = true ∧
      ∃ errno : Int, errno ≠ 0 ∧ log = [⟨.deregMr old, errno⟩]) ∨
    (ret = .exitSuccess ∧ log = (if old.value.isLarge = true then [⟨.deregMr old, (0 : Int)⟩]
      else []) ++ [⟨.freeBytes old, ()⟩, ⟨.freeValue old, ()⟩]) := by
  have frees {log : List DbEvent} (path : (DbProgram.freeAll old).Path log (.ok ret)) :
      ret = .exitSuccess ∧ log = [⟨.freeBytes old, ()⟩, ⟨.freeValue old, ()⟩] := by
    cases path with
    | call _ path =>
        cases path with
        | call _ path =>
            cases path
            exact ⟨rfl, rfl⟩
  unfold DbProgram.deallocValue at path
  split at path
  next large =>
    cases path with
    | call errno path =>
        simp only at path
        by_cases failed : (errno : Int) ≠ 0
        · rw [Program.bind, if_pos failed] at path
          cases path
          exact .inl ⟨rfl, large, errno, failed, rfl⟩
        · rw [Program.bind, if_neg failed] at path
          obtain ⟨rfl, rfl⟩ := frees path
          rw [if_pos large, not_not.mp failed]
          exact .inr ⟨rfl, rfl⟩
  next small =>
    obtain ⟨rfl, rfl⟩ := frees path
    rw [if_neg small]
    exact .inr ⟨rfl, rfl⟩

/-- What one `set_item` does: a `malloc` or `ibv_dereg_mr` fails and the list stays as it is, or
a record is added, or the value of a record is replaced and the old one, if any, is freed. -/
inductive Sets (rows : List Row) (key : Bytes) (value : Option Allocated) :
    List DbEvent → Ret → List Row → Prop
  | noItem (absent : FirstMatch.find Row.key key rows = none) :
    Sets rows key value [⟨.mallocItem, false⟩] .exitFailure rows
  | noNode (absent : FirstMatch.find Row.key key rows = none) :
    Sets rows key value [⟨.mallocItem, true⟩, ⟨.mallocNode, false⟩] .exitFailure rows
  | added (absent : FirstMatch.find Row.key key rows = none) :
    Sets rows key value [⟨.mallocItem, true⟩, ⟨.mallocNode, true⟩] .exitSuccess
      (⟨key, value, true⟩ :: rows)
  | filled {row : Row} (found : FirstMatch.find Row.key key rows = some row)
    (empty : row.value = none) :
    Sets rows key value [] .exitSuccess (DbProgram.replaced rows key value)
  | kept {row : Row} (found : FirstMatch.find Row.key key rows = some row) {old : Allocated}
    (holds : row.value = some old) (large : old.value.isLarge = true) {errno : Int}
    (failed : errno ≠ 0) :
    Sets rows key value [⟨.deregMr old, errno⟩] .exitFailure rows
  | replaced {row : Row} (found : FirstMatch.find Row.key key rows = some row) {old : Allocated}
    (holds : row.value = some old) :
    Sets rows key value ((if old.value.isLarge = true then [⟨.deregMr old, (0 : Int)⟩] else []) ++
        [⟨.freeBytes old, ()⟩, ⟨.freeValue old, ()⟩]) .exitSuccess
      (DbProgram.replaced rows key value)

/-- Every path of `set_item` is one of these. -/
theorem setItem_sets (path : (DbProgram.setItem rows key value).Path log (.ok (ret, rows'))) :
    Sets rows key value log ret rows' := by
  unfold DbProgram.setItem at path
  split at path
  next absent =>
    unfold DbProgram.addItem at path
    cases path with
    | call item path =>
        cases item with
        | false =>
            cases path
            exact .noItem absent
        | true =>
            cases path with
            | call node path =>
                cases node with
                | false =>
                    cases path
                    exact .noNode absent
                | true =>
                    cases path
                    exact .added absent
  next row found =>
    split at path
    next empty =>
      cases path
      exact .filled found empty
    next old holds =>
      rcases Program.path_bind path with ⟨s, same, -⟩ | ⟨ret₁, before, after, rfl, first, rest⟩
      · cases same
      · rcases deallocValue_cases first with ⟨rfl, large, errno, failed, rfl⟩ | ⟨rfl, rfl⟩
        · cases rest
          exact .kept found holds large failed
        · cases rest
          rw [List.append_nil]
          exact .replaced found holds

/-- The record that is written holds the new value in place of its old one. -/
theorem stored_replaced {row : Row} (found : FirstMatch.find Row.key key rows = some row)
    (value : Option Allocated) (v : Allocated) :
    stored v (DbProgram.replaced rows key value) + (if row.value = some v then 1 else 0) =
      stored v rows + (if value = some v then 1 else 0) := by
  have exchanged : stored v (DbProgram.replaced rows key value) +
      (if decide (row.value = some v) = true then 1 else 0) =
        stored v rows + (if decide (value = some v) = true then 1 else 0) :=
    FirstMatch.countP_update _ found
  simp only [decide_eq_true_eq] at exchanged
  exact exchanged

/-- The calls that `dealloc_value` makes for another value, and for its own. -/
theorem freed_dealloc (v old : Allocated) :
    let log : List DbEvent := (if old.value.isLarge = true then [⟨.deregMr old, (0 : Int)⟩]
      else []) ++ [⟨.freeBytes old, ()⟩, ⟨.freeValue old, ()⟩]
    freed v log = (if some old = some v then 1 else 0) ∧ Whole v log := by
  refine ⟨?_, ?_, fun large => ?_, fun small => ?_⟩
  · cases size : old.value.isLarge <;> simp [freed]
  · cases size : old.value.isLarge <;> simp [bytesFreed, freed, List.countP_cons]
  · by_cases same : old = v
    · subst same
      simp [large, deregistered, freed]
    · cases size : old.value.isLarge <;> simp [deregistered, freed, same]
  · by_cases same : old = v
    · subst same
      simp [small, deregCalls]
    · cases size : old.value.isLarge <;> simp [deregCalls, same]

/-- A call frees what is no longer stored, and rejects what it does not store. -/
theorem Sets.balance (sets : Sets rows key value log ret rows') (v : Allocated) :
    stored v rows' + freed v log + (if value = some v ∧ ret = .exitFailure then 1 else 0) =
        stored v rows + (if value = some v then 1 else 0) ∧ Whole v log := by
  cases sets with
  | noItem absent => exact ⟨by simp [freed], ⟨rfl, fun _ => rfl, fun _ => rfl⟩⟩
  | noNode absent => exact ⟨by simp [freed], ⟨rfl, fun _ => rfl, fun _ => rfl⟩⟩
  | added absent =>
      refine ⟨?_, ⟨rfl, fun _ => rfl, fun _ => rfl⟩⟩
      simp [stored, freed, List.countP_cons]
  | filled found empty =>
      have exchanged := stored_replaced found value v
      refine ⟨?_, ⟨rfl, fun _ => rfl, fun _ => rfl⟩⟩
      rw [empty] at exchanged
      simp [freed] at exchanged ⊢
      omega
  | @kept row found old holds large errno failed =>
      refine ⟨by simp [freed], ?_, fun _ => ?_, fun small => ?_⟩
      · simp [bytesFreed, freed]
      · simp [deregistered, freed, failed]
      · have other : old ≠ v := by
          rintro rfl
          rw [large] at small
          cases small
        simp [deregCalls, other]
  | @replaced row found old holds =>
      have exchanged := stored_replaced found value v
      obtain ⟨frees, whole⟩ := freed_dealloc v old
      refine ⟨?_, whole⟩
      have accepted : ¬ (value = some v ∧ Ret.exitSuccess = .exitFailure) := fun both =>
        Ret.noConfusion both.2
      rw [holds] at exchanged
      rw [frees, if_neg accepted]
      omega

end SetItem

/-! ## Any number of calls -/

section SetItems

variable {rows rows' : List Row} {calls before after : List SetCall} {log : List DbEvent}
  {rets : List Ret}

/-- Where a path of one call and then the others divides. -/
theorem setItems_cons {call : SetCall}
    (path : (setItems rows (call :: calls)).Path log (.ok (rets, rows'))) :
    ∃ ret rets₁ rows₁ log₁ log₂, rets = ret :: rets₁ ∧ log = log₁ ++ log₂ ∧
      (DbProgram.setItem rows call.key.bytes call.value).Path log₁ (.ok (ret, rows₁)) ∧
      (setItems rows₁ calls).Path log₂ (.ok (rets₁, rows')) := by
  rcases Program.path_bind path with ⟨s, same, -⟩ | ⟨⟨ret, rows₁⟩, log₁, log₂, rfl, first, rest⟩
  · cases same
  · rcases Program.path_bind rest with ⟨s, same, -⟩ | ⟨⟨rets₁, rows₂⟩, log₃, log₄, rfl, second, ends⟩
    · cases same
    · cases ends
      rw [List.append_nil]
      exact ⟨ret, rets₁, rows₁, log₁, log₃, rfl, rfl, first, second⟩

/-- The calls so far are a path of their own. -/
theorem setItems_append (path : (setItems rows (before ++ after)).Path log (.ok (rets, rows'))) :
    ∃ rets₁ rows₁ log₁, rets₁ <+: rets ∧ log₁ <+: log ∧
      (setItems rows before).Path log₁ (.ok (rets₁, rows₁)) := by
  induction before generalizing rows log rets with
  | nil => exact ⟨[], rows, [], List.nil_prefix, List.nil_prefix, .done _⟩
  | cons call before ih =>
      obtain ⟨ret, rets₁, rows₁, log₁, log₂, rfl, rfl, first, rest⟩ := setItems_cons path
      obtain ⟨rets₂, rows₂, log₃, ⟨more, rfl⟩, ⟨later, rfl⟩, second⟩ := ih rest
      refine ⟨ret :: rets₂, rows₂, log₁ ++ log₃, ⟨more, rfl⟩, ⟨later, ?_⟩, ?_⟩
      · exact List.append_assoc ..
      · have both : ((setItems rows₁ before).bind fun rest => .done (ret :: rest.1, rest.2) :
            DbProgram (List Ret × List Row)).Path (log₃ ++ []) (.ok (ret :: rets₂, rows₂)) :=
          second.bind (f := fun rest : List Ret × List Row => .done (ret :: rest.1, rest.2))
            (.done (ret :: rets₂, rows₂))
        rw [List.append_nil] at both
        exact first.bind both

/-- What is stored, freed and rejected is what was stored and is passed. -/
theorem setItems_balance (path : (setItems rows calls).Path log (.ok (rets, rows')))
    (v : Allocated) :
    stored v rows' + freed v log + rejected v calls rets = stored v rows + passed v calls ∧
      Whole v log := by
  induction calls generalizing rows log rets with
  | nil =>
      cases path
      exact ⟨rfl, rfl, fun _ => rfl, fun _ => rfl⟩
  | cons call rest ih =>
      obtain ⟨ret, rets₁, rows₁, log₁, log₂, rfl, rfl, first, later⟩ := setItems_cons path
      obtain ⟨step, whole⟩ := (setItem_sets first).balance v
      obtain ⟨steps, whole'⟩ := ih later
      refine ⟨?_, whole.append whole'⟩
      have rejects : rejected v (call :: rest) (ret :: rets₁) =
          rejected v rest rets₁ + (if call.value = some v ∧ ret = .exitFailure then 1 else 0) := by
        simp [rejected, List.countP_cons]
      have passes : passed v (call :: rest) =
          passed v rest + (if call.value = some v then 1 else 0) := by
        simp [passed, List.countP_cons]
      rw [rejects, passes, freed_append]
      omega

/-- No allocation is passed twice. -/
def Fresh (calls : List SetCall) : Prop :=
  ((calls.filterMap SetCall.value).map Allocated.id).Nodup

theorem Fresh.passed_le (fresh : Fresh calls) (v : Allocated) : passed v calls ≤ 1 := by
  have nodup : (calls.filterMap SetCall.value).Nodup := .of_map _ fresh
  have counts : passed v calls = (calls.filterMap SetCall.value).count v := by
    rw [passed, List.count_filterMap]
    congr 1
    funext call
    cases call.value <;> simp [beq_eq_decide]
  rw [counts]
  exact List.nodup_iff_count_le_one.mp nodup v

/-- A value that was passed is stored in one record, was freed once or was rejected. -/
inductive InOnePlace (v : Allocated) (calls : List SetCall) (log : List DbEvent)
    (rets : List Ret) (rows : List Row) : Prop
  | stored (one : stored v rows = 1) (kept : freed v log = 0)
    (accepted : rejected v calls rets = 0)
  | freed (gone : stored v rows = 0) (once : freed v log = 1)
    (accepted : rejected v calls rets = 0)
  | rejected (never : stored v rows = 0) (kept : freed v log = 0)
    (once : rejected v calls rets = 1)

/-- At every moment each value that was passed is in one place, the bytes of a value are freed
with it, `ibv_dereg_mr` has succeeded once for each large value that was freed and was never
called for a small one, and the list leads to no value that was freed. -/
theorem values_owned_once (fresh : Fresh (before ++ after))
    (path : (setItems [] (before ++ after)).Path log (.ok (rets, rows'))) :
    ∃ rets₁ rows₁ log₁, rets₁ <+: rets ∧ log₁ <+: log ∧
      (setItems [] before).Path log₁ (.ok (rets₁, rows₁)) ∧
      (∀ call ∈ before, ∀ v, call.value = some v → InOnePlace v before log₁ rets₁ rows₁) ∧
      (∀ v, bytesFreed v log₁ = freed v log₁ ∧
        (v.value.isLarge = true → deregistered v log₁ = freed v log₁) ∧
        (v.value.isLarge = false → deregCalls v log₁ = 0)) ∧
      ∀ row ∈ rows₁, ∀ v, row.value = some v → freed v log₁ = 0 := by
  obtain ⟨rets₁, rows₁, log₁, done, made, sofar⟩ := setItems_append path
  have once (v : Allocated) : passed v before ≤ 1 := by
    have all := fresh.passed_le v
    rw [passed, List.countP_append] at all
    exact le_of_add_le_left all
  have balance (v : Allocated) : stored v rows₁ + freed v log₁ + rejected v before rets₁ =
      passed v before := by
    have whole := (setItems_balance sofar v).1
    have empty : stored v [] = 0 := rfl
    rw [empty, Nat.zero_add] at whole
    exact whole
  refine ⟨rets₁, rows₁, log₁, done, made, sofar, ?_, ?_, ?_⟩
  · intro call member v value
    have passes : 0 < passed v before :=
      List.countP_pos_iff.mpr ⟨call, member, decide_eq_true value⟩
    have sum := balance v
    have one := once v
    rcases Nat.eq_zero_or_pos (stored v rows₁) with empty | held
    · rcases Nat.eq_zero_or_pos (freed v log₁) with kept | gone
      · exact .rejected empty kept (by omega)
      · exact .freed empty (by omega) (by omega)
    · exact .stored (by omega) (by omega) (by omega)
  · intro v
    obtain ⟨bytes, large, small⟩ := (setItems_balance sofar v).2
    exact ⟨bytes, large, small⟩
  · intro row member v holds
    have held : 0 < stored v rows₁ := List.countP_pos_iff.mpr ⟨row, member, decide_eq_true holds⟩
    have sum := balance v
    have one := once v
    omega

end SetItems

/-! ## The list and the heap -/

/-- The heap after the calls of a path. -/
def heapAfter (mem : Mem) : List DbEvent → Mem
  | [] => mem
  | ⟨.deregMr v, errno⟩ :: log =>
    heapAfter (if (errno : Int) = 0 then mem.dereg v.value.mr else mem) log
  | ⟨.freeBytes v, _⟩ :: log => heapAfter (mem.free v.value.value) log
  | ⟨.mallocItem, _⟩ :: log | ⟨.mallocNode, _⟩ :: log | ⟨.freeValue _, _⟩ :: log =>
    heapAfter mem log

section Shows

variable {N : ℕ} {rows rows' : List Row} {db : Database N} {key : Bytes}
  {value : Option Allocated} {log : List DbEvent} {ret : Ret}

/-- The row is the record without its other fields. -/
structure Row.Shows (row : Row) (item : Item N) : Prop where
  key : row.key = item.key
  value : row.value.map Allocated.value = item.value
  isSet : row.isSet = item.isSet

theorem replaced_shows (shown : List.Forall₂ Row.Shows rows db) :
    List.Forall₂ Row.Shows (DbProgram.replaced rows key value)
      (FirstMatch.update Item.key key
        (fun item => { item with value := value.map Allocated.value, isSet := true }) db) :=
  FirstMatch.update_rel (fun _ _ near => near.key) (fun _ _ near => ⟨near.key, rfl, rfl⟩) shown key

/-- A path of `set_item` changes list and heap as `Database.setItem` does with the outcomes that
the calls have on the path. -/
theorem setItem_shows (shown : List.Forall₂ Row.Shows rows db) (mem : Mem)
    (path : (DbProgram.setItem rows key value).Path log (.ok (ret, rows'))) :
    ∃ (o : Outcomes) (db' : Database N),
      db.setItem (o.env N) mem key (value.map Allocated.value) = (ret, db', heapAfter mem log) ∧
        List.Forall₂ Row.Shows rows' db' := by
  have finds : Option.Rel Row.Shows (FirstMatch.find Row.key key rows) (db.find key) :=
    FirstMatch.find_rel (fun _ _ near => near.key) shown key
  have missing (absent : FirstMatch.find Row.key key rows = none) : db.find key = none := by
    rw [absent] at finds
    cases found : db.find key with
    | none => rfl
    | some item =>
        rw [found] at finds
        cases finds
  have present {row : Row} (found : FirstMatch.find Row.key key rows = some row) :
      ∃ item, db.find key = some item ∧ row.Shows item := by
    rw [found] at finds
    cases has : db.find key with
    | none =>
        rw [has] at finds
        cases finds
    | some item =>
        rw [has] at finds
        cases finds with
        | some near => exact ⟨item, rfl, near⟩
  cases setItem_sets path with
  | noItem absent =>
      refine ⟨⟨false, true, true⟩, db, ?_, shown⟩
      simp [Database.setItem, missing absent, Database.addItem, Outcomes.env, heapAfter]
  | noNode absent =>
      refine ⟨⟨true, false, true⟩, db, ?_, shown⟩
      simp [Database.setItem, missing absent, Database.addItem, Outcomes.env, heapAfter]
  | added absent =>
      refine ⟨⟨true, true, true⟩, ⟨key, value.map Allocated.value, true, 0, fun _ => false,
        fun _ => false⟩ :: db, ?_, .cons ⟨rfl, rfl, rfl⟩ shown⟩
      simp [Database.setItem, missing absent, Database.addItem, Outcomes.env, heapAfter,
        Env.reliable, Junk.zeroed]
  | filled found empty =>
      obtain ⟨item, has, near⟩ := present found
      have none : item.value = none := by rw [← near.value, empty, Option.map_none]
      refine ⟨⟨true, true, true⟩, _, ?_, replaced_shows shown⟩
      simp only [Database.setItem, has, none, Option.map_none, Database.update, heapAfter]
  | @kept row found old holds large errno failed =>
      obtain ⟨item, has, near⟩ := present found
      have some : item.value = some old.value := by rw [← near.value, holds, Option.map_some]
      refine ⟨⟨true, true, false⟩, db, ?_, shown⟩
      simp [Database.setItem, has, some, deallocValue, large, Outcomes.env, heapAfter, failed]
  | @replaced row found old holds =>
      obtain ⟨item, has, near⟩ := present found
      have some : item.value = some old.value := by rw [← near.value, holds, Option.map_some]
      refine ⟨⟨true, true, true⟩, _, ?_, replaced_shows shown⟩
      cases large : old.value.isLarge <;>
      simp [Database.setItem, has, some, deallocValue, large, Outcomes.env, heapAfter,
        Database.update]

end Shows

/-! ## Three values -/

/-- The `id`-th value, of three bytes. -/
def valueOf (id : ℕ) (isLarge : Bool) : Allocated :=
  ⟨id, ⟨id.toUInt64, 3, isLarge, if isLarge then some ⟨0, id.toUInt64⟩ else none⟩⟩

/-- Three sets of one key, a large value between two small ones. -/
def threeSets : List SetCall :=
  [(0, false), (1, true), (2, false)].map fun (id, isLarge) =>
    ⟨⟨⟨ascii ['x'], by decide⟩, by decide⟩, some (valueOf id isLarge)⟩

/-- The second value replaces the first, and the third is rejected because the second cannot be
deregistered. -/
theorem values_owned_once_three : ∃ rets rows log,
    (setItems [] threeSets).Path log (.ok (rets, rows)) ∧
      ∀ call ∈ threeSets, ∀ v, call.value = some v → InOnePlace v threeSets log rets rows := by
  have fresh : Fresh (threeSets ++ []) := by
    unfold Fresh
    decide
  have path : (setItems [] (threeSets ++ [])).Path
      [⟨.mallocItem, true⟩, ⟨.mallocNode, true⟩, ⟨.freeBytes (valueOf 0 false), ()⟩,
        ⟨.freeValue (valueOf 0 false), ()⟩, ⟨.deregMr (valueOf 1 true), (22 : Int)⟩]
      (.ok ([.exitSuccess, .exitSuccess, .exitFailure],
        [⟨ascii ['x'], some (valueOf 1 true), true⟩])) := Program.path_of_replay rfl
  obtain ⟨rets, rows, log, -, -, sofar, places, -⟩ := values_owned_once fresh path
  exact ⟨rets, rows, log, sofar, places⟩

end RdmaWiki
