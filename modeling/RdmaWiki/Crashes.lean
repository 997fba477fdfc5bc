import RdmaWiki.Store

/-!
Which requests crash the server.

A text crashes the parse when a `strtok` call runs out of words. A request that is parsed
crashes its handler when the handler does not find what it goes on to use: `Request.Served`
says what that is, request by request (`handle_isSome_iff`). In a reachable store nothing
else can go wrong, since the heap is in order there (`parseData_isSome_iff`).
-/

namespace RdmaWiki

open CText StepMachine

variable {N : ℕ}

/-- What a handler needs: `server_set_rendezvous` a size that it can allocate and the memory,
the handlers of a FIN the record whose arrays they follow, `g0` a value in a record that is
there. -/
def Request.Served (env : Env N) (db : Database N) : Request → Prop
  | .setAsk _ => True
  | .setEager _ _ => True
  | .setRendezvous _ size => (0 ≤ size ∧ size < intMax) ∧ env.mallocBytes ≠ none
  | .setFin key => db.find key ≠ none
  | .getAsk _ => True
  | .get key => ∀ item, db.find key = some item → item.value ≠ none
  | .getFin key => db.find key ≠ none

section Handlers

variable {env : Env N} {db : Database N} {mem : Mem} {w : World N} {key : Bytes} {c : Fin N}

/-- `server_pending` follows the arrays of its record. -/
theorem serverPending_isSome_iff :
    (serverPending env w key).isSome ↔ w.db.find key ≠ none := by
  cases found : w.db.find key with
  | none => simp [serverPending, Database.setQuery, found]
  | some item =>
      obtain ⟨ret, w', pending, -⟩ := serverPending_spec env found
      simp [pending]

/-- A writer adds no record and removes none. -/
theorem Database.update_ne_none_iff {change : Item N → Item N}
    (keeps : ∀ item, (change item).key = item.key) :
    (db.update key change).2.find key ≠ none ↔ db.find key ≠ none := by
  cases found : db.find key with
  | none => rw [Database.update_absent found, found]
  | some item =>
      rw [(Database.find_update keeps found).2, Function.update_self]
      simp

theorem serverSetFin_isSome_iff :
    (serverSetFin env w key c).isSome ↔ w.db.find key ≠ none := by
  have pending : (serverPending env { w with db := (w.db.removeInSet key).2 } key).isSome ↔
      w.db.find key ≠ none := by
    rw [serverPending_isSome_iff]
    exact Database.update_ne_none_iff fun _ => rfl
  rw [← pending]
  simp only [serverSetFin]
  cases serverPending env { w with db := (w.db.removeInSet key).2 } key with
  | none => exact Iff.rfl
  | some done =>
      obtain ⟨ret, w'⟩ := done
      cases ret with
      | exitSuccess => exact Iff.rfl
      | exitFailure => exact Iff.rfl

theorem serverGetFin_isSome_iff :
    (serverGetFin env w key c).isSome ↔ w.db.find key ≠ none := by
  have pending : (serverPending env { w with db := (w.db.removeNumInGet key).2 } key).isSome ↔
      w.db.find key ≠ none := by
    rw [serverPending_isSome_iff]
    exact Database.update_ne_none_iff fun _ => rfl
  rw [← pending]
  simp only [serverGetFin]
  cases serverPending env { w with db := (w.db.removeNumInGet key).2 } key with
  | none => exact Iff.rfl
  | some done =>
      obtain ⟨ret, w'⟩ := done
      cases ret with
      | exitSuccess => exact Iff.rfl
      | exitFailure => exact Iff.rfl

/-- `se` creates the record whose arrays it follows. -/
theorem parseDataSe_isSome (value : Bytes) : (parseDataSe env w key value c).isSome = true := by
  unfold parseDataSe
  split
  next => rfl
  next addr _ =>
    unfold serverSetEager
    split
    next => rfl
    next =>
      cases failed : w.db.setItemFails env key with
      | true =>
          rw [setItem_fails failed]
          rfl
      | false =>
          obtain ⟨db, stored, find⟩ := setItem_succeeds failed (w.mem.alloc addr (value ++ [0]))
            (some ⟨addr, value.length, false, none⟩)
          rw [stored]
          apply serverSetFin_isSome_iff.mpr
          rw [find, Function.update_self]
          exact Option.some_ne_none _

theorem serverSetRendezvous_isSome_iff {size : Int} :
    (serverSetRendezvous env w c key size).isSome ↔
      (0 ≤ size ∧ size < intMax) ∧ env.mallocBytes ≠ none := by
  unfold serverSetRendezvous
  by_cases outside : size < 0 ∨ intMax ≤ size
  · rw [if_pos outside]
    simp only [Option.isSome_none, Bool.false_eq_true, false_iff]
    intro served
    omega
  · have inside : 0 ≤ size ∧ size < intMax := by omega
    rw [if_neg outside]
    cases env.mallocBytes with
    | none => simp
    | some addr =>
        simp only [inside, and_self, ne_eq, reduceCtorEq, not_false_eq_true, iff_true]
        split
        next => rfl
        next =>
          split
          next => rfl
          next =>
            split
            next => rfl
            next => rfl

/-- `g0` follows the value pointer of a record that it finds. -/
theorem parseDataG0_isSome_iff (heap : Heap db.find mem) {sent : List (Fin N × Reply)} :
    (parseDataG0 env ⟨db, mem, sent⟩ key c).isSome ↔
      ∀ item, db.find key = some item → item.value ≠ none := by
  unfold parseDataG0
  cases found : db.find key with
  | none => simp [Database.getValue, found]
  | some item =>
      cases stored : item.value with
      | none => simp [Database.getValue, found, stored]
      | some value =>
          have held := heap.held key item value found stored
          simp only [Database.getValue, found, stored, Option.some.injEq, forall_eq', ne_eq,
            reduceCtorEq, not_false_eq_true, iff_true]
          split
          next =>
            obtain ⟨bytes, block⟩ := held.block
            simp only [serverGetEager, block]
            split
            next => rfl
            next w sent =>
              apply serverGetFin_isSome_iff.mpr
              rw [(sendDataStr_heap sent).1]
              apply (Database.update_ne_none_iff _).mpr
              · rw [found]
                exact Option.some_ne_none item
              · exact fun _ => rfl
          next large =>
            obtain ⟨rkey, n, body, registered, -⟩ := held.large (by simpa using large)
            simp only [serverGetRendezvous, registered]
            split
            next => rfl
            next => rfl

/-- A handler returns exactly when it finds what it needs. -/
theorem handle_isSome_iff (heap : Heap db.find mem) {r : Request} :
    (handle env ⟨db, mem, []⟩ c r).isSome ↔ r.Served env db := by
  cases r with
  | setAsk key => simp [handle, Request.Served]
  | setEager key value => simp [handle, Request.Served, parseDataSe_isSome]
  | setRendezvous key size => exact serverSetRendezvous_isSome_iff
  | setFin key => exact serverSetFin_isSome_iff
  | getAsk key => simp [handle, Request.Served]
  | get key => exact parseDataG0_isSome_iff heap
  | getFin key => exact serverGetFin_isSome_iff

end Handlers

/-- In a reachable store the server survives a text in a buffer exactly when the text is
complete and the request that it reads finds what it needs. -/
theorem parseData_isSome_iff {sent : List (Fin N × Reply)} {db : Database N} {mem : Mem}
    (run : (store N).Run fitting sent (db, mem)) (env : Env N) {buf : Bytes}
    (message : InBuffer buf) (c : Fin N) :
    (parseData env ⟨db, mem, []⟩ buf c).isSome ↔
      Complete (words colon (text buf)) ∧
        ∀ r, parseRequest buf = .request r → r.Served env db := by
  have crash := parseRequest_crash_iff message.2
  unfold parseData
  cases parsed : parseRequest buf with
  | crash => simp [crash.mp parsed]
  | reject =>
      have complete : Complete (words colon (text buf)) := by
        by_contra incomplete
        rw [crash.mpr incomplete] at parsed
        cases parsed
      simp [complete]
  | request r =>
      have complete : Complete (words colon (text buf)) := by
        by_contra incomplete
        rw [crash.mpr incomplete] at parsed
        cases parsed
      simp only [complete, Parsed.request.injEq, forall_eq', true_and]
      exact handle_isSome_iff (store_heap run)

/-- A value that was set before it is asked for. -/
theorem stored_get_isSome :
    ∃ (sent : List (Fin numClients × Reply)) (db : Database numClients) (mem : Mem),
      (store numClients).Run fitting sent (db, mem) ∧
        (parseData (.reliable numClients 1 0) ⟨db, mem, []⟩
          (onWire (flagKey .g0 keyK.bytes)) 0).isSome ∧ db.find keyK.bytes ≠ none := by
  have met : fitting [] (store numClients).init
      (.request (.reliable numClients 0 0) (onWire (flagKeyText .se keyK.bytes valueV.bytes)) 0) :=
    ⟨Env.fits_reliable rfl 0, by decide⟩
  have run : (store numClients).Run fitting _ (_, _) := .step .init met rfl
  refine ⟨_, _, _, run, ?_, by decide⟩
  refine (parseData_isSome_iff run _ (by decide) 0).mpr ⟨⟨by decide, fun flag => ?_⟩, ?_⟩
  · cases flag <;> decide
  · intro r parsed
    have gets : parseRequest (onWire (flagKey .g0 keyK.bytes)) = .request (.get keyK.bytes) := by
      decide
    cases gets.symm.trans parsed
    intro item found
    cases found
    exact Option.some_ne_none _

/-- The ask of a set of the empty key has no key word. -/
theorem empty_key_crashes : ¬ ∀ (N : ℕ) (sent : List (Fin N × Reply)) (db : Database N) (mem : Mem),
    (store N).Run fitting sent (db, mem) → ∀ env : Env N, env.Fits mem → ∀ buf (c : Fin N),
      InBuffer buf → (parseData env ⟨db, mem, []⟩ buf c).isSome := by
  intro survives
  have handled := survives numClients [] _ _ .init (.reliable numClients 0 0)
    (Env.fits_reliable rfl 0) (onWire (flagKey .as [])) 0 (by decide)
  have crash : parseRequest (onWire (flagKey .as [])) = .crash := by decide
  simp only [parseData, crash] at handled
  cases handled

end RdmaWiki
