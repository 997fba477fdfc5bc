import RdmaWiki.Heap

/-!
The server's store by itself.

The clients of `protocol` send what `kv_set` and `kv_get` format, and there no call of the
server fails. In `store` a buffer holds any text, every call of the server may fail, and
`malloc` leaves anything in the memory it returns. The list repeats no key and the heap is
in order in every state that is reached so, too (`store_distinct`, `store_heap`), and every
state of the protocol is one of these (`store_of_run`).
-/

namespace RdmaWiki

open CText StepMachine

variable {N : ℕ}

/-- A request of a client is handled, or a client writes by RDMA. -/
inductive StoreAction (N : ℕ)
  | request (env : Env N) (buf : Bytes) (c : Fin N)
  | rdmaWrite (addr : UInt64) (rkey : UInt32) (data : Bytes)

/-- The server's records and heap under requests and RDMA writes; the messages that are
sent are visible. A request that crashes the server is no step. -/
def store (N : ℕ) : Machine (Database N × Mem) (StoreAction N) (Fin N × Reply) where
  init := ([], ⟨fun _ => none, fun _ => none⟩)
  next
    | (db, mem), .request env buf c =>
      (parseData env ⟨db, mem, []⟩ buf c).map fun handled =>
        ((handled.2.db, handled.2.mem), handled.2.sent)
    | (db, mem), .rdmaWrite addr rkey data => some ((db, mem.rdmaWrite addr rkey data), [])

/-- A text with its NUL in the buffer of a client. -/
def InBuffer (buf : Bytes) : Prop := (0 : UInt8) ∈ buf ∧ buf.length ≤ bufSize

instance (buf : Bytes) : Decidable (InBuffer buf) := inferInstanceAs (Decidable (_ ∧ _))

/-- Requests are texts in a buffer, and `malloc` returns memory that is not in use. -/
def fitting : Guard (Database N × Mem) (StoreAction N) (Fin N × Reply)
  | _, (_, mem), .request env buf _ => env.Fits mem ∧ InBuffer buf
  | _, _, .rdmaWrite _ _ _ => True

section Store

variable {db db' : Database N} {mem mem' : Mem} {sent replies : List (Fin N × Reply)}
  {env : Env N} {buf : Bytes} {c : Fin N} {w : World N} {ret : Ret}

/-- A text that is not understood changes nothing. -/
theorem parseData_cases (served : parseData env ⟨db, mem, []⟩ buf c = some (ret, w)) :
    (parseRequest buf = .reject ∧ ret = .exitFailure ∧ w = ⟨db, mem, []⟩) ∨
      ∃ r, parseRequest buf = .request r ∧ handle env ⟨db, mem, []⟩ c r = some (ret, w) := by
  unfold parseData at served
  cases parsed : parseRequest buf with
  | crash =>
      rw [parsed] at served
      cases served
  | reject =>
      rw [parsed] at served
      cases served
      exact .inl ⟨rfl, rfl, rfl⟩
  | request r =>
      rw [parsed] at served
      exact .inr ⟨r, rfl, served⟩

theorem store_request
    (next : (store N).next (db, mem) (.request env buf c) = some ((db', mem'), replies)) :
    ∃ ret w, parseData env ⟨db, mem, []⟩ buf c = some (ret, w) ∧ w = ⟨db', mem', replies⟩ := by
  obtain ⟨⟨ret, w⟩, served, same⟩ := Option.map_eq_some_iff.mp next
  cases same
  exact ⟨ret, w, served, rfl⟩

/-- The list repeats no key, whatever is sent and whatever fails. -/
theorem store_distinct (run : (store N).Run fitting sent (db, mem)) : db.Distinct := by
  refine run.invariant (fun _ state => state.1.Distinct) List.nodup_nil ?_
  intro sent ⟨db, mem⟩ action ⟨db', mem'⟩ replies _ distinct met next
  cases action with
  | request env buf c =>
      obtain ⟨ret, w, served, rfl⟩ := store_request next
      rcases parseData_cases served with ⟨-, -, same⟩ | ⟨r, -, handled⟩
      · cases same
        exact distinct
      · exact handle_distinct (w := ⟨db, mem, []⟩) distinct handled
  | rdmaWrite addr rkey data =>
      cases next
      exact distinct

/-- The heap is in order, whatever is sent and whatever fails. -/
theorem store_heap (run : (store N).Run fitting sent (db, mem)) : Heap db.find mem := by
  refine run.invariant (fun _ state => Heap state.1.find state.2) ?_ ?_
  · exact ⟨fun _ _ _ found => (by cases found), fun _ _ _ _ _ _ found => (by cases found)⟩
  · intro sent ⟨db, mem⟩ action ⟨db', mem'⟩ replies _ heap met next
    cases action with
    | request env buf c =>
        obtain ⟨ret, w, served, rfl⟩ := store_request next
        rcases parseData_cases served with ⟨-, -, same⟩ | ⟨r, -, handled⟩
        · cases same
          exact heap
        · exact heap.handle (w := ⟨db, mem, []⟩) met.1 handled
    | rdmaWrite addr rkey data =>
        cases next
        exact heap.rdmaWrite data

end Store

/-! ## The states of the protocol -/

/-- What goes on the wire fits where its text with its NUL fitted. -/
theorem inBuffer_onWire {buf : Bytes} (terminated : (0 : UInt8) ∈ buf)
    (short : buf.length ≤ bufSize) : InBuffer (onWire buf) := by
  refine ⟨List.mem_append_right _ (List.mem_singleton.mpr rfl), ?_⟩
  have cut := length_text_lt terminated
  rw [onWire, List.length_append, List.length_singleton]
  omega

theorem inBuffer_flagKey {flag : Flag} {key : Bytes} (short : key.length + 6 ≤ bufSize) :
    InBuffer (onWire (flagKey flag key)) :=
  inBuffer_onWire (by simp [flagKey]) (by rw [length_flagKey]; exact short)

theorem inBuffer_flagKeyText {flag : Flag} {key x : Bytes}
    (short : key.length + x.length + 6 ≤ bufSize) :
    InBuffer (onWire (flagKeyText flag key x)) :=
  inBuffer_onWire (by simp [flagKeyText]) (by rw [length_flagKeyText]; exact short)

/-- The texts of a call fit the buffer they are sent to. -/
theorem Client.Shape.inBuffer {cl : Client} (shape : cl.Shape) {buf : Bytes} {rest : List Bytes}
    (queue : cl.requests = buf :: rest)
    (fits : ∀ call, cl.phase.call = some call → call.fits = true) : InBuffer buf := by
  cases shape with
  | @setAsk key value =>
      cases queue
      have fits := fits _ rfl
      simp only [Call.fits, Bool.and_eq_true, decide_eq_true_iff, length_flagKey] at fits
      exact inBuffer_flagKey fits.1
  | @setEager key value k named eager =>
      cases queue
      have fits := fits _ rfl
      simp only [Call.fits, eager, if_true, Bool.and_eq_true, decide_eq_true_iff,
        length_flagKeyText] at fits
      exact inBuffer_flagKeyText fits.2
  | @setSize key value k named large =>
      cases queue
      have fits := fits _ rfl
      simp only [Call.fits, large, Bool.false_eq_true, if_false, Bool.and_eq_true,
        decide_eq_true_iff, length_flagKeyText] at fits
      exact inBuffer_flagKeyText fits.2.1
  | @setFin key value =>
      cases queue
      have fits := fits _ rfl
      simp only [Call.fits, Bool.and_eq_true, decide_eq_true_iff, length_flagKey] at fits
      exact inBuffer_flagKey fits.1
  | @getAsk key | @get key | @getFin key =>
      cases queue
      have fits := fits _ rfl
      simp only [Call.fits, decide_eq_true_iff, length_flagKey] at fits
      exact inBuffer_flagKey fits
  | idle | setWait | setGranted | setRefused | setEagerDone | setRegion | setWrite | setDone |
    getWait | getGranted | getLost | getEagerSent | getEager | getSizeSent | getRegion |
    getRead | getDone => cases queue

end RdmaWiki
