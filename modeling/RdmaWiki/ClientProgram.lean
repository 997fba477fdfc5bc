import RdmaWiki.Lib.Prefixes
import RdmaWiki.Positions
import RdmaWiki.Truthful

/-!
The client of the system is the program of `client.c`.

`clientLoop` runs `kv_set` and `kv_get` step by step over a completion queue and a buffer, and no
call of the library fails in it. `Call.api` is the text of the two functions, whatever the library
answers. Here the first is shown to be the second where nothing fails: in every run, what the
client has posted and looked at since a call began is what a path of the program posts and looks
at, and when the call returns, the path ends with its result (`explained_of_run`). So a result
that the system shows is one that the program has.

The two part where the program uses a size that it has no room for (`sizesFit`).
-/

namespace RdmaWiki

open CText StepMachine LibraryCalls

/-! ## Calls with their works and looks -/

/-- The RDMA operation of a phase. -/
def Phase.work : Phase → Option Work
  | .setWrite _ value rkey addr => some (.write value.bytes rkey addr)
  | .getRead _ n rkey addr => some (.read n.toNat rkey addr)
  | _ => none

/-- The work request that a step posts. -/
def ClientState.posts (s : ClientState) : ClientAction → List Work
  | .step _ =>
    match s.stage with
    | .post request => [.send request]
    | .rdma => s.phase.work.toList
    | _ => []
  | _ => []

/-- The buffer, where a step looks at it. -/
def ClientEvent.look : ClientEvent → Option Bytes
  | .read _ _ buf => some buf
  | _ => none

def ClientEvent.result : ClientEvent → Option (Call × Result)
  | .returned call result => some (call, result)
  | _ => none

/-- What the call in progress has done. -/
structure CallRecord where
  works : List Work
  looks : List Bytes
deriving DecidableEq

structure ReturnedCall where
  call : Call
  result : Result
  works : List Work
  looks : List Bytes
deriving DecidableEq

def CallRecord.add (r : CallRecord) (works : List Work) (events : List ClientEvent) : CallRecord :=
  ⟨r.works ++ works, r.looks ++ events.filterMap ClientEvent.look⟩

/-- The client loop with a record of its call. A call is shown when it returns. -/
def clientCalls : Machine (ClientState × CallRecord) ClientAction ReturnedCall where
  init := (clientLoop.init, ⟨[], []⟩)
  next s action :=
    (s.1.next action).map fun (s', events) =>
      let record := s.2.add (s.1.posts action) events
      match events.filterMap ClientEvent.result with
      | [] => ((s', record), [])
      | results => ((s', ⟨[], []⟩), results.map fun (call, result) =>
          ⟨call, result, record.works, record.looks⟩)

/-- What the program returns, and what it leaves in `*value`. -/
def Result.out : Result → Ret × Option Bytes
  | .stored | .refused => (.exitSuccess, none)
  | .value v => (.exitSuccess, some v)

/-- A size that `client_get_rendezvous` makes room for. -/
def sizesFit : Guard (ClientState × CallRecord) ClientAction ReturnedCall
  | _, s, .step _ => s.1.stage = .reading →
    ∀ n, s.1.phase.reads s.1.conn.buf = some (.size n) → 0 ≤ n ∧ n < intMax
  | _, _, _ => True

/-! ## The program between its calls -/

namespace Api

/-- The program goes on to `q`. Nothing fails, and on the way it posts `works` and looks at
`looks`. -/
def Passes {α : Type} (works : List Work) (looks : List Bytes) (p q : Api α) : Prop :=
  ∃ log, (∀ e ∈ log, Fine e) ∧ posted log = works ∧ seen log = looks ∧ p.Leads log q

section Passes

variable {α β : Type} {works works' : List Work} {looks looks' : List Bytes} {p q t : Api α}

theorem Passes.refl (p : Api α) : Passes [] [] p p :=
  ⟨[], fun _ none => absurd none List.not_mem_nil, rfl, rfl, .refl p⟩

theorem Passes.trans (first : Passes works looks p q) (second : Passes works' looks' q t) :
    Passes (works ++ works') (looks ++ looks') p t := by
  obtain ⟨log, fine, posts, sees, leads⟩ := first
  obtain ⟨log', fine', posts', sees', leads'⟩ := second
  refine ⟨log ++ log', ?_, ?_, ?_, leads.trans leads'⟩
  · intro e member
    rcases List.mem_append.mp member with earlier | later
    · exact fine e earlier
    · exact fine' e later
  · rw [posted_append, posts, posts']
  · rw [seen_append, sees, sees']

/-- A step that shows nothing, before others. -/
theorem Passes.before (second : Passes works looks q t) (first : Passes [] [] p q) :
    Passes works looks p t := first.trans second

/-- A step that shows nothing, after others. -/
theorem Passes.after (first : Passes works looks p q) (second : Passes [] [] q t) :
    Passes works looks p t := by
  have both := first.trans second
  rwa [List.append_nil, List.append_nil] at both

theorem Passes.bind (first : Passes works looks p q) (f : α → Api β) :
    Passes works looks (p >>= f) (q >>= f) := by
  obtain ⟨log, fine, posts, sees, leads⟩ := first
  exact ⟨log, fine, posts, sees, leads.bind f⟩

theorem passes_lib {c : LibCall} (r : c.Answer) (fine : Fine ⟨c, r⟩) (f : c.Answer → Api α) :
    Passes (posted [⟨c, r⟩]) (seen [⟨c, r⟩]) (lib c >>= f) (f r) := by
  refine ⟨[⟨c, r⟩], ?_, rfl, rfl, .call r (.refl _)⟩
  intro e member
  rw [List.mem_singleton.mp member]
  exact fine

/-- A wait that takes one completion. -/
theorem passes_wait (awaits : Awaits) (n : ℕ) (f : Ret → Api α) :
    Passes [] [] (ppWaitCompletions awaits 1 (n + 1) 0 >>= f) (f .exitSuccess) := by
  have ends : ppWaitCompletions awaits 1 n 1 = .done .exitSuccess :=
    ppWaitCompletions_enough awaits n le_rfl
  have taken : Passes [] [] (ppWaitCompletions awaits 1 (n + 1) 0) (.done .exitSuccess) := by
    rw [ppWaitCompletions_succ _ _ _ _ (by decide), ← ends]
    exact passes_lib (c := .poll awaits) (Polled.taken [.success .send])
      (by simp [ApiEvent.failed, Polled.isFailure]) _
  exact taken.bind f

end Passes

section Parts

variable (n : ℕ)

/-- `send_data_str` after its post. -/
def sendWait : Api Ret := do
  let ret ← ppWaitCompletions .send 1 n 0
  if ret = .exitFailure then return .exitFailure
  else return .exitSuccess

/-- The end of a call that gives no value. -/
def ofSet (p : Api Ret) : Api (Ret × Option Bytes) := do
  let ret ← p
  return (ret, none)

/-- `kv_set` while `client_set_eager` or `client_set_rendezvous` runs. -/
def storing (p : Api Ret) : Api (Ret × Option Bytes) :=
  ofSet do
    let ret ← p
    if ret = .exitFailure then return .exitFailure
    else
      let _ ← ppWaitCompletions .reply 1 n 0
      return .exitSuccess

/-- `kv_get` while `client_get_rendezvous` runs. -/
def fetching (p : Api (Ret × Option Bytes)) : Api (Ret × Option Bytes) := do
  let (ret, value) ← p
  if ret = .exitFailure then return (.exitFailure, none)
  else
    let _ ← ppWaitCompletions .reply 1 n 0
    return (.exitSuccess, value)

/-- `client_get_rendezvous` from its FIN on. -/
def fetchEnd (key : CString) (size : Int) : Api (Ret × Option Bytes) := do
  let ret ← finishRendezvous n (flagKey .fg key.bytes)
  if ret = .exitFailure then return (.exitFailure, none)
  else
    let bytes ← lib (.valueBuf size.toNat)
    return (.exitSuccess, some (text (bytes ++ [0])))

/-- `kv_get` from its second request on. -/
def getValue (key : CString) : Api (Ret × Option Bytes) := do
  let buf ← sprintf (flagKey .g0 key.bytes)
  let ret ← sendDataStr n buf
  if ret = .exitFailure then return (.exitFailure, none)
  else
    let _ ← ppWaitCompletions .reply 1 n 0
    let contents ← lib .contents
    if contents.head? = some 'e'.toUInt8 then
      let buf := text (contents.drop 2)
      let copy ← lib (.malloc .copy (buf.length + 1))
      if copy = false then .stop .undefined
      else
        let _ ← ppWaitCompletions .reply 1 n 0
        return (.exitSuccess, some buf)
    else
      match readSize (text contents) with
      | some (.size size) => fetching n (clientGetRendezvous n key size)
      | _ => .stop .undefined

/-- The program where the last wait of a phase is over. -/
def onward : Phase → Api (Ret × Option Bytes)
  | .idle | .setEager _ _ | .setFin _ _ => return (.exitSuccess, none)
  | .getEager _ v | .getFin _ v => return (.exitSuccess, some v)
  | .setAsk key value => do
    let contents ← lib .contents
    if contents.head? = some 'F'.toUInt8 then return (.exitSuccess, none)
    else storing n (if isEager value.bytes then clientSetEager n key value
      else clientSetRendezvous n key value)
  | .setRendezvous key value => do
    let contents ← lib .contents
    match readRegion (text contents) with
    | some (.region rkey rAddr) =>
      let errno ← ppPostRdmaWrite value.bytes rAddr rkey
      if errno = 1 then return (.exitFailure, none)
      else
        let _ ← ppWaitCompletions .access 1 n 0
        storing n (finishRendezvous n (flagKey .fs key.bytes))
    | _ => .stop .undefined
  | .setWrite key _ _ _ => storing n (finishRendezvous n (flagKey .fs key.bytes))
  | .getAsk key => getValue n key
  | .get key => do
    let contents ← lib .contents
    if contents.head? = some 'e'.toUInt8 then
      let buf := text (contents.drop 2)
      let copy ← lib (.malloc .copy (buf.length + 1))
      if copy = false then .stop .undefined
      else
        let _ ← ppWaitCompletions .reply 1 n 0
        return (.exitSuccess, some buf)
    else
      match readSize (text contents) with
      | some (.size size) => fetching n (clientGetRendezvous n key size)
      | _ => .stop .undefined
  | .getRendezvous key size => do
    let contents ← lib .contents
    match readRegion (text contents) with
    | some (.region rkey rAddr) =>
      let errno ← ppPostRdmaRead size.toNat rAddr rkey
      if errno = 1 then return (.exitFailure, none)
      else
        let _ ← ppWaitCompletions .access 1 n 0
        fetching n (fetchEnd n key size)
    | _ => .stop .undefined
  | .getRead key size _ _ => fetching n (fetchEnd n key size)

/-- The wait for the reply of a phase. -/
def awaiting (phase : Phase) : Api (Ret × Option Bytes) :=
  ppWaitCompletions .reply 1 n 0 >>= fun _ => onward n phase

end Parts

/-- The program at a stage of a phase. A send and an RDMA operation are followed by `f`, which
leads to the next wait. -/
inductive Stands (n : ℕ) (phase : Phase) : ClientStage → Api (Ret × Option Bytes) → Prop
  | post (buf : Bytes) (f : Ret → Api (Ret × Option Bytes)) (wants : phase.wants ≠ [])
    (goes : Passes [] [] (f .exitSuccess) (awaiting n phase)) :
    Stands n phase (.post (onWire buf)) (sendDataStr n buf >>= f)
  | sent (f : Ret → Api (Ret × Option Bytes)) (wants : phase.wants ≠ [])
    (goes : Passes [] [] (f .exitSuccess) (awaiting n phase)) :
    Stands n phase .posted (sendWait n >>= f)
  | rdma (work : Work) (f : Int → Api (Ret × Option Bytes)) (is : phase.work = some work)
    (goes : Passes [] [] (f 0) (ppWaitCompletions .access 1 n 0 >>= fun _ => onward n phase)) :
    Stands n phase .rdma (lib (.post work) >>= f)
  | access (none : phase.wants = []) :
    Stands n phase .posted (ppWaitCompletions .access 1 n 0 >>= fun _ => onward n phase)
  | awaiting : Stands n phase .awaiting (awaiting n phase)
  | reading : Stands n phase .reading (onward n phase)
  | lost : Stands n phase .lost (.stop .undefined)

/-! ## The phases -/

section Phases

variable {n : ℕ} {key value : CString} {α : Type}

theorem ofSet_bind (p : Api α) (f : α → Api Ret) : ofSet (p >>= f) = p >>= fun a => ofSet (f a) :=
  Program.bind_assoc p f _

theorem storing_bind (p : Api α) (f : α → Api Ret) :
    storing n (p >>= f) = p >>= fun a => storing n (f a) :=
  (congrArg ofSet (Program.bind_assoc p f _)).trans (ofSet_bind p _)

theorem fetching_bind (p : Api α) (f : α → Api (Ret × Option Bytes)) :
    fetching n (p >>= f) = p >>= fun a => fetching n (f a) :=
  Program.bind_assoc p f _

theorem sprintf_fits {text : Bytes} (fits : text.length ≤ bufSize) : sprintf text = .done text :=
  if_pos fits

/-- What follows the store of a value. -/
theorem storing_done : storing n (.done .exitSuccess) =
    ppWaitCompletions .reply 1 n 0 >>= fun _ => .done (.exitSuccess, none) := by
  change ofSet (ppWaitCompletions .reply 1 n 0 >>= fun _ => .done .exitSuccess) = _
  exact ofSet_bind _ _

theorem passes_deregMr (f : Int → Api α) : Passes [] [] (lib .deregMr >>= f) (f 0) :=
  passes_lib (c := .deregMr) (0 : Int) (by decide) f

theorem passes_regMr (f : Bool → Api α) : Passes [] [] (lib .regMr >>= f) (f true) :=
  passes_lib (c := .regMr) true (by decide) f

theorem passes_malloc (chunk : Chunk) (size : ℕ) (f : Bool → Api α) :
    Passes [] [] (lib (.malloc chunk size) >>= f) (f true) :=
  passes_lib (c := .malloc chunk size) true (by simp [ApiEvent.failed]) f

theorem passes_contents (buf : Bytes) (f : Bytes → Api α) :
    Passes [] [buf] (lib .contents >>= f) (f buf) :=
  passes_lib (c := .contents) buf (by simp [ApiEvent.failed]) f

/-- The FIN of a set. -/
theorem stands_setFin (fits : (flagKey .fs key.bytes).length ≤ bufSize) :
    Stands n (.setFin key value) (.post (onWire (flagKey .fs key.bytes)))
      (storing n (finishRendezvous n (flagKey .fs key.bytes))) := by
  rw [finishRendezvous, sprintf_fits fits]
  change Stands _ _ _ (storing n (sendDataStr n _ >>= _))
  rw [storing_bind]
  refine .post _ _ (List.cons_ne_nil _ _) ?_
  change Passes [] [] (storing n (lib .deregMr >>= _)) _
  rw [storing_bind]
  refine (passes_deregMr _).after ?_
  change Passes [] [] (storing n (.done .exitSuccess)) _
  rw [storing_done]
  exact .refl _

/-- The FIN of a get, whatever was read. -/
theorem stands_getFin (fits : (flagKey .fg key.bytes).length ≤ bufSize) (size : Int)
    (bytes : Bytes) :
    Stands n (.getFin key (text (bytes ++ [0]))) (.post (onWire (flagKey .fg key.bytes)))
      (fetching n (fetchEnd n key size)) := by
  rw [fetchEnd, finishRendezvous, sprintf_fits fits]
  change Stands _ _ _ (fetching n ((sendDataStr n _ >>= _) >>= _))
  rw [fetching_bind]
  change Stands _ _ _ (Program.bind (Program.bind _ _) _)
  rw [Program.bind_assoc]
  refine .post _ _ (List.cons_ne_nil _ _) ?_
  change Passes [] [] ((lib .deregMr >>= _) >>= _) _
  refine ((passes_deregMr _).bind _).after ?_
  change Passes [] [] (fetching n (lib (.valueBuf size.toNat) >>= _)) _
  rw [fetching_bind]
  exact passes_lib (c := .valueBuf size.toNat) bytes (by simp [ApiEvent.failed]) _

theorem stands_setEager (fits : (flagKeyText .se key.bytes value.bytes).length ≤ bufSize) :
    Stands n (.setEager key value) (.post (onWire (flagKeyText .se key.bytes value.bytes)))
      (storing n (clientSetEager n key value)) := by
  rw [clientSetEager, sprintf_fits fits]
  change Stands _ _ _ (storing n (sendDataStr n _ >>= _))
  rw [storing_bind]
  refine .post _ _ (List.cons_ne_nil _ _) ?_
  change Passes [] [] (storing n (.done .exitSuccess)) _
  rw [storing_done]
  exact .refl _

/-- The descriptor is read, and the value is written next. -/
theorem passes_setRegion (key value : CString) {buf : Bytes} {rkey : UInt32} {addr : UInt64}
    (read : readRegion (text buf) = some (.region rkey addr)) :
    ∃ p, Passes [] [buf] (onward n (.setRendezvous key value)) p ∧
      Stands n (.setWrite key value rkey addr) .rdma p := by
  refine ⟨_, passes_contents buf _, ?_⟩
  simp only [read]
  exact .rdma _ _ rfl (.refl _)

theorem passes_getRegion (key : CString) (size : Int) {buf : Bytes} {rkey : UInt32}
    {addr : UInt64} (read : readRegion (text buf) = some (.region rkey addr)) :
    ∃ p, Passes [] [buf] (onward n (.getRendezvous key size)) p ∧
      Stands n (.getRead key size rkey addr) .rdma p := by
  refine ⟨_, passes_contents buf _, ?_⟩
  simp only [read]
  exact .rdma _ _ rfl (.refl _)

/-- The region of a set, as `client_set_rendezvous` waits for it. -/
theorem storing_region : storing n (do
      let _ ← ppWaitCompletions .reply 1 n 0
      let contents ← lib .contents
      match readRegion (text contents) with
      | some (.region rkey rAddr) =>
        let errno ← ppPostRdmaWrite value.bytes rAddr rkey
        if errno = 1 then return .exitFailure
        else
          let _ ← ppWaitCompletions .access 1 n 0
          finishRendezvous n (flagKey .fs key.bytes)
      | _ => .stop .undefined) = awaiting n (.setRendezvous key value) := by
  rw [storing_bind]
  refine congrArg _ (funext fun _ => ?_)
  rw [storing_bind]
  refine congrArg _ (funext fun contents => ?_)
  split
  · rw [storing_bind]
    refine congrArg _ (funext fun errno => ?_)
    split
    · rfl
    · exact storing_bind _ _
  · rfl

/-- A set whose value goes the rendezvous way. -/
theorem stands_setRendezvous (size : (sizeText value.bytes).length + 1 ≤ 10)
    (fits : (flagKeyText .sr key.bytes (sizeText value.bytes)).length ≤ bufSize) :
    ∃ p, Passes [] [] (storing n (clientSetRendezvous n key value)) p ∧
      Stands n (.setRendezvous key value)
        (.post (onWire (flagKeyText .sr key.bytes (sizeText value.bytes)))) p := by
  rw [clientSetRendezvous, storing_bind]
  refine ⟨_, passes_malloc .size 10 _, ?_⟩
  have room : ¬ (true = false ∨ 10 < (sizeText value.bytes).length + 1) := by simpa using size
  rw [if_neg room, sprintf_fits fits]
  change Stands _ _ _ (storing n (sendDataStr n _ >>= _))
  rw [storing_bind]
  refine .post _ _ (List.cons_ne_nil _ _) ?_
  change Passes [] [] (storing n (lib .regMr >>= _)) _
  rw [storing_bind]
  refine (passes_regMr _).after ?_
  rw [← storing_region]
  exact .refl _

/-- A get whose value is fetched. -/
theorem passes_fetch {size : Int} (small : 0 ≤ size ∧ size < intMax) :
    Passes [] [] (fetching n (clientGetRendezvous n key size))
      (awaiting n (.getRendezvous key size)) := by
  have other : size ≠ intMax := small.2.ne
  have positive : ¬ size < 0 := not_lt.mpr small.1
  rw [clientGetRendezvous, if_neg other, fetching_bind]
  refine (passes_malloc .value _ _).after ?_
  rw [if_neg (Bool.false_ne_true ∘ Eq.symm), if_neg positive, fetching_bind]
  refine (passes_regMr _).after ?_
  rw [if_neg (Bool.false_ne_true ∘ Eq.symm), fetching_bind, awaiting]
  have same : (fun _ : Ret => fetching n (do
        let contents ← lib .contents
        match readRegion (text contents) with
        | some (.region rkey rAddr) =>
          let errno ← ppPostRdmaRead size.toNat rAddr rkey
          if errno = 1 then return (.exitFailure, none)
          else
            let _ ← ppWaitCompletions .access 1 n 0
            fetchEnd n key size
        | _ => .stop .undefined)) = fun _ => onward n (.getRendezvous key size) := by
    refine funext fun _ => ?_
    rw [fetching_bind]
    refine congrArg _ (funext fun contents => ?_)
    split
    · rw [fetching_bind]
      refine congrArg _ (funext fun errno => ?_)
      split
      · rfl
      · exact fetching_bind _ _
    · rfl
  rw [← same]
  exact .refl _

theorem fits_flagKey {flag : Flag} {call : Call} (fits : call.fits = true) :
    (flagKey flag call.key.bytes).length ≤ bufSize := by
  cases call with
  | kvSet key value =>
      simp only [Call.fits, Bool.and_eq_true, decide_eq_true_eq] at fits
      have asks := fits.1
      rw [length_flagKey] at asks ⊢
      exact asks
  | kvGet key =>
      simp only [Call.fits, decide_eq_true_eq] at fits
      rw [length_flagKey] at fits ⊢
      exact fits

theorem stands_kvSet (fits : (flagKey .as key.bytes).length ≤ bufSize) :
    Stands n (.setAsk key value) (.post (onWire (flagKey .as key.bytes)))
      ((Call.kvSet key value).api n) := by
  change Stands _ _ _ (ofSet (kvSet n key value))
  rw [kvSet, sprintf_fits fits]
  change Stands _ _ _ (ofSet (sendDataStr n _ >>= _))
  rw [ofSet_bind]
  refine .post _ _ (List.cons_ne_nil _ _) ?_
  have same : (fun _ : Ret => ofSet (do
        let contents ← lib .contents
        if contents.head? = some 'F'.toUInt8 then return .exitSuccess
        else
          let ret ← (if isEager value.bytes then clientSetEager n key value
            else clientSetRendezvous n key value)
          if ret = .exitFailure then return .exitFailure
          else
            let _ ← ppWaitCompletions .reply 1 n 0
            return .exitSuccess)) = fun _ => onward n (.setAsk key value) := by
    refine funext fun _ => ?_
    rw [ofSet_bind]
    refine congrArg _ (funext fun contents => ?_)
    split
    · rfl
    · rfl
  rw [awaiting, ← same, ← ofSet_bind]
  exact .refl _

theorem stands_get (fits : (flagKey .g0 key.bytes).length ≤ bufSize) :
    Stands n (.get key) (.post (onWire (flagKey .g0 key.bytes))) (getValue n key) := by
  rw [getValue, sprintf_fits fits]
  exact .post _ _ (List.cons_ne_nil _ _) (.refl _)

theorem stands_kvGet (fits : (flagKey .ag key.bytes).length ≤ bufSize) :
    Stands n (.getAsk key) (.post (onWire (flagKey .ag key.bytes)))
      ((Call.kvGet key).api n) := by
  change Stands _ _ _ (kvGet n key)
  rw [kvGet, sprintf_fits fits]
  exact .post _ _ (List.cons_ne_nil _ _) (.refl _)

end Phases

end Api

/-! ## Steps -/

section Steps

variable {s s' : ClientState} {call : Call} {n : ℕ} {events : List ClientEvent} {cl : Client}
  {mem mem' : Mem} {results : List (Call × Result)}

open Api

/-- The end of a phase leads the program on, to where the client then is or to the end of the
call. -/
def Reaches (n : ℕ) (call : Call) (phase : Phase) (looks : List Bytes) (cl : Client)
    (results : List (Call × Result)) : Prop :=
  (results = [] ∧ cl.phase.call = some call ∧ ∃ q, Passes [] looks (onward n phase) q ∧
    Stands n cl.phase (cl.phase.enter cl.requests) q) ∨
  ∃ result, results = [(call, result)] ∧ cl.phase = .idle ∧
    cl.phase.enter cl.requests = .rest ∧ Passes [] looks (onward n phase) (.done result.out)

theorem Call.fits_setEager {key value : CString} (fits : (Call.kvSet key value).fits = true)
    (eager : isEager value.bytes = true) :
    (flagKeyText .se key.bytes value.bytes).length ≤ bufSize := by
  simp only [Call.fits, eager, if_true, Bool.and_eq_true, decide_eq_true_eq] at fits
  exact fits.2

theorem Call.fits_setRendezvous {key value : CString} (fits : (Call.kvSet key value).fits = true)
    (large : isEager value.bytes = false) :
    (flagKeyText .sr key.bytes (sizeText value.bytes)).length ≤ bufSize ∧
      (sizeText value.bytes).length + 1 ≤ 10 := by
  simp only [Call.fits, large, Bool.false_eq_true, if_false, Bool.and_eq_true,
    decide_eq_true_eq] at fits
  exact fits.2

/-- Nothing can be made of the buffer. -/
theorem passes_lost {phase : Phase} {buf : Bytes} (unread : phase.reads buf = none) :
    phase.looks = true ∧ Passes [] [buf] (onward n phase) (.stop .undefined) := by
  cases phase with
  | setRendezvous key value =>
      have region : readRegion (text buf) = none := unread
      have looked : Passes [] [buf] (onward n (.setRendezvous key value)) _ :=
        passes_contents buf _
      simp only [region] at looked
      exact ⟨rfl, looked⟩
  | getRendezvous key size =>
      have region : readRegion (text buf) = none := unread
      have looked : Passes [] [buf] (onward n (.getRendezvous key size)) _ :=
        passes_contents buf _
      simp only [region] at looked
      exact ⟨rfl, looked⟩
  | get key =>
      obtain ⟨eager, size⟩ := ite_eq_iff.mp unread |>.resolve_left (by rintro ⟨-, ⟨⟩⟩)
      have looked : Passes [] [buf] (onward n (.get key)) _ := passes_contents buf _
      simp only [if_neg eager, size] at looked
      exact ⟨rfl, looked⟩
  | setAsk key value =>
      simp only [Phase.reads] at unread
      split at unread <;> cases unread
  | _ => cases unread

theorem readSize_size {text : Bytes} {reply : Reply} (read : readSize text = some reply) :
    ∃ size, reply = .size size := by
  obtain ⟨-, found⟩ := Option.ite_none_right_eq_some.mp read
  obtain ⟨scanned, -, same⟩ := Option.map_eq_some_iff.mp found
  exact ⟨_, same.symm⟩

theorem readRegion_region {text : Bytes} {reply : Reply} (read : readRegion text = some reply) :
    ∃ rkey addr, reply = .region rkey addr := by
  unfold readRegion at read
  split at read
  next => cases read
  next =>
    split at read
    next => cases read
    next =>
      obtain ⟨-, found⟩ := Option.ite_none_right_eq_some.mp read
      obtain ⟨scanned, -, same⟩ := Option.map_eq_some_iff.mp found
      exact ⟨_, _, same.symm⟩

/-- The answer to an ask is the start of a set, or its end. -/
theorem reaches_setAsk {key value : CString} {buf : Bytes} {reply : Reply}
    (fits : (Call.kvSet key value).fits = true)
    (read : (Phase.setAsk key value).reads buf = some reply)
    (went : Client.proceed ⟨.setAsk key value, [], [reply]⟩ mem = some (cl, mem', results)) :
    Reaches n (.kvSet key value) (.setAsk key value) [buf] cl results := by
  have looked : Passes [] [buf] (onward n (.setAsk key value)) _ := passes_contents buf _
  rcases ite_eq_iff.mp read with ⟨refused, same⟩ | ⟨granted, same⟩
  · cases same
    cases went
    rw [if_pos refused] at looked
    exact .inr ⟨.refused, rfl, rfl, rfl, looked⟩
  · cases same
    rw [if_neg granted] at looked
    cases eager : isEager value.bytes with
    | true =>
        simp only [Client.proceed, eager, if_true] at went
        cases went
        simp only [eager, if_true] at looked
        exact .inl ⟨rfl, rfl, _, looked, stands_setEager (Call.fits_setEager fits eager)⟩
    | false =>
        simp only [Client.proceed, eager, Bool.false_eq_true, if_false] at went
        cases went
        simp only [eager, Bool.false_eq_true, if_false] at looked
        obtain ⟨texts, size⟩ := Call.fits_setRendezvous fits eager
        obtain ⟨q, passes, stands⟩ := stands_setRendezvous (n := n) size texts
        exact .inl ⟨rfl, rfl, q, looked.after passes, stands⟩

/-- The answer to `g0` is the value or its size. -/
theorem reaches_get {key : CString} {buf : Bytes} {reply : Reply}
    (room : ∀ n, (Phase.get key).reads buf = some (.size n) → 0 ≤ n ∧ n < intMax)
    (read : (Phase.get key).reads buf = some reply)
    (went : Client.proceed ⟨.get key, [], [reply]⟩ mem = some (cl, mem', results)) :
    Reaches n (.kvGet key) (.get key) [buf] cl results := by
  have looked : Passes [] [buf] (onward n (.get key)) _ := passes_contents buf _
  rcases ite_eq_iff.mp read with ⟨eager, same⟩ | ⟨other, size⟩
  · cases same
    cases went
    simp only [if_pos eager] at looked
    have copied := passes_malloc .copy ((text (buf.drop 2)).length + 1)
      fun copy => if copy = false then .stop .undefined
        else awaiting n (.getEager key (text (buf.drop 2)))
    exact .inl ⟨rfl, rfl, _, looked.after copied, .awaiting⟩
  · obtain ⟨m, same⟩ := readSize_size size
    cases same
    cases went
    simp only [if_neg other, size] at looked
    exact .inl ⟨rfl, rfl, _, looked.after (passes_fetch (room m read)), .awaiting⟩

/-- Every reply that a phase waits for leads on. -/
theorem reaches_reply {phase : Phase} {buf : Bytes} {reply : Reply} (fits : call.fits = true)
    (during : phase.call = some call) (wants : phase.wants ≠ [])
    (room : ∀ n, phase.reads buf = some (.size n) → 0 ≤ n ∧ n < intMax)
    (read : phase.reads buf = some reply)
    (went : Client.proceed ⟨phase, [], [reply]⟩ mem = some (cl, mem', results)) :
    Reaches n call phase (if phase.looks then [buf] else []) cl results := by
  cases phase with
  | idle => cases during
  | setWrite key value rkey addr => exact absurd rfl wants
  | getRead key size rkey addr => exact absurd rfl wants
  | setAsk key value =>
      cases during
      exact reaches_setAsk fits read went
  | get key =>
      cases during
      exact reaches_get room read went
  | setRendezvous key value =>
      cases during
      obtain ⟨rkey, addr, rfl⟩ := readRegion_region read
      cases went
      obtain ⟨p, passes, stands⟩ := passes_setRegion (n := n) key value read
      exact .inl ⟨rfl, rfl, p, passes, stands⟩
  | getRendezvous key size =>
      cases during
      obtain ⟨rkey, addr, rfl⟩ := readRegion_region read
      cases went
      obtain ⟨p, passes, stands⟩ := passes_getRegion (n := n) key size read
      exact .inl ⟨rfl, rfl, p, passes, stands⟩
  | getAsk key =>
      cases during
      cases read
      cases went
      exact .inl ⟨rfl, rfl, _, .refl _, stands_get (fits_flagKey fits)⟩
  | setEager key value | setFin key value =>
      cases during
      cases read
      cases went
      exact .inr ⟨.stored, rfl, rfl, rfl, .refl _⟩
  | getEager key v | getFin key v =>
      cases during
      cases read
      cases went
      exact .inr ⟨.value v, rfl, rfl, rfl, .refl _⟩

/-- The end of an RDMA operation leads on. -/
theorem reaches_access {phase : Phase} (fits : call.fits = true)
    (during : phase.call = some call) (none : phase.wants = [])
    (went : Client.proceed ⟨phase, [], []⟩ mem = some (cl, mem', results)) :
    Reaches n call phase [] cl results := by
  cases phase with
  | setWrite key value rkey addr =>
      cases during
      cases went
      exact .inl ⟨rfl, rfl, _, .refl _, stands_setFin (fits_flagKey fits)⟩
  | getRead key size rkey addr =>
      cases during
      cases went
      exact .inl ⟨rfl, rfl, _, .refl _, stands_getFin (fits_flagKey fits) size _⟩
  | idle => cases during
  | _ => cases none

/-- A send is posted, and its wait begins. -/
theorem passes_send (buf : Bytes) (f : Ret → Api (Ret × Option Bytes)) :
    Passes [.send (onWire buf)] [] (Api.sendDataStr n buf >>= f) (sendWait n >>= f) :=
  (passes_lib (c := .post (.send (onWire buf))) (0 : Int) (by simp [ApiEvent.failed]) _).bind f

theorem passes_rdma (work : Work) (f : Int → Api (Ret × Option Bytes)) :
    Passes [work] [] (lib (.post work) >>= f) (f 0) :=
  passes_lib (c := .post work) (0 : Int) (by simp [ApiEvent.failed]) f

/-- The wait of a send. -/
theorem passes_sendWait (f : Ret → Api (Ret × Option Bytes)) :
    Passes [] [] (sendWait (n + 1) >>= f) (f .exitSuccess) :=
  (passes_wait .send n _).bind f

/-- A step leads the program on, to where the client stands after it or to the end of the call. -/
def Follows (n : ℕ) (call : Call) (s' : ClientState) (works : List Work)
    (events : List ClientEvent) (p : Api (Ret × Option Bytes)) : Prop :=
  (events.filterMap ClientEvent.result = [] ∧ s'.phase.call = some call ∧
    ∃ q, Passes works (events.filterMap ClientEvent.look) p q ∧ Stands n s'.phase s'.stage q) ∨
  ∃ result, events.filterMap ClientEvent.result = [(call, result)] ∧ s'.phase = .idle ∧
    s'.stage = .rest ∧ Passes works (events.filterMap ClientEvent.look) p (.done result.out)

/-- What a client sees when it returns. -/
theorem events_returned (looked : List ClientEvent) (results : List (Call × Result))
    (other : looked.filterMap ClientEvent.result = []) :
    (looked ++ results.map fun (call, result) => ClientEvent.returned call result).filterMap
        ClientEvent.result = results ∧
      (looked ++ results.map fun (call, result) => ClientEvent.returned call result).filterMap
        ClientEvent.look = looked.filterMap ClientEvent.look := by
  constructor
  · rw [List.filterMap_append, other, List.nil_append, List.filterMap_map]
    exact List.filterMap_some
  · rw [List.filterMap_append, List.filterMap_map]
    have none : results.filterMap
        (ClientEvent.look ∘ fun (call, result) => ClientEvent.returned call result) = [] :=
      List.filterMap_eq_nil_iff.mpr fun _ _ => rfl
    rw [none, List.append_nil]

theorem Reaches.follows {phase : Phase} {looks : List Bytes}
    (reaches : Reaches n call phase looks cl results)
    (shown : events.filterMap ClientEvent.result = results)
    (looked : events.filterMap ClientEvent.look = looks) (at_phase : s'.phase = cl.phase)
    (at_stage : s'.stage = cl.phase.enter cl.requests) :
    Follows n call s' [] events (onward n phase) := by
  rcases reaches with ⟨none, during, q, passes, stands⟩ |
    ⟨result, last, idle, rest, passes⟩
  · refine .inl ⟨shown.trans none, by rw [at_phase]; exact during, q, ?_, ?_⟩
    · rw [looked]
      exact passes
    · rw [at_phase, at_stage]
      exact stands
  · refine .inr ⟨result, shown.trans last, at_phase.trans idle, at_stage.trans rest, ?_⟩
    rw [looked]
    exact passes

/-- The end of a phase. -/
theorem follows_finish {mem : Mem} (fits : call.fits = true) (during : s.phase.call = some call)
    (room : ∀ n, s.phase.reads s.conn.buf = some (.size n) → 0 ≤ n ∧ n < intMax)
    (finished : s.finish mem = some (s', events)) :
    Follows n call s' [] events (onward n s.phase) := by
  rcases ClientState.finish_cases finished with
    ⟨none, cl, mem', results, went, rfl, rfl⟩ | ⟨wants, looked, rfl, ends⟩
  · obtain ⟨shown, looks⟩ := events_returned [] results rfl
    exact (reaches_access fits during none went).follows shown looks rfl rfl
  · rcases ends with ⟨unread, rfl, rfl⟩ | ⟨reply, cl, mem', results, read, went, rfl, rfl⟩
    · obtain ⟨looks, passes⟩ := passes_lost (n := n) unread
      rw [if_pos looks]
      exact .inl ⟨rfl, during, _, passes, .lost⟩
    · have other : (if s.phase.looks then
          [ClientEvent.read s.phase s.landed[s.turn]? s.conn.buf] else []).filterMap
            ClientEvent.result = [] := by
        split <;> rfl
      obtain ⟨shown, looks⟩ := events_returned _ results other
      refine (reaches_reply fits during wants room read went).follows shown ?_ rfl rfl
      rw [looks]
      split <;> rfl

/-- Every step of a call, and every step of its surroundings. -/
theorem follows_next {action : ClientAction} {p : Api (Ret × Option Bytes)}
    (fits : call.fits = true) (during : s.phase.call = some call)
    (stands : Stands (n + 1) s.phase s.stage p)
    (room : ∀ mem, action = .step mem → s.stage = .reading →
      ∀ n, s.phase.reads s.conn.buf = some (.size n) → 0 ≤ n ∧ n < intMax)
    (next : s.next action = some (s', events)) :
    Follows (n + 1) call s' (s.posts action) events p := by
  have stays : s'.phase = s.phase → s'.stage = s.stage → s.posts action = [] → events = [] →
      Follows (n + 1) call s' (s.posts action) events p := by
    rintro phase stage none rfl
    refine .inl ⟨rfl, phase ▸ during, p, ?_, ?_⟩
    · rw [none]
      exact .refl p
    · rw [phase, stage]
      exact stands
  cases action with
  | invoke other =>
      obtain ⟨⟨rest, -⟩, -⟩ := Option.ite_none_right_eq_some.mp next
      rw [rest] at stands
      cases stands
  | land reply =>
      obtain ⟨-, lands⟩ := Option.ite_none_right_eq_some.mp next
      obtain ⟨owed, -, same⟩ := Option.map_eq_some_iff.mp lands
      cases same
      exact stays rfl rfl rfl rfl
  | complete wc =>
      obtain ⟨conn, -, same⟩ := Option.map_eq_some_iff.mp next
      cases same
      exact stays rfl rfl rfl rfl
  | poll k =>
      obtain ⟨waits, ⟨rfl, rfl⟩ | ⟨batch, conn, -, -, rfl, rfl⟩⟩ := ClientState.poll_cases next
      · exact stays rfl rfl rfl rfl
      · -- the wait is over
        rcases waits with posted | awaits
        · rw [posted] at stands
          cases stands with
          | sent f wants goes =>
              refine .inl ⟨rfl, during, _, (passes_sendWait f).after goes, ?_⟩
              rw [if_pos ⟨posted, wants⟩]
              exact .awaiting
          | access none =>
              refine .inl ⟨rfl, during, _, passes_wait .access n _, ?_⟩
              rw [if_neg (not_and_of_not_right _ (not_not.mpr none))]
              exact .reading
        · rw [awaits] at stands
          cases stands
          refine .inl ⟨rfl, during, _, passes_wait .reply n _, ?_⟩
          have other : ¬ (s.stage = .posted ∧ s.phase.wants ≠ []) := by
            rintro ⟨posted, -⟩
            cases posted.symm.trans awaits
          rw [if_neg other]
          exact .reading
  | step mem =>
      simp only [ClientState.next, ClientState.step] at next
      cases stage : s.stage with
      | post request =>
          rw [stage] at stands next
          cases next
          cases stands with
          | post buf f wants goes =>
              refine .inl ⟨rfl, during, sendWait (n + 1) >>= f, ?_, .sent f wants goes⟩
              rw [ClientState.posts, stage]
              exact passes_send buf f
      | rdma =>
          rw [stage] at stands next
          cases next
          cases stands with
          | rdma work f is goes =>
              have none : s.phase.wants = [] := by
                cases phase : s.phase <;> rw [phase] at is <;> first | rfl | cases is
              refine .inl ⟨rfl, during, _, ?_, .access none⟩
              rw [ClientState.posts, stage, is]
              exact (passes_rdma work f).after goes
      | reading =>
          rw [stage] at stands next
          cases stands
          rw [ClientState.posts, stage]
          exact follows_finish fits during (room mem rfl stage) next
      | rest | posted | awaiting | lost =>
          rw [stage] at next
          cases next

end Steps

/-! ## Runs -/

section Runs

variable {trace : List ReturnedCall} {s : ClientState} {r : CallRecord}

/-- The call has done what a path of its program does. -/
def ReturnedCall.Explained (n : ℕ) (returned : ReturnedCall) : Prop :=
  ∃ log, (returned.call.api n).Path log (.ok returned.result.out) ∧ (∀ e ∈ log, Fine e) ∧
    posted log = returned.works ∧ seen log = returned.looks

/-- The call in progress has done what its program does up to where the client stands. -/
structure Following (n : ℕ) (s : ClientState) (r : CallRecord) : Prop where
  quiet : s.phase = .idle → s.stage = .rest ∧ r = ⟨[], []⟩
  goes : ∀ call, s.phase.call = some call → call.fits = true ∧
    ∃ q, Api.Passes r.works r.looks (call.api n) q ∧ Api.Stands n s.phase s.stage q

theorem Phase.call_isSome {phase : Phase} (busy : phase ≠ .idle) :
    ∃ call, phase.call = some call := by
  cases phase with
  | idle => exact absurd rfl busy
  | _ => exact ⟨_, rfl⟩

/-- Where a call begins. -/
theorem following_invoke {n : ℕ} {s : ClientState} {call : Call} (fits : call.fits = true) :
    Following n (s.advance (Client.invoke ⟨.idle, [], []⟩ call)) ⟨[], []⟩ := by
  cases call with
  | kvSet key value =>
      refine ⟨fun idle => (by cases idle), fun call during => ?_⟩
      cases during
      exact ⟨fits, _, .refl _, Api.stands_kvSet (Api.fits_flagKey fits)⟩
  | kvGet key =>
      refine ⟨fun idle => (by cases idle), fun call during => ?_⟩
      cases during
      exact ⟨fits, _, .refl _, Api.stands_kvGet (Api.fits_flagKey fits)⟩

/-- A step of the recorded client is one of the client. -/
theorem clientCalls_next {s s' : ClientState} {r r' : CallRecord} {action : ClientAction}
    {shown : List ReturnedCall} (next : clientCalls.next (s, r) action = some ((s', r'), shown)) :
    ∃ events, s.next action = some (s', events) ∧
      ((events.filterMap ClientEvent.result = [] ∧ r' = r.add (s.posts action) events ∧
        shown = []) ∨
      (events.filterMap ClientEvent.result ≠ [] ∧ r' = ⟨[], []⟩ ∧
        shown = (events.filterMap ClientEvent.result).map fun (call, result) =>
          ⟨call, result, (r.add (s.posts action) events).works,
            (r.add (s.posts action) events).looks⟩)) := by
  obtain ⟨⟨after, events⟩, stepped, recorded⟩ := Option.map_eq_some_iff.mp next
  simp only at recorded
  split at recorded
  next none =>
    cases recorded
    exact ⟨events, stepped, .inl ⟨none, rfl, rfl⟩⟩
  next some =>
    cases recorded
    exact ⟨events, stepped, .inr ⟨some, rfl, rfl⟩⟩

/-- Outside a call, a call begins or the surroundings move. -/
theorem ClientState.next_rest {s s' : ClientState} {action : ClientAction}
    {events : List ClientEvent} (rest : s.stage = .rest)
    (next : s.next action = some (s', events)) :
    events = [] ∧ s.posts action = [] ∧
      ((∃ call : Call, call.fits = true ∧ s' = s.advance (Client.invoke ⟨.idle, [], []⟩ call)) ∨
        s'.phase = s.phase ∧ s'.stage = s.stage) := by
  cases action with
  | invoke call =>
      obtain ⟨⟨-, fits⟩, same⟩ := Option.ite_none_right_eq_some.mp next
      cases same
      exact ⟨rfl, rfl, .inl ⟨call, fits, rfl⟩⟩
  | step mem =>
      simp only [ClientState.next, ClientState.step, rest] at next
      cases next
  | land reply =>
      obtain ⟨-, lands⟩ := Option.ite_none_right_eq_some.mp next
      obtain ⟨owed, -, same⟩ := Option.map_eq_some_iff.mp lands
      cases same
      exact ⟨rfl, rfl, .inr ⟨rfl, rfl⟩⟩
  | complete wc =>
      obtain ⟨conn, -, same⟩ := Option.map_eq_some_iff.mp next
      cases same
      exact ⟨rfl, rfl, .inr ⟨rfl, rfl⟩⟩
  | poll k =>
      obtain ⟨waits, -⟩ := ClientState.poll_cases next
      rcases waits with posted | awaits
      · cases posted.symm.trans rest
      · cases awaits.symm.trans rest

/-- Every step keeps the client on a path of its program. -/
theorem Following.next {n : ℕ} {s s' : ClientState} {r r' : CallRecord} {action : ClientAction}
    {shown : List ReturnedCall} (following : Following (n + 1) s r)
    (room : ∀ mem, action = .step mem → s.stage = .reading →
      ∀ n, s.phase.reads s.conn.buf = some (.size n) → 0 ≤ n ∧ n < intMax)
    (next : clientCalls.next (s, r) action = some ((s', r'), shown)) :
    Following (n + 1) s' r' ∧ ∀ returned ∈ shown, returned.Explained (n + 1) := by
  obtain ⟨events, stepped, ends⟩ := clientCalls_next next
  by_cases idle : s.phase = .idle
  · obtain ⟨rest, rfl⟩ := following.quiet idle
    obtain ⟨rfl, none, begins⟩ := ClientState.next_rest rest stepped
    rcases ends with ⟨-, rfl, rfl⟩ | ⟨some, -⟩
    · rw [none]
      refine ⟨?_, fun _ member => by cases member⟩
      rcases begins with ⟨call, fits, rfl⟩ | ⟨phase, stage⟩
      · exact following_invoke fits
      · refine ⟨fun _ => ⟨stage.trans rest, rfl⟩, fun call during => ?_⟩
        rw [phase, idle] at during
        cases during
    · exact absurd rfl some
  · obtain ⟨call, during⟩ := Phase.call_isSome idle
    obtain ⟨fits, p, passes, stands⟩ := following.goes call during
    rcases follows_next fits during stands room stepped with
      ⟨none, during', q, goes, stands'⟩ | ⟨result, last, idle', rest', goes⟩
    · rcases ends with ⟨-, rfl, rfl⟩ | ⟨some, -⟩
      · refine ⟨⟨fun idle' => ?_, fun call' during'' => ?_⟩, fun _ member => ?_⟩
        · rw [idle'] at during'
          cases during'
        · cases during'.symm.trans during''
          exact ⟨fits, q, passes.trans goes, stands'⟩
        · cases member
      · exact absurd none some
    · rcases ends with ⟨none, -⟩ | ⟨-, rfl, rfl⟩
      · cases none.symm.trans last
      · refine ⟨⟨fun _ => ⟨rest', rfl⟩, fun call' during' => ?_⟩, fun returned member => ?_⟩
        · rw [idle'] at during'
          cases during'
        · rw [last] at member
          cases List.mem_singleton.mp member
          obtain ⟨log, fine, posts, sees, leads⟩ := passes.trans goes
          exact ⟨log, leads.done, fine, posts, sees⟩

theorem following_of_run (run : clientCalls.Run sizesFit trace (s, r)) (n : ℕ) :
    Following (n + 1) s r ∧ ∀ returned ∈ trace, returned.Explained (n + 1) := by
  refine run.invariant
    (fun trace s => Following (n + 1) s.1 s.2 ∧ ∀ returned ∈ trace, returned.Explained (n + 1))
    ?_ ?_
  · refine ⟨⟨fun _ => ⟨rfl, rfl⟩, fun call during => ?_⟩, fun _ member => by cases member⟩
    cases during
  · intro trace ⟨s, r⟩ action ⟨s', r'⟩ shown before ⟨following, explained⟩ met next
    obtain ⟨goes, explained'⟩ := following.next (fun mem same => by cases same; exact met) next
    refine ⟨goes, fun returned member => ?_⟩
    rcases List.mem_append.mp member with earlier | now
    · exact explained returned earlier
    · exact explained' returned now

/-- The client of the system does what `kv_set` and `kv_get` do where nothing fails. A call that
has returned has posted, looked at and returned what one of their paths posts, looks at and returns,
and one in progress has done what a beginning of such a path does. Where it is lost, the path
ends undefined. -/
theorem explained_of_run (run : clientCalls.Run sizesFit trace (s, r)) (n : ℕ) :
    (∀ returned ∈ trace, returned.Explained (n + 1)) ∧
      ∀ call, s.phase.call = some call → ∃ log q, (call.api (n + 1)).Leads log q ∧
        (∀ e ∈ log, Fine e) ∧ posted log = r.works ∧ seen log = r.looks ∧
        (s.stage = .lost → q = .stop .undefined) := by
  obtain ⟨following, explained⟩ := following_of_run run n
  refine ⟨explained, fun call during => ?_⟩
  obtain ⟨-, q, ⟨log, fine, posts, sees, leads⟩, stands⟩ := following.goes call during
  refine ⟨log, q, leads, fine, posts, sees, fun lost => ?_⟩
  rw [lost] at stands
  cases stands
  rfl

end Runs

instance (trace : List ReturnedCall) (s : ClientState × CallRecord) (action : ClientAction) :
    Decidable (sizesFit trace s action) :=
  match action with
  | .step _ =>
    match read : s.1.phase.reads s.1.conn.buf with
    | some (.size n) =>
      decidable_of_iff (s.1.stage = .reading → 0 ≤ n ∧ n < intMax) (by simp [sizesFit, read])
    | some .ack | some .nack | some (.region _ _) | some (.eager _) | none =>
      .isTrue (by simp [sizesFit, read])
  | .invoke _ | .land _ | .complete _ | .poll _ => .isTrue True.intro

/-- A small set that is granted. -/
theorem explained_of_run_set : ∃ trace s, clientCalls.Run sizesFit trace s ∧
    ∃ returned ∈ trace, returned.call = .kvSet keyK valueV ∧ returned.result = .stored ∧
      returned.Explained 1 := by
  obtain ⟨trace, ⟨s, r⟩, run, ends⟩ := Machine.Run.of_exec clientCalls sizesFit
    [.invoke (.kvSet keyK valueV), .step emptyHeap, .complete .send, .poll 1, .land .ack,
      .complete .recv, .poll 1, .step emptyHeap, .step emptyHeap, .complete .send, .poll 1,
      .land .ack, .complete .recv, .poll 1, .step emptyHeap]
    (fun trace _ => trace.any fun returned =>
      decide (returned.call = .kvSet keyK valueV ∧ returned.result = .stored))
    (by decide +kernel)
  obtain ⟨returned, member, is⟩ := List.any_eq_true.mp ends
  obtain ⟨call, result⟩ := of_decide_eq_true is
  exact ⟨trace, (s, r), run, returned, member, call, result,
    (explained_of_run run 0).1 returned member⟩

end RdmaWiki
