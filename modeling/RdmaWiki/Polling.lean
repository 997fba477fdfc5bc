import RdmaWiki.Api

/-!
`pp_wait_completions` and `pp_wait_completions_clients` in full.

Here a poll may fail, a batch may hold completions with an error or an unknown `wr_id`, and
`ibv_post_recv` may refuse. Both functions are programs over these calls, and the log of a
path says which batches were taken and which receives were posted anew. The list of
contexts is indexed as in C: an index outside of it is undefined (`Stop.undefined`).

The `switch` over a batch is the same text in both functions. It keeps `routs` equal to the
receives that are outstanding, and above 10 (`takeBatch_credit`), so both waits do
(`waits_credit`).

The byte-level clients and the server loop wait by the `ppWaitCompletions` of `Completions`,
which is given the batches and takes it that no call fails. Such a wait is one of the program
here, with the same counters at its end (`ppWaitCompletions_reliable`).
-/

namespace RdmaWiki

open LibraryCalls

/-! ## The calls -/

/-- The calls of a wait, by the context they are for. -/
inductive CqCall (κ : Type)
  | poll (k : κ)
  | postRecv (k : κ)
deriving DecidableEq

/-- A work completion that `ibv_poll_cq` reports. -/
inductive WorkCompletion
  | success (wc : Wc)
  /-- the `default` of the `switch` -/
  | unknown
  /-- `wc.status != IBV_WC_SUCCESS` -/
  | error
deriving DecidableEq

inductive CqPolled
  /-- `ibv_poll_cq` returned a negative number -/
  | failed
  | taken (wcs : List WorkCompletion)
deriving DecidableEq

/-- `ibv_post_recv` returns 0 or not. -/
abbrev CqCall.Answer {κ : Type} : CqCall κ → Type
  | .poll _ => CqPolled
  | .postRecv _ => Bool

abbrev Cq (κ : Type) := Program (CqCall κ) CqCall.Answer Stop

abbrev CqEvent (κ : Type) := Answered (CqCall κ) CqCall.Answer

/-- What a wait uses of a context. -/
structure Context where
  routs : Int
  rxDepth : Int
deriving DecidableEq

/-- The counters of a wait and the context that its completions are for. -/
structure Counting where
  rcnt : ℕ
  scnt : ℕ
  ctx : Context
deriving DecidableEq

/-- The variables of `pp_wait_completions_clients`; `*client_index` is not set at first. -/
structure Scanning where
  rcnt : ℕ
  scnt : ℕ
  index : ℕ
  clientIndex : Option ℕ
  prevIndex : ℕ
  ctxList : List Context
deriving DecidableEq

/-- `*client_index = index; prev_index = index; break;` and `index = 0;` -/
def Scanning.select (s : Scanning) : Scanning :=
  { s with clientIndex := some s.index, prevIndex := s.index, index := 0 }

namespace Cq

variable {κ : Type}

/-- `pp_post_recv(ctx, n)`: how many receives were posted. -/
def ppPostRecv (k : κ) : ℕ → Cq κ ℕ
  | 0 => .done 0
  | n + 1 => .call (.postRecv k) fun posted =>
    if posted = true then (ppPostRecv k n).bind fun i => .done (i + 1)
    else .done 0

/-- One round of the `for` loop over a batch. -/
def count (k : κ) (s : Counting) : WorkCompletion → Cq κ (Ret × Counting)
  | .error => .done (.exitFailure, s)
  | .unknown => .done (.exitFailure, s)
  | .success .send => .done (.exitSuccess, { s with scnt := s.scnt + 1 })
  | .success .recv =>
    if s.ctx.routs - 1 ≤ 10 then
      (ppPostRecv k (s.ctx.rxDepth - (s.ctx.routs - 1)).toNat).bind fun i =>
        if s.ctx.routs - 1 + i < s.ctx.rxDepth then
          .done (.exitFailure, { s with ctx := ⟨s.ctx.routs - 1 + i, s.ctx.rxDepth⟩ })
        else
          .done (.exitSuccess,
            { s with rcnt := s.rcnt + 1, ctx := ⟨s.ctx.routs - 1 + i, s.ctx.rxDepth⟩ })
    else
      .done (.exitSuccess,
        { s with rcnt := s.rcnt + 1, ctx := ⟨s.ctx.routs - 1, s.ctx.rxDepth⟩ })

/-- The `for` loop over a batch. -/
def takeBatch (k : κ) : List WorkCompletion → Counting → Cq κ (Ret × Counting)
  | [], s => .done (.exitSuccess, s)
  | wc :: rest, s => (count k s wc).bind fun (ret, s) =>
    if ret = .exitFailure then .done (.exitFailure, s) else takeBatch k rest s

/-- The `while` loop of `pp_wait_completions`. -/
def pollUntil (k : κ) (iters : ℕ) : ℕ → Counting → Cq κ (Ret × Counting)
  | 0, s => if iters ≤ s.rcnt + s.scnt then .done (.exitSuccess, s) else .stop .polling
  | patience + 1, s =>
    if iters ≤ s.rcnt + s.scnt then .done (.exitSuccess, s)
    else .call (.poll k) fun
      | .failed => .done (.exitFailure, s)
      | .taken wcs => (takeBatch k wcs s).bind fun (ret, s) =>
        if ret = .exitFailure then .done (.exitFailure, s) else pollUntil k iters patience s

def ppWaitCompletions (k : κ) (patience iters : ℕ) (ctx : Context) : Cq κ (Ret × Counting) :=
  pollUntil k iters patience ⟨0, 0, ctx⟩

/-- The batch that the poll of `*client_index` returned, with `ctx_list[*client_index]`. -/
def takeBatchOf (s : Scanning) (i : ℕ) (wcs : List WorkCompletion) : Cq ℕ (Ret × Scanning) :=
  match s.ctxList[i]? with
  | none => .stop .undefined
  | some ctx => (takeBatch i wcs ⟨s.rcnt, s.scnt, ctx⟩).bind fun (ret, t) =>
    .done (ret, { s with rcnt := t.rcnt, scnt := t.scnt, ctxList := s.ctxList.set i t.ctx })

/-- The `while` loop of `pp_wait_completions_clients` from the head of its `for` loop on. A
scan that found nothing starts again at 0, and so does the scan after a batch. -/
def pollClients (numClients iters : ℕ) : ℕ → Scanning → Cq ℕ (Ret × Scanning)
  | 0, _ => .stop .polling
  | patience + 1, s =>
    if s.index < numClients then
      match s.ctxList[s.index]? with
      | none => .stop .undefined
      | some _ => .call (.poll s.index) fun
        | .failed => .done (.exitFailure, s)
        | .taken [] => pollClients numClients iters patience { s with index := s.index + 1 }
        | .taken (wc :: wcs) =>
          (takeBatchOf s.select s.index (wc :: wcs)).bind fun (ret, s) =>
            if ret = .exitFailure then .done (.exitFailure, s)
            else if iters ≤ s.rcnt + s.scnt then .done (.exitSuccess, s)
            else pollClients numClients iters patience s
    else pollClients numClients iters patience { s with index := 0 }

def ppWaitCompletionsClients (numClients patience iters prevIndex : ℕ)
    (ctxList : List Context) : Cq ℕ (Ret × Scanning) :=
  let s := ⟨0, 0, (prevIndex + 1) % numClients, none, prevIndex, ctxList⟩
  if iters = 0 then .done (.exitSuccess, s) else pollClients numClients iters patience s

end Cq

/-! ## Credits -/

section Credits

variable {κ : Type} [DecidableEq κ]

/-- The receive completions of `k` that were taken. -/
def receivedOn (k : κ) (log : List (CqEvent κ)) : ℕ :=
  (log.map fun
    | ⟨.poll k', .taken wcs⟩ => if k' = k then wcs.count (.success .recv) else 0
    | _ => 0).sum

/-- The receives of `k` that were posted. -/
def repostedOn (k : κ) (log : List (CqEvent κ)) : ℕ :=
  log.countP fun
    | ⟨.postRecv k', posted⟩ => k' = k ∧ posted = true
    | _ => false

/-- What is outstanding on `k` at the end of a log, when `before` receives were at its start. -/
def outstandingAfter (k : κ) (before : Int) (log : List (CqEvent κ)) : Int :=
  before - receivedOn k log + repostedOn k log

@[simp] theorem receivedOn_append (k : κ) (log log' : List (CqEvent κ)) :
    receivedOn k (log ++ log') = receivedOn k log + receivedOn k log' := by
  simp only [receivedOn, List.map_append, List.sum_append]

@[simp] theorem repostedOn_append (k : κ) (log log' : List (CqEvent κ)) :
    repostedOn k (log ++ log') = repostedOn k log + repostedOn k log' :=
  List.countP_append

@[simp] theorem outstandingAfter_nil (k : κ) (before : Int) :
    outstandingAfter k before [] = before := by
  simp [outstandingAfter, receivedOn, repostedOn]

theorem outstandingAfter_append (k : κ) (before : Int) (log log' : List (CqEvent κ)) :
    outstandingAfter k before (log ++ log') =
      outstandingAfter k (outstandingAfter k before log) log' := by
  simp only [outstandingAfter, receivedOn_append, repostedOn_append]
  omega

/-- The log posts receives of `k`, and does nothing else. -/
def OnlyReposts (k : κ) (log : List (CqEvent κ)) : Prop :=
  ∀ e ∈ log, ∃ posted, e = ⟨.postRecv k, posted⟩

omit [DecidableEq κ] in
theorem OnlyReposts.nil (k : κ) : OnlyReposts k [] := fun _ none => by cases none

omit [DecidableEq κ] in
theorem OnlyReposts.append {k : κ} {log log' : List (CqEvent κ)} (first : OnlyReposts k log)
    (second : OnlyReposts k log') : OnlyReposts k (log ++ log') := by
  intro e member
  rcases List.mem_append.mp member with before | after
  · exact first e before
  · exact second e after

theorem OnlyReposts.received_eq_zero {k : κ} {log : List (CqEvent κ)} (only : OnlyReposts k log)
    (k' : κ) : receivedOn k' log = 0 := by
  unfold receivedOn
  rw [List.sum_eq_zero_iff]
  intro n member
  obtain ⟨e, there, rfl⟩ := List.mem_map.mp member
  obtain ⟨posted, rfl⟩ := only e there
  rfl

theorem OnlyReposts.reposted_eq_zero {k k' : κ} {log : List (CqEvent κ)} (only : OnlyReposts k log)
    (other : k' ≠ k) : repostedOn k' log = 0 := by
  unfold repostedOn
  rw [List.countP_eq_zero]
  intro e there
  obtain ⟨posted, rfl⟩ := only e there
  simp [other.symm]

/-- A batch that was taken, with the receives that were posted anew meanwhile. -/
theorem OnlyReposts.outstandingAfter_poll {k : κ} {log : List (CqEvent κ)}
    (only : OnlyReposts k log) (k' : κ) (before : Int) (wcs : List WorkCompletion) :
    outstandingAfter k' before (⟨.poll k, .taken wcs⟩ :: log) =
      if k = k' then before - wcs.count (.success .recv) + repostedOn k log else before := by
  have received : receivedOn k' (⟨.poll k, .taken wcs⟩ :: log) =
      if k = k' then wcs.count (.success .recv) else 0 := by
    rw [← List.singleton_append, receivedOn_append, only.received_eq_zero k']
    simp [receivedOn]
  have reposted : repostedOn k' (⟨.poll k, .taken wcs⟩ :: log) = repostedOn k' log := by
    simp [repostedOn]
  rw [outstandingAfter, received, reposted]
  split
  next same => rw [same]
  next other =>
    rw [only.reposted_eq_zero (Ne.symm other)]
    omega

/-- No answer is excluded. -/
abbrev AnyAnswer {κ : Type} (_ : CqEvent κ) : Prop := True

/-- `routs` says what is outstanding, more than 10 and at most `rx_depth`. -/
structure Context.Counts (ctx : Context) (outstanding : Int) : Prop where
  routs : ctx.routs = outstanding
  low : 10 < ctx.routs
  high : ctx.routs ≤ ctx.rxDepth

namespace Cq

theorem ppPostRecv_posts (k : κ) (n : ℕ) :
    (ppPostRecv k n).Ensures AnyAnswer fun log out =>
      OnlyReposts k log ∧ ∃ i, out = .ok i ∧ i ≤ n ∧ repostedOn k log = i := by
  induction n with
  | zero => exact Program.ensures_done ⟨.nil k, 0, rfl, le_rfl, rfl⟩
  | succ n ih =>
      apply Program.ensures_call
      intro posted _
      have event : OnlyReposts k [(⟨.postRecv k, posted⟩ : CqEvent κ)] :=
        fun e member => ⟨posted, List.mem_singleton.mp member⟩
      split
      next yes =>
        refine ih.bind ?_ ?_
        · rintro log s ⟨-, i, same, -⟩
          cases same
        · rintro log i ⟨only, i', same, most, count⟩
          cases same
          refine Program.ensures_done ⟨?_, i + 1, rfl, by omega, ?_⟩
          · rw [List.append_nil]
            exact event.append only
          · rw [List.append_nil, ← List.singleton_append, repostedOn_append, count]
            simp [repostedOn, yes]
            omega
      next no =>
        refine Program.ensures_done ⟨event, 0, rfl, Nat.zero_le _, ?_⟩
        simp [repostedOn, no]

/-- Taking `wcs` off the queue of `k` only posts receives. If it succeeds it has counted each
completion, taken the receives off `routs` and put those posted anew on top. -/
structure Took (k : κ) (s : Counting) (wcs : List WorkCompletion)
    (log : List (CqEvent κ)) (out : Except Stop (Ret × Counting)) : Prop where
  only : OnlyReposts k log
  ends : ∃ ret s', out = .ok (ret, s') ∧ (ret = .exitSuccess →
    s'.rcnt + s'.scnt = s.rcnt + s.scnt + wcs.length ∧ s'.ctx.rxDepth = s.ctx.rxDepth ∧
    ∀ outstanding, s.ctx.Counts outstanding →
      s'.ctx.Counts (outstanding - wcs.count (.success .recv) + repostedOn k log))

theorem count_took (k : κ) (s : Counting) (wc : WorkCompletion) :
    (count k s wc).Ensures AnyAnswer (Took k s [wc]) := by
  cases wc with
  | error | unknown =>
      exact Program.ensures_done ⟨.nil k, _, _, rfl, fun failed => by cases failed⟩
  | success wc =>
      cases wc with
      | send =>
          refine Program.ensures_done ⟨.nil k, _, _, rfl, fun _ => ⟨rfl, rfl, ?_⟩⟩
          rintro outstanding ⟨same, low, high⟩
          exact ⟨by simp [same, repostedOn], low, high⟩
      | recv =>
          simp only [count]
          split
          next few =>
            refine (ppPostRecv_posts k _).bind ?_ ?_
            · rintro log stop ⟨-, i, ends, -⟩
              cases ends
            · rintro log i ⟨only, i', ends, most, posted⟩
              cases ends
              split
              next =>
                refine Program.ensures_done ⟨?_, _, _, rfl, fun failed => by cases failed⟩
                rw [List.append_nil]
                exact only
              next all =>
                refine Program.ensures_done ⟨?_, _, _, rfl, fun _ => ⟨?_, rfl, ?_⟩⟩
                · rw [List.append_nil]
                  exact only
                · simp only [List.length_singleton]
                  omega
                · rintro outstanding ⟨same, low, high⟩
                  rw [List.append_nil, posted]
                  constructor <;> simp <;> omega
          next many =>
            refine Program.ensures_done ⟨.nil k, _, _, rfl, fun _ => ⟨?_, rfl, ?_⟩⟩
            · simp only [List.length_singleton]
              omega
            · rintro outstanding ⟨same, low, high⟩
              constructor <;> simp [repostedOn] <;> omega

/-- The `for` loop over a batch. -/
theorem takeBatch_took (k : κ) (wcs : List WorkCompletion) (s : Counting) :
    (takeBatch k wcs s).Ensures AnyAnswer (Took k s wcs) := by
  induction wcs generalizing s with
  | nil =>
      refine Program.ensures_done ⟨.nil k, _, _, rfl, fun _ => ⟨rfl, rfl, ?_⟩⟩
      intro outstanding counts
      simpa [repostedOn] using counts
  | cons wc rest ih =>
      refine (count_took k s wc).bind ?_ ?_
      · rintro log stop ⟨-, ret, s', ends, -⟩
        cases ends
      · rintro log ⟨ret, s'⟩ ⟨only, ret', s'', ends, counted⟩
        cases ends
        cases ret with
        | exitFailure =>
            refine Program.ensures_done ⟨?_, _, _, rfl, fun failed => by cases failed⟩
            rw [List.append_nil]
            exact only
        | exitSuccess =>
            obtain ⟨total, depth, credit⟩ := counted rfl
            refine (ih s').mono ?_
            rintro log' out ⟨only', ret', t, rfl, counted'⟩
            refine ⟨only.append only', ret', t, rfl, fun success => ?_⟩
            obtain ⟨total', depth', credit'⟩ := counted' success
            refine ⟨?_, depth'.trans depth, fun outstanding counts => ?_⟩
            · simp only [List.length_cons, List.length_nil] at total total' ⊢
              omega
            · have split : ([wc] ++ rest).count (WorkCompletion.success .recv) =
                  [wc].count (.success .recv) + rest.count (.success .recv) := List.count_append
              have both : outstanding - ([wc].count (.success .recv) : ℕ) +
                    (repostedOn k log : ℕ) - (rest.count (.success .recv) : ℕ) +
                    (repostedOn k log' : ℕ) =
                  outstanding - ((wc :: rest).count (.success .recv) : ℕ) +
                    (repostedOn k (log ++ log') : ℕ) := by
                rw [List.singleton_append] at split
                rw [split, repostedOn_append]
                omega
              rw [← both]
              exact credit' _ (credit outstanding counts)

/-- A wait keeps `routs` equal to what is outstanding. -/
theorem pollUntil_credit (k : κ) (iters patience : ℕ) {s : Counting} {outstanding : Int}
    (counts : s.ctx.Counts outstanding) :
    (pollUntil k iters patience s).Ensures AnyAnswer fun log out =>
      ∀ s', out = .ok (.exitSuccess, s') → s'.ctx.rxDepth = s.ctx.rxDepth ∧
        s'.ctx.Counts (outstandingAfter k outstanding log) := by
  induction patience generalizing s outstanding with
  | zero =>
      unfold pollUntil
      split
      next =>
        apply Program.ensures_done
        intro s' ends
        cases ends
        rw [outstandingAfter_nil]
        exact ⟨rfl, counts⟩
      next =>
        apply Program.ensures_stop
        intro s' ends
        cases ends
  | succ patience ih =>
      unfold pollUntil
      split
      next =>
        apply Program.ensures_done
        intro s' ends
        cases ends
        rw [outstandingAfter_nil]
        exact ⟨rfl, counts⟩
      next =>
        apply Program.ensures_call
        intro polled _
        cases polled with
        | failed =>
            apply Program.ensures_done
            intro s' ends
            cases ends
        | taken wcs =>
            refine (takeBatch_took k wcs s).bind ?_ ?_
            · intro log stop _ s' ends
              cases ends
            · rintro log ⟨ret, s₁⟩ ⟨only, ret', s₂, ends, counted⟩
              cases ends
              cases ret with
              | exitFailure =>
                  apply Program.ensures_done
                  intro s' ends
                  cases ends
              | exitSuccess =>
                  obtain ⟨-, depth, credit⟩ := counted rfl
                  refine (ih (credit outstanding counts)).mono ?_
                  intro log' out holds s' ends
                  obtain ⟨depth', credit'⟩ := holds s' ends
                  refine ⟨depth'.trans depth, ?_⟩
                  rw [← List.cons_append, outstandingAfter_append, only.outstandingAfter_poll,
                    if_pos rfl]
                  exact credit'

/-- Every context counts what is outstanding on it. -/
def AllCount (ctxList : List Context) (outstanding : ℕ → Int) : Prop :=
  ∀ (i : ℕ) (ctx : Context), ctxList[i]? = some ctx → ctx.Counts (outstanding i)

/-- The contexts before and after the calls of `log`: each has its `rx_depth`, and counts what
is outstanding then. -/
structure Balanced (ctxList : List Context) (outstanding : ℕ → Int) (log : List (CqEvent ℕ))
    (ctxList' : List Context) : Prop where
  length : ctxList'.length = ctxList.length
  depth : ∀ i : ℕ, (ctxList'[i]?).map Context.rxDepth = (ctxList[i]?).map Context.rxDepth
  counts : AllCount ctxList' fun i => outstandingAfter i (outstanding i) log

theorem Balanced.trans {l l' l'' : List Context} {outstanding : ℕ → Int}
    {log log' : List (CqEvent ℕ)} (first : Balanced l outstanding log l')
    (second : Balanced l' (fun i => outstandingAfter i (outstanding i) log) log' l'') :
    Balanced l outstanding (log ++ log') l'' where
  length := second.length.trans first.length
  depth i := (second.depth i).trans (first.depth i)
  counts i ctx found := by
    simp only [outstandingAfter_append]
    exact second.counts i ctx found

/-- An empty batch changes nothing. -/
theorem Balanced.of_empty {l : List Context} {outstanding : ℕ → Int} (i : ℕ)
    (counts : AllCount l outstanding) : Balanced l outstanding [⟨.poll i, .taken []⟩] l where
  length := rfl
  depth _ := rfl
  counts j ctx found := by
    simp only [(OnlyReposts.nil i).outstandingAfter_poll]
    simpa [repostedOn] using counts j ctx found

/-- Taking `wcs` off the queue of context `i` changes that context and no other. -/
structure TookOf (s : Scanning) (i : ℕ) (wcs : List WorkCompletion) (log : List (CqEvent ℕ))
    (out : Except Stop (Ret × Scanning)) : Prop where
  only : OnlyReposts i log
  defined : i < s.ctxList.length → out ≠ .error .undefined
  ends : ∀ ret s', out = .ok (ret, s') → s'.clientIndex = s.clientIndex ∧
    s'.prevIndex = s.prevIndex ∧ s'.ctxList.length = s.ctxList.length ∧
    (ret = .exitSuccess → s'.rcnt + s'.scnt = s.rcnt + s.scnt + wcs.length ∧
      ∀ outstanding, AllCount s.ctxList outstanding →
        Balanced s.ctxList outstanding (⟨.poll i, .taken wcs⟩ :: log) s'.ctxList)

/-- A batch that is not empty is enough for a call that waits for one completion. -/
theorem TookOf.counts_one {i : ℕ} {s' : Scanning} {wcs : List WorkCompletion}
    {log : List (CqEvent ℕ)} (took : TookOf s i wcs log (.ok (.exitSuccess, s')))
    (nonempty : wcs ≠ []) : 1 ≤ s'.rcnt + s'.scnt := by
  obtain ⟨-, -, -, counted⟩ := took.ends _ s' rfl
  have total := (counted rfl).1
  have positive := List.length_pos_iff.mpr nonempty
  omega

theorem takeBatchOf_took (s : Scanning) (i : ℕ) (wcs : List WorkCompletion) :
    (takeBatchOf s i wcs).Ensures AnyAnswer (TookOf s i wcs) := by
  unfold takeBatchOf
  split
  next missing =>
    refine Program.ensures_stop ⟨.nil i, fun inside => ?_, fun ret s' ends => by cases ends⟩
    rw [List.getElem?_eq_none_iff] at missing
    omega
  next ctx there =>
    have inside : i < s.ctxList.length := (List.getElem?_eq_some_iff.mp there).1
    refine (takeBatch_took i wcs ⟨s.rcnt, s.scnt, ctx⟩).bind ?_ ?_
    · rintro log stop ⟨-, ret, t, ends, -⟩
      cases ends
    · rintro log ⟨ret, t⟩ ⟨only, ret', t', ends, counted⟩
      cases ends
      refine Program.ensures_done ⟨?_, fun _ same => (by cases same), fun ret' s' ends => ?_⟩
      · rw [List.append_nil]
        exact only
      · cases ends
        refine ⟨rfl, rfl, List.length_set, fun success => ?_⟩
        obtain ⟨total, depth, credit⟩ := counted success
        refine ⟨total, fun outstanding counts =>
          ⟨List.length_set, fun j => ?_, fun j ctx₀ found => ?_⟩⟩
        · rcases eq_or_ne i j with rfl | other
          · rw [List.getElem?_set_self inside, there, Option.map_some, Option.map_some, depth]
          · rw [List.getElem?_set_ne other]
        · simp only [List.append_nil, only.outstandingAfter_poll]
          rcases eq_or_ne i j with rfl | other
          · rw [List.getElem?_set_self inside] at found
            cases found
            rw [if_pos rfl]
            exact credit _ (counts i ctx there)
          · rw [List.getElem?_set_ne other] at found
            rw [if_neg other]
            exact counts j ctx₀ found

/-- The rule for a scan: what holds when it gives up, leaves the list or fails, and goes over
from the rest of a scan to the whole, from an empty poll, a wrap-around or a batch on. -/
theorem pollClients_rule {numClients iters : ℕ} {fine : CqEvent ℕ → Prop}
    {Q : Scanning → List (CqEvent ℕ) → Except Stop (Ret × Scanning) → Prop}
    (gaveUp : ∀ s, Q s [] (.error .polling))
    (outside : ∀ s, s.index < numClients → s.ctxList[s.index]? = none →
      Q s [] (.error .undefined))
    (failed : ∀ s, s.index < numClients → Q s [⟨.poll s.index, .failed⟩] (.ok (.exitFailure, s)))
    (empty : ∀ s log out, s.index < numClients → fine ⟨.poll s.index, .taken []⟩ →
      Q { s with index := s.index + 1 } log out → Q s (⟨.poll s.index, .taken []⟩ :: log) out)
    (wrap : ∀ s log out, ¬ s.index < numClients → Q { s with index := 0 } log out → Q s log out)
    (stopped : ∀ s wcs log stop, s.index < numClients → wcs ≠ [] →
      TookOf s.select s.index wcs log (.error stop) →
      Q s (⟨.poll s.index, .taken wcs⟩ :: log) (.error stop))
    (refused : ∀ s wcs log s', s.index < numClients → wcs ≠ [] →
      TookOf s.select s.index wcs log (.ok (.exitFailure, s')) →
      Q s (⟨.poll s.index, .taken wcs⟩ :: log) (.ok (.exitFailure, s')))
    (enough : ∀ s wcs log s', s.index < numClients → wcs ≠ [] →
      TookOf s.select s.index wcs log (.ok (.exitSuccess, s')) → iters ≤ s'.rcnt + s'.scnt →
      Q s (⟨.poll s.index, .taken wcs⟩ :: log) (.ok (.exitSuccess, s')))
    (more : ∀ s wcs log s' log' out, s.index < numClients → wcs ≠ [] →
      TookOf s.select s.index wcs log (.ok (.exitSuccess, s')) → ¬ iters ≤ s'.rcnt + s'.scnt →
      Q s' log' out → Q s (⟨.poll s.index, .taken wcs⟩ :: (log ++ log')) out)
    (patience : ℕ) (s : Scanning) :
    (pollClients numClients iters patience s).Ensures fine (Q s) := by
  induction patience generalizing s with
  | zero => exact Program.ensures_stop (gaveUp s)
  | succ patience ih =>
      unfold pollClients
      split
      next within =>
        split
        next missing => exact Program.ensures_stop (outside s within missing)
        next ctx there =>
          apply Program.ensures_call
          intro polled good
          cases polled with
          | failed => exact Program.ensures_done (failed s within)
          | taken wcs =>
              cases wcs with
              | nil =>
                  refine (ih { s with index := s.index + 1 }).mono fun log out holds => ?_
                  exact empty s log out within good holds
              | cons wc wcs =>
                  have nonempty := List.cons_ne_nil wc wcs
                  have took : (takeBatchOf s.select s.index (wc :: wcs)).Ensures fine _ :=
                    (takeBatchOf_took s.select s.index _).weaken fun _ _ => True.intro
                  refine took.bind (fun log stop => stopped s _ log stop within nonempty) ?_
                  rintro log ⟨ret, s'⟩ took
                  cases ret with
                  | exitFailure =>
                      apply Program.ensures_done
                      rw [List.append_nil]
                      exact refused s _ log s' within nonempty took
                  | exitSuccess =>
                      simp only [reduceCtorEq, if_false]
                      split
                      next counted =>
                        apply Program.ensures_done
                        rw [List.append_nil]
                        exact enough s _ log s' within nonempty took counted
                      next short =>
                        refine (ih s').mono fun log' out holds => ?_
                        exact more s _ log s' log' out within nonempty took short holds
      next beyond => exact (ih { s with index := 0 }).mono fun log out => wrap s log out beyond

/-- The rule for what holds when a scan returns 0. -/
theorem pollClients_success_rule {numClients iters : ℕ} {fine : CqEvent ℕ → Prop}
    {P : Scanning → List (CqEvent ℕ) → Scanning → Prop}
    (empty : ∀ s log s', s.index < numClients → fine ⟨.poll s.index, .taken []⟩ →
      P { s with index := s.index + 1 } log s' → P s (⟨.poll s.index, .taken []⟩ :: log) s')
    (wrap : ∀ s log s', ¬ s.index < numClients → P { s with index := 0 } log s' → P s log s')
    (enough : ∀ s wcs log s', s.index < numClients → wcs ≠ [] →
      TookOf s.select s.index wcs log (.ok (.exitSuccess, s')) → iters ≤ s'.rcnt + s'.scnt →
      P s (⟨.poll s.index, .taken wcs⟩ :: log) s')
    (more : ∀ s wcs log s' log' s'', s.index < numClients → wcs ≠ [] →
      TookOf s.select s.index wcs log (.ok (.exitSuccess, s')) → ¬ iters ≤ s'.rcnt + s'.scnt →
      P s' log' s'' → P s (⟨.poll s.index, .taken wcs⟩ :: (log ++ log')) s'')
    (patience : ℕ) (s : Scanning) :
    (pollClients numClients iters patience s).Ensures fine fun log out =>
      ∀ s', out = .ok (.exitSuccess, s') → P s log s' := by
  apply pollClients_rule
  · intro s s' ends
    cases ends
  · intro s _ _ s' ends
    cases ends
  · intro s _ s' ends
    cases ends
  · intro s log out within polled holds s' ends
    exact empty s log s' within polled (holds s' ends)
  · intro s log out beyond holds s' ends
    exact wrap s log s' beyond (holds s' ends)
  · intro s wcs log stop _ _ _ s' ends
    cases ends
  · intro s wcs log s' _ _ _ s'' ends
    cases ends
  · intro s wcs log s' within nonempty took counted s'' ends
    cases ends
    exact enough s wcs log s' within nonempty took counted
  · intro s wcs log s' log' out within nonempty took short holds s'' ends
    exact more s wcs log s' log' s'' within nonempty took short (holds s'' ends)

theorem pollClients_credit (numClients iters patience : ℕ) (s : Scanning) :
    (pollClients numClients iters patience s).Ensures AnyAnswer fun log out =>
      ∀ s', out = .ok (.exitSuccess, s') → ∀ outstanding, AllCount s.ctxList outstanding →
        Balanced s.ctxList outstanding log s'.ctxList := by
  apply pollClients_success_rule
  · intro s log s' _ _ holds outstanding counts
    have empty := Balanced.of_empty s.index counts
    exact empty.trans (holds _ empty.counts)
  · intro s log s' _ holds
    exact holds
  · intro s wcs log s' _ _ took _
    exact ((took.ends _ s' rfl).2.2.2 rfl).2
  · intro s wcs log s' log' s'' _ _ took _ holds outstanding counts
    have batch := ((took.ends _ s' rfl).2.2.2 rfl).2 outstanding counts
    exact batch.trans (holds _ batch.counts)

end Cq

/-! ## Both waits -/

/-- A wait that returns 0 leaves `routs` equal to what is outstanding, more than 10 and at most
`rx_depth`: for the context of `pp_wait_completions`, and for every context in the list of
`pp_wait_completions_clients`. -/
theorem waits_credit :
    (∀ (k : κ) (patience iters : ℕ) (ctx : Context) (outstanding : Int)
      (log : List (CqEvent κ)) (s : Counting), ctx.Counts outstanding →
      (Cq.ppWaitCompletions k patience iters ctx).Path log (.ok (.exitSuccess, s)) →
      s.ctx.rxDepth = ctx.rxDepth ∧ s.ctx.Counts (outstandingAfter k outstanding log)) ∧
    ∀ (numClients patience iters prevIndex : ℕ) (ctxList : List Context)
      (outstanding : ℕ → Int) (log : List (CqEvent ℕ)) (s : Scanning),
      Cq.AllCount ctxList outstanding →
      (Cq.ppWaitCompletionsClients numClients patience iters prevIndex ctxList).Path log
        (.ok (.exitSuccess, s)) →
      Cq.Balanced ctxList outstanding log s.ctxList := by
  constructor
  · intro k patience iters ctx outstanding log s counts path
    exact Cq.pollUntil_credit k iters patience counts log _ path (fun _ _ => True.intro) s rfl
  · intro numClients patience iters prevIndex ctxList outstanding log s counts path
    unfold Cq.ppWaitCompletionsClients at path
    split at path
    next =>
      cases path
      refine ⟨rfl, fun _ => rfl, ?_⟩
      simpa only [outstandingAfter_nil] using counts
    next =>
      exact Cq.pollClients_credit numClients iters patience _ log _ path
        (fun _ _ => True.intro) s rfl outstanding counts

end Credits

/-- The twelfth receive is consumed, and two are posted anew; of two clients, it is the second
whose completion is taken. -/
theorem waits_credit_repost :
    (∃ log s, (Cq.ppWaitCompletions () 1 1 ⟨11, 12⟩).Path log (.ok (.exitSuccess, s)) ∧
      outstandingAfter () 11 log = 12 ∧ s.ctx.Counts (outstandingAfter () 11 log)) ∧
    ∃ log s, (Cq.ppWaitCompletionsClients 2 1 1 0 [⟨11, 12⟩, ⟨11, 12⟩]).Path log
        (.ok (.exitSuccess, s)) ∧
      Cq.Balanced [⟨11, 12⟩, ⟨11, 12⟩] (fun _ => 11) log s.ctxList := by
  have counts : (⟨11, 12⟩ : Context).Counts 11 := ⟨rfl, by decide, by decide⟩
  constructor
  · refine ⟨[⟨.poll (), .taken [.success .recv]⟩, ⟨.postRecv (), true⟩, ⟨.postRecv (), true⟩],
      ⟨1, 0, ⟨12, 12⟩⟩, ?_⟩
    have path : (Cq.ppWaitCompletions () 1 1 ⟨11, 12⟩).Path
        [⟨.poll (), .taken [.success .recv]⟩, ⟨.postRecv (), true⟩, ⟨.postRecv (), true⟩]
        (.ok (.exitSuccess, ⟨1, 0, ⟨12, 12⟩⟩)) := Program.path_of_replay (by rfl)
    have credit := (waits_credit.1 () 1 1 ⟨11, 12⟩ 11 _ _ counts path).2
    exact ⟨path, by rfl, credit⟩
  · refine ⟨[⟨.poll 1, .taken [.success .recv]⟩, ⟨.postRecv 1, true⟩, ⟨.postRecv 1, true⟩],
      ⟨1, 0, 0, some 1, 1, [⟨11, 12⟩, ⟨12, 12⟩]⟩, ?_⟩
    have path : (Cq.ppWaitCompletionsClients 2 1 1 0 [⟨11, 12⟩, ⟨11, 12⟩]).Path
        [⟨.poll 1, .taken [.success .recv]⟩, ⟨.postRecv 1, true⟩, ⟨.postRecv 1, true⟩]
        (.ok (.exitSuccess, ⟨1, 0, 0, some 1, 1, [⟨11, 12⟩, ⟨12, 12⟩]⟩)) :=
      Program.path_of_replay (by rfl)
    refine ⟨path, (@waits_credit Unit _).2 2 1 1 0 [⟨11, 12⟩, ⟨11, 12⟩] (fun _ => 11) _ _ ?_
      path⟩
    intro i ctx found
    have member := List.mem_of_getElem? found
    simp only [List.mem_cons, List.not_mem_nil, or_false, or_self] at member
    rw [member]
    exact counts

/-! ## Waits in which no call fails -/

/-- The counters of a wait in which no call fails. -/
def Wait.counting (wait : Wait) : Counting := ⟨wait.rcnt, wait.scnt, ⟨wait.routs, rxDepth⟩⟩

section Reliable

variable {κ : Type}

namespace Cq

theorem ppPostRecv_reliable (k : κ) (n : ℕ) :
    (ppPostRecv k n).Path (List.replicate n ⟨.postRecv k, true⟩) (.ok n) := by
  induction n with
  | zero => exact .done 0
  | succ n ih =>
      apply Program.Path.call
      rw [if_pos rfl]
      have path := ih.bind (f := fun i => .done (i + 1)) (.done (n + 1))
      rw [List.append_nil] at path
      exact path

theorem count_reliable (k : κ) {wait : Wait} (low : 10 < wait.routs)
    (high : wait.routs ≤ rxDepth) (wc : Wc) :
    ∃ log, (count k wait.counting (.success wc)).Path log
        (.ok (.exitSuccess, (wait.count wc).counting)) ∧
      10 < (wait.count wc).routs ∧ (wait.count wc).routs ≤ rxDepth := by
  have depth : (rxDepth : Int) = 10000 := rfl
  have deep : rxDepth = 10000 := rfl
  cases wc with
  | send => exact ⟨[], .done _, low, high⟩
  | recv =>
      by_cases few : wait.routs - 1 ≤ 10
      · have less : (wait.routs : Int) - 1 ≤ 10 := by omega
        have full : (wait.routs : Int) - 1 + ((rxDepth : Int) - ((wait.routs : Int) - 1)).toNat =
            rxDepth := by omega
        have counted : (wait.count .recv).counting =
            ⟨wait.rcnt + 1, wait.scnt, ⟨(wait.routs : Int) - 1 +
              ((rxDepth : Int) - ((wait.routs : Int) - 1)).toNat, rxDepth⟩⟩ := by
          rw [full]
          simp only [Wait.counting, Wait.count, if_pos few]
        refine ⟨List.replicate (((rxDepth : Int) - ((wait.routs : Int) - 1)).toNat)
          ⟨.postRecv k, true⟩ ++ [], ?_, ?_⟩
        · have posts : count k wait.counting (.success .recv) = _ := if_pos less
          rw [counted, posts]
          apply (ppPostRecv_reliable k _).bind
          exact (if_neg full.not_lt).symm ▸ .done _
        · simp only [Wait.count, if_pos few]
          omega
      · have more : ¬ (wait.routs : Int) - 1 ≤ 10 := by omega
        have counted : (wait.count .recv).counting =
            ⟨wait.rcnt + 1, wait.scnt, ⟨(wait.routs : Int) - 1, rxDepth⟩⟩ := by
          have less : (wait.routs : Int) - 1 = (wait.routs - 1 : ℕ) := by omega
          rw [less]
          simp only [Wait.counting, Wait.count, if_neg few]
        refine ⟨[], ?_, ?_⟩
        · have quiet : count k wait.counting (.success .recv) = _ := if_neg more
          rw [counted, quiet]
          exact .done _
        · simp only [Wait.count, if_neg few]
          omega

theorem takeBatch_reliable (k : κ) (batch : List Wc) {wait : Wait} (low : 10 < wait.routs)
    (high : wait.routs ≤ rxDepth) :
    ∃ log, (takeBatch k (batch.map .success) wait.counting).Path log
        (.ok (.exitSuccess, (wait.absorb batch).counting)) ∧
      10 < (wait.absorb batch).routs ∧ (wait.absorb batch).routs ≤ rxDepth := by
  induction batch generalizing wait with
  | nil => exact ⟨[], .done _, low, high⟩
  | cons wc rest ih =>
      obtain ⟨log, path, low', high'⟩ := count_reliable k low high wc
      obtain ⟨log', path', bounds⟩ := ih low' high'
      exact ⟨log ++ log', path.bind path', bounds⟩

theorem pollUntil_enough (k : κ) {iters : ℕ} (patience : ℕ) {s : Counting}
    (enough : iters ≤ s.rcnt + s.scnt) :
    pollUntil k iters patience s = .done (.exitSuccess, s) := by
  cases patience with
  | zero => exact if_pos enough
  | succ patience => exact if_pos enough

/-- The batches that the wait takes lead to the same counters. -/
theorem pollUntil_reliable (k : κ) (iters : ℕ) (polls : List (List Wc)) {wait wait' : Wait}
    {later : List (List Wc)} (low : 10 < wait.routs) (high : wait.routs ≤ rxDepth)
    (returns : RdmaWiki.ppWaitCompletions iters wait polls = some (wait', later)) :
    ∃ log, (pollUntil k iters polls.length wait.counting).Path log
      (.ok (.exitSuccess, wait'.counting)) := by
  induction polls generalizing wait with
  | nil =>
      unfold RdmaWiki.ppWaitCompletions at returns
      split at returns
      next enough =>
        cases returns
        rw [pollUntil_enough k _ enough]
        exact ⟨[], .done _⟩
      next => cases returns
  | cons batch polls ih =>
      unfold RdmaWiki.ppWaitCompletions at returns
      split at returns
      next enough =>
        cases returns
        rw [pollUntil_enough k _ enough]
        exact ⟨[], .done _⟩
      next short =>
        have polled : pollUntil k iters (batch :: polls).length wait.counting = _ :=
          if_neg short
        obtain ⟨log, path, low', high'⟩ := takeBatch_reliable k batch low high
        obtain ⟨log', path'⟩ := ih low' high' returns
        refine ⟨⟨.poll k, .taken (batch.map .success)⟩ :: (log ++ log'), ?_⟩
        rw [polled]
        exact .call _ (path.bind path')

/-- A wait of the byte-level clients or of the server loop is a path of `pp_wait_completions`. -/
theorem ppWaitCompletions_reliable (k : κ) {iters routs : ℕ} {polls later : List (List Wc)}
    {wait : Wait} (low : 10 < routs) (high : routs ≤ rxDepth)
    (returns : RdmaWiki.ppWaitCompletions iters (.start routs) polls = some (wait, later)) :
    ∃ log, (ppWaitCompletions k polls.length iters ⟨routs, rxDepth⟩).Path log
      (.ok (.exitSuccess, wait.counting)) :=
  pollUntil_reliable k iters polls low high returns

end Cq

end Reliable

end RdmaWiki
