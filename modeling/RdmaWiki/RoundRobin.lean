import RdmaWiki.Polling

/-!
`pp_wait_completions_clients` starves no client.

A scan starts behind the client that was served last and goes round. `gap` is how many
clients it polls before it comes to `c`. As long as no poll of `c` comes back empty, a call
that serves somebody else stops before `c`, and the next scan starts behind that client, so
the gap shrinks with every call (`pollClients_turn`). A gap is less than `NUM_CLIENTS`, and
two clients have different gaps.
-/

namespace RdmaWiki

open LibraryCalls Cq

/-! ## The way round -/

/-- How many clients are polled before `c` by a scan that is at `index`, or that is about to
wrap around at `index = NUM_CLIENTS`. -/
def gap (numClients c index : ℕ) : ℕ := if index ≤ c then c - index else c + numClients - index

section Gap

variable {numClients c i j : ℕ}

theorem gap_lt (known : c < numClients) (within : i ≤ numClients) :
    gap numClients c i < numClients := by
  unfold gap
  split <;> omega

theorem gap_succ (within : i < numClients) (other : i ≠ c) :
    gap numClients c (i + 1) < gap numClients c i := by
  unfold gap
  split <;> split <;> omega

theorem gap_wrap (known : c < numClients) : gap numClients c 0 = gap numClients c numClients := by
  unfold gap
  split <;> split <;> omega

theorem gap_mod (known : c < numClients) (within : i < numClients) :
    gap numClients c ((i + 1) % numClients) = gap numClients c (i + 1) := by
  rcases Nat.lt_or_ge (i + 1) numClients with less | last
  · rw [Nat.mod_eq_of_lt less]
  · obtain rfl : i + 1 = numClients := by omega
    rw [Nat.mod_self, gap_wrap known]

end Gap

/-! ## One call -/

/-- The log selects `i`: its poll, and no other, returned completions. -/
structure Selects (i : ℕ) (log : List (CqEvent ℕ)) : Prop where
  returned : ∃ wcs, wcs ≠ [] ∧ ⟨.poll i, .taken wcs⟩ ∈ log
  others : ∀ j wcs, ⟨.poll j, .taken wcs⟩ ∈ log → wcs ≠ [] → j = i

/-- The contexts that are looked at are those of clients. -/
def Inside (numClients : ℕ) (log : List (CqEvent ℕ)) : Prop :=
  ∀ e ∈ log, ∀ i, e.1 = .poll i ∨ e.1 = .postRecv i → i < numClients

section Calls

variable {numClients c : ℕ} {s : Scanning}

theorem Selects.empty {i j : ℕ} {log : List (CqEvent ℕ)} (selects : Selects i log) :
    Selects i (⟨.poll j, .taken []⟩ :: log) := by
  obtain ⟨⟨wcs, nonempty, member⟩, others⟩ := selects
  refine ⟨⟨wcs, nonempty, List.mem_cons_of_mem _ member⟩, fun k wcs' there nonempty' => ?_⟩
  rcases List.mem_cons.mp there with same | later
  · cases same
    exact absurd rfl nonempty'
  · exact others k wcs' later nonempty'

theorem OnlyReposts.selects {i : ℕ} {wcs : List WorkCompletion} {log : List (CqEvent ℕ)}
    (only : OnlyReposts i log) (nonempty : wcs ≠ []) :
    Selects i (⟨.poll i, .taken wcs⟩ :: log) := by
  refine ⟨⟨wcs, nonempty, List.mem_cons_self⟩, fun j wcs' there _ => ?_⟩
  rcases List.mem_cons.mp there with same | later
  · cases same
    rfl
  · obtain ⟨posted, same⟩ := only _ later
    cases same

/-- A call for one completion ends with the first batch that is not empty. -/
theorem pollClients_selects (numClients patience : ℕ) (s : Scanning) :
    (pollClients numClients 1 patience s).Ensures AnyAnswer fun log out =>
      ∀ s', out = .ok (.exitSuccess, s') →
        ∃ i < numClients, s'.clientIndex = some i ∧ s'.prevIndex = i ∧ Selects i log := by
  apply pollClients_success_rule
  · intro s log s' _ _ holds
    obtain ⟨i, within, client, prev, selects⟩ := holds
    exact ⟨i, within, client, prev, selects.empty⟩
  · intro s log s' _ holds
    exact holds
  · intro s wcs log s' within nonempty took _
    obtain ⟨client, prev, -⟩ := took.ends _ s' rfl
    exact ⟨s.index, within, client, prev, took.only.selects nonempty⟩
  · intro s wcs log s' log' s'' _ nonempty took short
    exact absurd (took.counts_one nonempty) short

/-- A call that finds `c` never empty serves it, or stops before it on the way round. -/
theorem pollClients_turn (known : c < numClients) (patience : ℕ) (s : Scanning) :
    (pollClients numClients 1 patience s).Ensures (fun e => e ≠ ⟨.poll c, .taken []⟩)
      fun _ out => ∀ s', out = .ok (.exitSuccess, s') → s.index ≤ numClients →
        s'.prevIndex = c ∨
          gap numClients c (s'.prevIndex + 1) < gap numClients c s.index := by
  apply pollClients_success_rule
  · intro s log s' within polled holds _
    have other : s.index ≠ c := by
      rintro rfl
      exact polled rfl
    have nearer := gap_succ within other
    rcases holds within with served | before
    · exact .inl served
    · exact .inr (before.trans nearer)
  · intro s log s' beyond holds most
    have last : s.index = numClients := by omega
    rw [last, ← gap_wrap known]
    exact holds (Nat.zero_le _)
  · intro s wcs log s' within _ took _ _
    obtain ⟨-, prev, -⟩ := took.ends _ s' rfl
    rw [prev]
    rcases eq_or_ne s.index c with served | other
    · exact .inl served
    · exact .inr (gap_succ within other)
  · intro s wcs log s' log' s'' _ nonempty took short
    exact absurd (took.counts_one nonempty) short

theorem Inside.cons {e : CqEvent ℕ} {i : ℕ} {log : List (CqEvent ℕ)} (within : i < numClients)
    (about : e.1 = .poll i) (inside : Inside numClients log) : Inside numClients (e :: log) := by
  intro e' member j same
  rcases List.mem_cons.mp member with rfl | later
  · rw [about] at same
    rcases same with same | same <;> cases same
    exact within
  · exact inside e' later j same

theorem OnlyReposts.inside {i : ℕ} {log : List (CqEvent ℕ)} (only : OnlyReposts i log)
    (within : i < numClients) : Inside numClients log := by
  intro e member j same
  obtain ⟨posted, rfl⟩ := only e member
  rcases same with same | same <;> cases same
  exact within

theorem Inside.append {log log' : List (CqEvent ℕ)} (first : Inside numClients log)
    (second : Inside numClients log') : Inside numClients (log ++ log') := by
  intro e member
  rcases List.mem_append.mp member with before | after
  · exact first e before
  · exact second e after

theorem Inside.nil : Inside numClients [] := fun _ none => by cases none

/-- A scan of a list with a context for each client stays inside it. -/
theorem pollClients_inside (numClients iters patience : ℕ) (s : Scanning) :
    (pollClients numClients iters patience s).Ensures AnyAnswer fun log out =>
      s.ctxList.length = numClients → Inside numClients log ∧ out ≠ .error .undefined := by
  apply pollClients_rule
  · intro s _
    exact ⟨.nil, fun same => by cases same⟩
  · intro s within missing length
    rw [List.getElem?_eq_none_iff] at missing
    omega
  · intro s within _
    exact ⟨Inside.nil.cons within rfl, fun same => by cases same⟩
  · intro s log out within _ holds length
    obtain ⟨inside, defined⟩ := holds length
    exact ⟨inside.cons within rfl, defined⟩
  · intro s log out _ holds
    exact holds
  · intro s wcs log stop within _ took length
    exact ⟨(took.only.inside within).cons within rfl, took.defined (length ▸ within)⟩
  · intro s wcs log s' within _ took _
    exact ⟨(took.only.inside within).cons within rfl, fun same => by cases same⟩
  · intro s wcs log s' within _ took _ _
    exact ⟨(took.only.inside within).cons within rfl, fun same => by cases same⟩
  · intro s wcs log s' log' out within _ took _ holds length
    obtain ⟨-, -, kept, -⟩ := took.ends _ s' rfl
    obtain ⟨inside, defined⟩ := holds (kept.trans length)
    exact ⟨((took.only.inside within).append inside).cons within rfl, defined⟩

/-- A call that returns 0 has served one client. -/
theorem serves_of_path {patience prevIndex : ℕ} {ctxList : List Context}
    {log : List (CqEvent ℕ)} {s : Scanning} (inRange : prevIndex < numClients)
    (length : ctxList.length = numClients)
    (path : (ppWaitCompletionsClients numClients patience 1 prevIndex ctxList).Path log
      (.ok (.exitSuccess, s))) :
    ∃ i < numClients, s.clientIndex = some i ∧ s.prevIndex = i ∧ Selects i log ∧
      Inside numClients log ∧ (c < numClients → ⟨.poll c, .taken []⟩ ∉ log →
        i = c ∨ gap numClients c (i + 1) < gap numClients c (prevIndex + 1)) := by
  have start : (prevIndex + 1) % numClients < numClients := Nat.mod_lt _ (by omega)
  simp only [ppWaitCompletionsClients, Nat.one_ne_zero, if_false] at path
  obtain ⟨i, within, client, prev, selects⟩ :=
    pollClients_selects numClients patience _ log _ path (fun _ _ => True.intro) s rfl
  have inside := (pollClients_inside numClients 1 patience _ log _ path
    (fun _ _ => True.intro) length).1
  refine ⟨i, within, client, prev, selects, inside, fun known never => ?_⟩
  have turn := pollClients_turn known patience _ log _ path
    (fun e member same => never (same ▸ member)) s rfl start.le
  rw [prev, gap_mod known inRange] at turn
  exact turn

end Calls

/-! ## Calls one after the other -/

/-- Calls for one completion that return 0, each with the client it has selected and its log.
The contexts may change between them, as the server sends. -/
inductive Serves (numClients : ℕ) : ℕ → List (ℕ × List (CqEvent ℕ)) → Prop
  | nil (prevIndex : ℕ) : Serves numClients prevIndex []
  | call {patience prevIndex index : ℕ} {ctxList : List Context} {log : List (CqEvent ℕ)}
    {s : Scanning} {calls : List (ℕ × List (CqEvent ℕ))} (length : ctxList.length = numClients)
    (path : (ppWaitCompletionsClients numClients patience 1 prevIndex ctxList).Path log
      (.ok (.exitSuccess, s)))
    (client : s.clientIndex = some index) (rest : Serves numClients s.prevIndex calls) :
    Serves numClients prevIndex ((index, log) :: calls)

/-- Until `c` is selected, its queue is not empty when it is polled. -/
def StaysReady (c : ℕ) (calls : List (ℕ × List (CqEvent ℕ))) : Prop :=
  ∀ before call after, calls = before ++ call :: after → c ∉ before.map Prod.fst →
    ⟨.poll c, .taken []⟩ ∉ call.2

section Runs

variable {numClients prevIndex c : ℕ} {calls : List (ℕ × List (CqEvent ℕ))}

theorem StaysReady.tail {call : ℕ × List (CqEvent ℕ)} (ready : StaysReady c (call :: calls))
    (other : call.1 ≠ c) : StaysReady c calls := by
  intro before call' after split absent
  apply ready (call :: before) call' after
  · rw [split, List.cons_append]
  · rw [List.map_cons, List.mem_cons, not_or]
    exact ⟨other.symm, absent⟩

/-- The clients that are served before `c` come closer to it on the way round. -/
theorem Serves.approach (known : c < numClients) (inRange : prevIndex < numClients)
    (serves : Serves numClients prevIndex calls) (ready : StaysReady c calls) :
    let others := (calls.map Prod.fst).takeWhile (· ≠ c)
    others.length ≤ gap numClients c (prevIndex + 1) ∧ others.Nodup ∧
      ∀ j ∈ others, j < numClients ∧
        gap numClients c (j + 1) < gap numClients c (prevIndex + 1) := by
  induction serves with
  | nil prevIndex => exact ⟨Nat.zero_le _, List.nodup_nil, fun _ none => by cases none⟩
  | @call patience prevIndex index ctxList log s calls length path client rest ih =>
      obtain ⟨i, within, client', prev, -, -, turn⟩ := serves_of_path (c := c) inRange length path
      cases client.symm.trans client'
      rw [prev] at rest ih
      rcases turn known (ready [] _ calls rfl List.not_mem_nil) with served | closer
      · rw [List.map_cons, List.takeWhile_cons_of_neg (by simpa using served)]
        exact ⟨Nat.zero_le _, List.nodup_nil, fun _ none => by cases none⟩
      · rcases eq_or_ne index c with served | other
        · rw [List.map_cons, List.takeWhile_cons_of_neg (by simpa using served)]
          exact ⟨Nat.zero_le _, List.nodup_nil, fun _ none => by cases none⟩
        · obtain ⟨few, distinct, nearer⟩ := ih within (ready.tail other)
          rw [List.map_cons, List.takeWhile_cons_of_pos (by simpa using other)]
          refine ⟨?_, ?_, ?_⟩
          · rw [List.length_cons]
            omega
          · rw [List.nodup_cons]
            refine ⟨fun again => ?_, distinct⟩
            exact lt_irrefl _ (nearer index again).2
          · intro j member
            rcases List.mem_cons.mp member with rfl | later
            · exact ⟨within, closer⟩
            · obtain ⟨known', near⟩ := nearer j later
              exact ⟨known', near.trans closer⟩

/-- What every call of a run has selected. -/
theorem Serves.selects (inRange : prevIndex < numClients)
    (serves : Serves numClients prevIndex calls) :
    ∀ call ∈ calls, call.1 < numClients ∧ Selects call.1 call.2 ∧ Inside numClients call.2 := by
  induction serves with
  | nil prevIndex =>
      intro call none
      cases none
  | @call patience prevIndex index ctxList log s calls length path client rest ih =>
      obtain ⟨i, within, client', prev, selects, inside, -⟩ :=
        serves_of_path (c := 0) inRange length path
      cases client.symm.trans client'
      intro call member
      rcases List.mem_cons.mp member with rfl | later
      · exact ⟨within, selects, inside⟩
      · exact ih (prev ▸ within) call later

/-- A client whose queue stays non-empty is selected within `NUM_CLIENTS` calls, and before it
nobody is selected twice. Every call selects the client whose poll returned completions, and
looks at contexts of clients only. -/
theorem served_in_turn (known : c < numClients) (inRange : prevIndex < numClients)
    (serves : Serves numClients prevIndex calls) (ready : StaysReady c calls) :
    (numClients ≤ calls.length → c ∈ (calls.take numClients).map Prod.fst) ∧
      ((calls.map Prod.fst).takeWhile (· ≠ c)).Nodup ∧
      ∀ call ∈ calls, call.1 < numClients ∧ Selects call.1 call.2 ∧ Inside numClients call.2 := by
  obtain ⟨few, distinct, -⟩ := serves.approach known inRange ready
  refine ⟨fun enough => ?_, distinct, serves.selects inRange⟩
  have bound : gap numClients c (prevIndex + 1) < numClients := gap_lt known inRange
  by_contra absent
  -- nobody of the first `NUM_CLIENTS` is `c`, so they all come before it
  have parts : calls.map Prod.fst =
      (calls.take numClients).map Prod.fst ++ (calls.drop numClients).map Prod.fst := by
    rw [← List.map_append, List.take_append_drop]
  have others : ∀ j ∈ (calls.take numClients).map Prod.fst, decide (j ≠ c) = true := by
    intro j member
    rw [decide_eq_true_iff]
    rintro rfl
    exact absent member
  rw [parts, List.takeWhile_append_of_pos others, List.length_append, List.length_map,
    List.length_take_of_le enough] at few
  omega

end Runs

/-- Both of two clients always have a request, and are served in turn. -/
theorem served_in_turn_both : ∃ calls, Serves 2 0 calls ∧ calls.map Prod.fst = [1, 0, 1] ∧
    0 ∈ (calls.take 2).map Prod.fst := by
  have first : (ppWaitCompletionsClients 2 1 1 0 [⟨99, 99⟩, ⟨99, 99⟩]).Path
      [⟨.poll 1, .taken [.success .send]⟩]
      (.ok (.exitSuccess, ⟨0, 1, 0, some 1, 1, [⟨99, 99⟩, ⟨99, 99⟩]⟩)) :=
    Program.path_of_replay (by rfl)
  have second : (ppWaitCompletionsClients 2 1 1 1 [⟨99, 99⟩, ⟨99, 99⟩]).Path
      [⟨.poll 0, .taken [.success .send]⟩]
      (.ok (.exitSuccess, ⟨0, 1, 0, some 0, 0, [⟨99, 99⟩, ⟨99, 99⟩]⟩)) :=
    Program.path_of_replay (by rfl)
  have length : [(⟨99, 99⟩ : Context), ⟨99, 99⟩].length = 2 := rfl
  have serves := Serves.call length first rfl
    (.call length second rfl (.call length first rfl (.nil 1)))
  refine ⟨_, serves, rfl, (served_in_turn (c := 0) (by decide) (by decide) serves ?_).1 ?_⟩
  · intro before call after split _ member
    have among := List.mem_append_right before (List.mem_cons_self : call ∈ call :: after)
    rw [← split] at among
    simp only [List.mem_cons, List.not_mem_nil, or_false] at among
    rcases among with rfl | rfl | rfl <;> simp at member
  · decide

end RdmaWiki
