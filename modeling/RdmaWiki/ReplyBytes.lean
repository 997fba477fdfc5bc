import RdmaWiki.ClientWaits

/-!
The bytes of a reply between its landing and its reading.

Every reply lands in the one buffer that the client looks at after its waits. A wait
of the client ends only when the replies so far have landed, however their completions
are batched, so what the client reads is the last of them; it is the reply of its step
exactly as long as no reply lands before the client has read the one before
(`repliesRead_of_run`). The server sends two replies to `g0` without waiting for the
client, so the second may land over the first (`reply_overwritten`).
-/

namespace RdmaWiki

open CText StepMachine

/-- Every reading of the buffer has found the reply of its step, and understood it. -/
def RepliesRead (trace : List ClientEvent) : Prop :=
  ∀ phase reply buf, .read phase reply buf ∈ trace →
    ∃ r, reply = some r ∧ r.bytes <+: buf ∧ phase.reads buf = some r

/-- The reply of the step that the client is at is whole in the buffer, if it has
landed. -/
def ClientState.Unharmed (s : ClientState) : Prop :=
  ∀ reply, s.landed[s.turn]? = some reply → reply.bytes <+: s.conn.buf

/-- A reply lands when the client's waits for all earlier ones are over and it has looked
at its buffer. -/
def inTurn : Guard ClientState ClientAction ClientEvent
  | _, s, .land _ => s.landed.length ≤ s.turn
  | _, _, _ => True

instance (trace : List ClientEvent) (s : ClientState) (action : ClientAction) :
    Decidable (inTurn trace s action) :=
  match action with
  | .invoke _ => .isTrue True.intro
  | .step _ => .isTrue True.intro
  | .land _ => inferInstanceAs (Decidable (_ ≤ _))
  | .complete _ => .isTrue True.intro
  | .poll _ => .isTrue True.intro

theorem Reply.bytes_ne_nil (reply : Reply) : reply.bytes ≠ [] := by
  cases reply <;> simp [Reply.bytes, ascii]

/-! ## Reading a reply -/

section Reading

variable {buf : Bytes}

theorem text_reply {body : Bytes} (noNul : (0 : UInt8) ∉ body) (whole : body ++ [0] <+: buf) :
    text buf = body := by
  obtain ⟨more, shape⟩ := whole
  rw [← shape, List.append_assoc]
  exact text_append_nul noNul

/-- The text of a descriptor ends at its NUL. -/
theorem text_region {rkey : UInt32} {addr : UInt64}
    (whole : (Reply.region rkey addr).bytes <+: buf) :
    text buf = decimal rkey.toNat ++ colon :: decimal addr.toNat := by
  apply text_reply _ whole
  simp [not_mem_decimal, colon, isDigit]

/-- A descriptor is read back. -/
theorem readRegion_bytes {rkey : UInt32} {addr : UInt64}
    (whole : (Reply.region rkey addr).bytes <+: buf) :
    readRegion (text buf) = some (.region rkey addr) := by
  have shape := text_region whole
  have first : scanUlong (decimal rkey.toUInt64.toNat ++ colon :: decimal addr.toNat) =
      some (rkey.toUInt64, colon :: decimal addr.toNat) :=
    scanUlong_decimal (by simp [colon, isDigit])
  have second : scanUlong (decimal addr.toNat ++ []) = some (addr, []) :=
    scanUlong_decimal (by simp)
  rw [UInt32.toNat_toUInt64] at first
  rw [List.append_nil] at second
  simp [readRegion, shape, first, second]

/-- A size is read back. -/
theorem readSize_bytes {n : Int} (bounds : 0 ≤ n ∧ n < 2 ^ 31)
    (whole : (Reply.size n).bytes <+: buf) : readSize (text buf) = some (.size n) := by
  obtain ⟨m, rfl⟩ := Int.eq_ofNat_of_zero_le bounds.1
  have printed : decimalInt (m : Int) = decimal m := by simp [decimalInt]
  have noNul : (0 : UInt8) ∉ ascii ['r', ':'] ++ decimal m := by
    have letters : (0 : UInt8) ∉ ascii ['r', ':'] := by decide
    simp [not_mem_decimal, isDigit, letters]
  have shape : text buf = ascii ['r', ':'] ++ decimal m := by
    apply text_reply noNul
    simpa [Reply.bytes, printed] using whole
  have read : scanInt (decimal m ++ []) = some ((m : Int), []) := scanInt_decimal (by simp)
  rw [List.append_nil] at read
  have small : longToInt m = m := longToInt_of_lt (by omega)
  simp [readSize, shape, ascii, read, small]

theorem wanted_ack {reply : Reply} {owed : List Owed}
    (answers : answer [.ack] reply = some owed) : reply = .ack := by
  obtain ⟨first, rest, shape, due⟩ := answer_cases answers
  cases shape
  rcases due with ⟨same, -⟩ | ⟨-, rfl, -⟩ | ⟨same, -⟩ | ⟨same, -⟩ | ⟨same, -⟩
  · cases same
  · rfl
  all_goals cases same

theorem wanted_region {reply : Reply} {owed : List Owed}
    (answers : answer [.region] reply = some owed) : ∃ rkey addr, reply = .region rkey addr := by
  obtain ⟨first, rest, shape, due⟩ := answer_cases answers
  cases shape
  rcases due with ⟨same, -⟩ | ⟨same, -⟩ | ⟨-, region, -⟩ | ⟨same, -⟩ | ⟨same, -⟩
  · cases same
  · cases same
  · exact region
  all_goals cases same

/-- The client reads back every reply that its phase asks for. -/
theorem reads_of_answer {phase : Phase} {reply : Reply} {owed : List Owed}
    (answers : answer phase.wants reply = some owed) (whole : reply.bytes <+: buf) :
    phase.reads buf = some reply := by
  cases phase with
  | setAsk key value =>
      obtain ⟨first, rest, shape, due⟩ := answer_cases answers
      cases shape
      obtain ⟨more, rfl⟩ := whole
      rcases due with ⟨-, rfl | rfl, -⟩ | ⟨same, -⟩ | ⟨same, -⟩ | ⟨same, -⟩ | ⟨same, -⟩
      · rfl
      · rfl
      all_goals cases same
  | setRendezvous key value =>
      obtain ⟨rkey, addr, rfl⟩ := wanted_region answers
      exact readRegion_bytes whole
  | getRendezvous key size =>
      obtain ⟨rkey, addr, rfl⟩ := wanted_region answers
      exact readRegion_bytes whole
  | get key =>
      obtain ⟨first, rest, shape, due⟩ := answer_cases answers
      cases shape
      rcases due with ⟨same, -⟩ | ⟨same, -⟩ | ⟨same, -⟩ | ⟨-, ⟨v, rfl, noNul⟩, -⟩ |
        ⟨-, ⟨n, rfl, bounds⟩, -⟩
      · cases same
      · cases same
      · cases same
      · obtain ⟨more, shape⟩ := whole
        have value : text (buf.drop 2) = v := by
          rw [← shape]
          simp only [Reply.bytes, ascii, List.map_cons, List.map_nil, List.cons_append,
            List.nil_append, List.drop_succ_cons, List.drop_zero, List.append_assoc]
          exact text_append_nul noNul
        have head : buf.head? = some 'e'.toUInt8 := by
          rw [← shape]
          rfl
        rw [Phase.reads, if_pos head, value]
      · have head : buf.head? ≠ some 'e'.toUInt8 := by
          obtain ⟨more, shape⟩ := whole
          have first : buf.head? = some 'r'.toUInt8 := by
            rw [← shape]
            rfl
          rw [first]
          decide
        rw [Phase.reads, if_neg head]
        exact readSize_bytes bounds whole
  | idle => cases answers
  | setWrite key value rkey addr => cases answers
  | getRead key size rkey addr => cases answers
  | setEager key value => exact congrArg some (wanted_ack answers).symm
  | setFin key value => exact congrArg some (wanted_ack answers).symm
  | getAsk key => exact congrArg some (wanted_ack answers).symm
  | getEager key v => exact congrArg some (wanted_ack answers).symm
  | getFin key v => exact congrArg some (wanted_ack answers).symm

end Reading

/-! ## Keeping the replies in turn -/

/-- What the server owed when the client sent the request of its phase, for as long as
the phase lasts. -/
def Phase.asks (phase : Phase) : ClientStage → List Owed
  | .rest => []
  | .post _ => []
  | .rdma => []
  | .posted => phase.wants
  | .awaiting => phase.wants
  | .reading => phase.wants
  | .lost => []

/-- At most one reply is ahead of the client; it answers the request of the phase, and
the buffer starts with it. -/
structure ClientState.InTurn (s : ClientState) : Prop where
  turns : s.turn ≤ s.landed.length
  notLost : s.stage ≠ .lost
  unanswered : s.landed.length = s.turn → s.owed = s.phase.asks s.stage
  answered : ∀ reply, s.landed[s.turn]? = some reply → s.landed.length = s.turn + 1 ∧
    answer (s.phase.asks s.stage) reply = some s.owed ∧ reply.bytes <+: s.conn.buf

section Steps

variable {trace events : List ClientEvent} {s s' : ClientState}

theorem ClientState.InTurn.unharmed (ready : s.InTurn) : s.Unharmed := fun reply found =>
  (ready.answered reply found).2.2

/-- Either no reply is ahead, or one. -/
theorem ClientState.InTurn.ahead (ready : s.InTurn) :
    s.landed.length = s.turn ∨ ∃ reply, s.landed[s.turn]? = some reply := by
  rcases Nat.lt_or_ge s.turn s.landed.length with more | none
  · exact .inr ⟨_, List.getElem?_eq_getElem more⟩
  · exact .inl (Nat.le_antisymm none ready.turns)

/-- With nothing asked, nothing is ahead or owed. -/
theorem ClientState.InTurn.quiet (ready : s.InTurn) (none : s.phase.asks s.stage = []) :
    s.landed.length = s.turn ∧ s.owed = [] := by
  rcases ready.ahead with level | ⟨reply, found⟩
  · exact ⟨level, (ready.unanswered level).trans none⟩
  · have answers := (ready.answered reply found).2.1
    rw [none] at answers
    cases answers

/-- Nothing is ahead or owed where the next phase begins. -/
theorem ClientState.InTurn.of_quiet (level : s.landed.length = s.turn)
    (notLost : s.stage ≠ .lost) (owed : s.owed = s.phase.asks s.stage) : s.InTurn where
  turns := le_of_eq level.symm
  notLost := notLost
  unanswered := fun _ => owed
  answered := fun reply found => by
    have more := (List.getElem?_eq_some_iff.mp found).1
    omega

theorem asks_singleton (phase : Phase) (stage : ClientStage) :
    phase.asks stage = [] ∨ ∃ first, phase.asks stage = [first] := by
  have wants : phase.wants = [] ∨ ∃ first, phase.wants = [first] := by
    cases phase <;> first
      | exact .inl rfl
      | exact .inr ⟨_, rfl⟩
  cases stage <;> first
    | exact wants
    | exact .inl rfl

/-- Only `g0` has a second reply, and it starts with another byte than the first. -/
theorem second_reply {first : Owed} {reply reply' : Reply} {owed owed' : List Owed}
    (answers : answer [first] reply = some owed) (answers' : answer owed reply' = some owed') :
    reply'.bytes.head? ≠ reply.bytes.head? := by
  obtain ⟨owes, rest, shape, due⟩ := answer_cases answers
  cases shape
  rcases due with ⟨-, -, rfl⟩ | ⟨-, -, rfl⟩ | ⟨-, -, rfl⟩ | ⟨-, ⟨v, rfl, -⟩, rfl⟩ |
    ⟨-, ⟨n, rfl, -⟩, rfl⟩
  · cases answers'
  · cases answers'
  · cases answers'
  · rw [wanted_ack answers']
    have letter : (Reply.eager v).bytes.head? = some 'e'.toUInt8 := rfl
    rw [letter]
    decide
  · obtain ⟨rkey, addr, rfl⟩ := wanted_region answers'
    have letter : (Reply.size n).bytes.head? = some 'r'.toUInt8 := rfl
    intro same
    rw [letter] at same
    cases shape : decimal rkey.toNat with
    | nil => exact decimal_ne_nil _ shape
    | cons b bs =>
        have digit : isDigit b = true := isDigit_of_mem_decimal (n := rkey.toNat) (by simp [shape])
        simp only [Reply.bytes, shape, List.cons_append, List.head?_cons,
          Option.some.injEq] at same
        subst same
        exact absurd digit (by decide)

/-- A reply that lands harms no other exactly if it lands in turn. -/
theorem ClientState.InTurn.land_iff (ready : s.InTurn) {reply : Reply} {owed : List Owed}
    (answers : answer s.owed reply = some owed) :
    ({ s with
      conn := s.conn.land reply.bytes
      owed := owed
      landed := s.landed ++ [reply] } : ClientState).Unharmed ↔ s.landed.length ≤ s.turn := by
  constructor
  · intro unharmed
    rcases ready.ahead with level | ⟨before, found⟩
    · exact le_of_eq level
    · exfalso
      obtain ⟨one, answers', -⟩ := ready.answered before found
      have kept : (s.landed ++ [reply])[s.turn]? = some before := by
        rw [List.getElem?_append_left (by omega), found]
      obtain ⟨more, shape⟩ := unharmed before kept
      rcases asks_singleton s.phase s.stage with none | ⟨first, single⟩
      · rw [none] at answers'
        cases answers'
      · rw [single] at answers'
        apply second_reply answers' answers
        have heads := congrArg List.head? shape
        simp only [Conn.land, writeFront, List.head?_append_of_ne_nil _ before.bytes_ne_nil,
          List.head?_append_of_ne_nil _ reply.bytes_ne_nil] at heads
        exact heads.symm
  · intro level after found
    have last : s.turn = s.landed.length := Nat.le_antisymm ready.turns level
    simp only [last, List.getElem?_concat_length, Option.some.injEq] at found
    subst found
    exact List.prefix_append ..

theorem ClientState.InTurn.land (ready : s.InTurn) {reply : Reply} {owed : List Owed}
    (answers : answer s.owed reply = some owed) (level : s.landed.length ≤ s.turn) :
    ({ s with
      conn := s.conn.land reply.bytes
      owed := owed
      landed := s.landed ++ [reply] } : ClientState).InTurn := by
  have last : s.landed.length = s.turn := Nat.le_antisymm level ready.turns
  have unharmed := (ready.land_iff answers).mpr level
  refine ⟨?_, ready.notLost, ?_, fun after found => ⟨?_, ?_, unharmed after found⟩⟩
  · simp only [List.length_append]
    omega
  · intro same
    simp only [List.length_append, List.length_cons, List.length_nil] at same
    omega
  · simp only [List.length_append, List.length_cons, List.length_nil]
    omega
  · simp only [← last, List.getElem?_concat_length, Option.some.injEq] at found
    subst found
    rw [← ready.unanswered last]
    exact answers

/-- The next phase asks for what is owed after the reply of the last one. -/
theorem asks_proceed {phase : Phase} {reply : Reply} {mem mem' : Mem} {cl : Client}
    {results : List (Call × Result)} {owed : List Owed}
    (answers : answer phase.wants reply = some owed)
    (went : Client.proceed ⟨phase, [], [reply]⟩ mem = some (cl, mem', results)) :
    cl.phase.asks (cl.phase.enter cl.requests) = owed ∧
      cl.phase.enter cl.requests ≠ .lost := by
  obtain ⟨-, -, ⟨asked, starts, next⟩ | ⟨asked, starts⟩⟩ := proceed_cases went
  · rw [starts]
    refine ⟨?_, ClientStage.noConfusion⟩
    rw [asked] at answers
    rcases next with ⟨⟨v, first⟩, wants⟩ | ⟨⟨n, first⟩, wants⟩ <;> cases first
    · simp only [answer] at answers
      split at answers <;> cases answers
      exact wants
    · simp only [answer] at answers
      split at answers <;> cases answers
      exact wants
  · have settled : owed = [] := by
      have one := repliesTo_le_one asked
      have less := repliesTo_answer answers
      by_contra more
      have positive := repliesTo_pos more
      omega
    rw [settled]
    rcases starts with starts | ⟨request, starts⟩ | ⟨starts, -⟩ <;> rw [starts] <;>
      exact ⟨rfl, ClientStage.noConfusion⟩

/-- After an RDMA phase nothing is asked yet. -/
theorem asks_proceed_rdma {phase : Phase} {mem mem' : Mem} {cl : Client}
    {results : List (Call × Result)} (none : phase.wants = [])
    (went : Client.proceed ⟨phase, [], []⟩ mem = some (cl, mem', results)) :
    cl.phase.asks (cl.phase.enter cl.requests) = [] ∧
      cl.phase.enter cl.requests ≠ .lost := by
  obtain ⟨-, -, ⟨asked, -⟩ | ⟨-, starts⟩⟩ := proceed_cases went
  · rw [none] at asked
    cases asked
  · rcases starts with starts | ⟨request, starts⟩ | ⟨starts, -⟩ <;> rw [starts] <;>
      exact ⟨rfl, ClientStage.noConfusion⟩

theorem RepliesRead.append (right : RepliesRead trace) (right' : RepliesRead events) :
    RepliesRead (trace ++ events) := fun phase reply buf member => by
  rcases List.mem_append.mp member with before | after
  · exact right phase reply buf before
  · exact right' phase reply buf after

theorem repliesRead_of_no_read (other : ∀ phase reply buf, .read phase reply buf ∉ events) :
    RepliesRead events := fun phase reply buf member => absurd member (other phase reply buf)

theorem repliesRead_returned (results : List (Call × Result)) :
    RepliesRead (results.map fun (call, result) => .returned call result) := by
  apply repliesRead_of_no_read
  intro phase reply buf member
  obtain ⟨result, -, same⟩ := List.mem_map.mp member
  cases same

/-- The reply of the step has landed before the wait for it is over. -/
theorem ClientState.InTurn.arrived (ready : s.InTurn) (acc : Accounted trace s)
    (here : s.stage = .reading) (wants : s.phase.wants ≠ []) :
    ∃ reply, s.landed[s.turn]? = some reply := by
  rcases ready.ahead with level | found
  · -- all that the phase asks for would still be owed, one more than is to come
    have owed := ready.unanswered level
    have counted := acc.counted
    have positive := repliesTo_pos wants
    rw [here, Phase.asks] at owed
    rw [here, Phase.due] at counted
    simp only [ClientState.available, owed] at counted
    omega
  · exact found

theorem ClientState.InTurn.finish (ready : s.InTurn) (acc : Accounted trace s)
    (here : s.stage = .reading) {mem : Mem} (finished : s.finish mem = some (s', events)) :
    s'.InTurn ∧ RepliesRead events := by
  rcases ClientState.finish_cases finished with
    ⟨none, cl, mem', results, went, rfl, rfl⟩ | ⟨wants, looked, shape, ended⟩
  · obtain ⟨asks, notLost⟩ := asks_proceed_rdma none went
    have asked : s.phase.asks s.stage = [] := by rw [here, Phase.asks, none]
    obtain ⟨level, owed⟩ := ready.quiet asked
    exact ⟨.of_quiet level notLost (owed.trans asks.symm), repliesRead_returned results⟩
  · obtain ⟨reply, found⟩ := ready.arrived acc here wants
    obtain ⟨one, answers, whole⟩ := ready.answered reply found
    rw [here, Phase.asks] at answers
    have read := reads_of_answer answers whole
    have looking : RepliesRead looked := by
      subst shape
      split
      next =>
        intro phase reply' buf member
        cases List.mem_singleton.mp member
        exact ⟨reply, found, whole, read⟩
      next => exact repliesRead_of_no_read fun _ _ _ => List.not_mem_nil
    rcases ended with ⟨unread, -⟩ | ⟨reply', cl, mem', results, read', went, rfl, rfl⟩
    · rw [read] at unread
      cases unread
    · rw [read] at read'
      cases read'
      obtain ⟨asks, notLost⟩ := asks_proceed answers went
      exact ⟨.of_quiet one notLost asks.symm, looking.append (repliesRead_returned results)⟩

/-- The message-level client of a state outside the waits: the replies ahead are its
queue, and a request that it sends next counts as sent. -/
def ClientState.client (s : ClientState) : Client where
  phase := s.phase
  requests := s.stage.requests
  replies := s.landed.drop s.turn

/-- The end of a phase is a step of the message-level client on the replies ahead. -/
theorem ClientState.InTurn.proceeds (ready : s.InTurn) (acc : Accounted trace s)
    (here : s.stage = .reading) {mem : Mem} (finished : s.finish mem = some (s', events)) :
    ∃ mem' results, s.client.proceed mem = some (s'.client, mem', results) := by
  have idle : s.client.requests = [] := by simp [ClientState.client, here, ClientStage.requests]
  rcases ClientState.finish_cases finished with
    ⟨none, cl, mem', results, went, rfl, -⟩ | ⟨wants, looked, -, ended⟩
  · have asked : s.phase.asks s.stage = [] := by rw [here, Phase.asks, none]
    have ahead : s.landed.drop s.turn = [] := List.drop_of_length_le (ready.quiet asked).1.le
    obtain ⟨requests, ⟨-, replies⟩ | ⟨wants, -⟩, -⟩ := proceed_cases went
    · refine ⟨mem', results, ?_⟩
      have same : (s.advance cl).client = cl := by
        simp only [ClientState.client, ClientState.advance, ahead, ← requests]
        rw [← replies]
      rw [same, ← went, ← ahead, ← idle]
      rfl
    · exact absurd none wants
  · obtain ⟨reply, found⟩ := ready.arrived acc here wants
    obtain ⟨one, answers, whole⟩ := ready.answered reply found
    rw [here, Phase.asks] at answers
    have read := reads_of_answer answers whole
    have ahead : s.landed.drop s.turn = [reply] := by
      obtain ⟨within, rfl⟩ := List.getElem?_eq_some_iff.mp found
      rw [List.drop_eq_getElem_cons within, List.drop_of_length_le (by omega)]
    rcases ended with ⟨unread, -⟩ | ⟨reply', cl, mem', results, read', went, rfl, -⟩
    · rw [read] at unread
      cases unread
    · rw [read] at read'
      cases read'
      obtain ⟨requests, ⟨none, -⟩ | ⟨-, reply'', replies⟩, -⟩ := proceed_cases went
      · exact absurd none wants
      · have rest : s.landed.drop (s.turn + 1) = cl.replies := by
          rw [List.drop_of_length_le (by omega)]
          exact (List.cons.inj replies).2
        refine ⟨mem', results, ?_⟩
        have same : ({ s.advance cl with turn := s.turn + 1 } : ClientState).client = cl := by
          simp only [ClientState.client, ClientState.advance, rest, ← requests]
        rw [same, ← went, ← ahead, ← idle]
        rfl

theorem ClientState.InTurn.step (ready : s.InTurn) (acc : Accounted trace s) {mem : Mem}
    (stepped : s.step mem = some (s', events)) : s'.InTurn ∧ RepliesRead events := by
  unfold ClientState.step at stepped
  split at stepped
  next request here =>
    cases stepped
    have asked : s.phase.asks s.stage = [] := by rw [here, Phase.asks]
    obtain ⟨level, owed⟩ := ready.quiet asked
    refine ⟨.of_quiet level ClientStage.noConfusion ?_, repliesRead_of_no_read fun _ _ _ =>
      List.not_mem_nil⟩
    simp only [owed, List.nil_append, Phase.asks]
  next here =>
    cases stepped
    have asked : s.phase.asks s.stage = [] := by rw [here, Phase.asks]
    obtain ⟨level, owed⟩ := ready.quiet asked
    have placed := acc.placed
    rw [here] at placed
    refine ⟨.of_quiet level ClientStage.noConfusion ?_, repliesRead_of_no_read fun _ _ _ =>
      List.not_mem_nil⟩
    simp only [owed, Phase.asks]
    exact placed.symm
  next here => exact ready.finish acc here stepped
  next => cases stepped

/-- A poll leaves the replies as they are. -/
theorem ClientState.InTurn.poll (ready : s.InTurn) {n : ℕ}
    (polled : s.poll n = some (s', events)) : s'.InTurn ∧ RepliesRead events := by
  obtain ⟨waits, ⟨rfl, rfl⟩ | ⟨batch, conn, taken, -, rfl, rfl⟩⟩ := ClientState.poll_cases polled
  · exact ⟨ready, repliesRead_of_no_read fun _ _ _ => List.not_mem_nil⟩
  have buf := (Conn.poll_counts taken).2.2.1
  have before : s.phase.asks s.stage = s.phase.wants := by
    rcases waits with here | here <;> rw [here, Phase.asks]
  have after : ∀ stage, stage = .awaiting ∨ stage = .reading →
      s.phase.asks stage = s.phase.wants := by
    intro stage next
    rcases next with rfl | rfl <;> rw [Phase.asks]
  have next : (if s.stage = .posted ∧ s.phase.wants ≠ [] then ClientStage.awaiting else .reading) =
      .awaiting ∨ (if s.stage = .posted ∧ s.phase.wants ≠ [] then ClientStage.awaiting else .reading) =
      .reading := by
    split
    next => exact .inl rfl
    next => exact .inr rfl
  refine ⟨⟨ready.turns, ?_, fun level => ?_, fun reply found => ?_⟩,
    repliesRead_of_no_read fun _ _ _ member => ?_⟩
  · rcases next with next | next <;>
    · rw [next]
      exact ClientStage.noConfusion
  · exact (ready.unanswered level).trans (before.trans (after _ next).symm)
  · obtain ⟨one, answers, whole⟩ := ready.answered reply found
    rw [before] at answers
    refine ⟨one, ?_, ?_⟩
    · simp only [after _ next]
      exact answers
    · simp only [buf]
      exact whole
  · cases List.mem_singleton.mp member

theorem ClientState.InTurn.next (ready : s.InTurn) (acc : Accounted trace s)
    {action : ClientAction} (met : inTurn trace s action)
    (next : s.next action = some (s', events)) : s'.InTurn ∧ RepliesRead events := by
  have silent : RepliesRead [] := repliesRead_of_no_read fun _ _ _ => List.not_mem_nil
  cases action with
  | invoke call =>
      simp only [ClientState.next, ClientState.invoke] at next
      split at next
      next free =>
        cases next
        have asked : s.phase.asks s.stage = [] := by rw [free.1, Phase.asks]
        obtain ⟨level, owed⟩ := ready.quiet asked
        refine ⟨?_, silent⟩
        cases call <;> exact .of_quiet level ClientStage.noConfusion owed
      next => cases next
  | step mem => exact ready.step acc next
  | land reply =>
      simp only [ClientState.next] at next
      split at next
      next =>
        obtain ⟨owed, answers, done⟩ := Option.map_eq_some_iff.mp next
        cases done
        exact ⟨ready.land answers met, silent⟩
      next => cases next
  | complete wc =>
      obtain ⟨conn, appears, done⟩ := Option.map_eq_some_iff.mp next
      cases done
      have buf := (Conn.complete_counts appears).2.2
      refine ⟨⟨ready.turns, ready.notLost, ready.unanswered, fun reply found => ?_⟩, silent⟩
      obtain ⟨one, answers, whole⟩ := ready.answered reply found
      exact ⟨one, answers, by rw [buf]; exact whole⟩
  | poll n => exact ready.poll next

end Steps

theorem inTurn_start : clientLoop.init.InTurn :=
  .of_quiet rfl ClientStage.noConfusion rfl

theorem inTurn_of_run {trace : List ClientEvent} {s : ClientState}
    (run : clientLoop.Run inTurn trace s) : s.InTurn ∧ RepliesRead trace := by
  induction run with
  | init => exact ⟨inTurn_start, repliesRead_of_no_read fun _ _ _ => List.not_mem_nil⟩
  | step before met next ih =>
      obtain ⟨ready, right⟩ := ih.1.next (accounted_of_run before.toAlways) met next
      exact ⟨ready, ih.2.append right⟩

/-- As long as replies land in turn, the byte-level client refines the message-level one:
every end of a phase is a step of `Client.proceed` on the replies of the server. -/
theorem proceeds_of_run {trace events : List ClientEvent} {s s' : ClientState} {mem : Mem}
    (run : clientLoop.Run inTurn trace s) (here : s.stage = .reading)
    (finished : s.finish mem = some (s', events)) :
    ∃ mem' results, s.client.proceed mem = some (s'.client, mem', results) :=
  (inTurn_of_run run).1.proceeds (accounted_of_run run.toAlways) here finished

/-- In every run whose replies land in turn, the client reads the reply of each step, and
all of it; a reply that lands leaves the reply of the step whole exactly if it lands in
turn. -/
theorem repliesRead_of_run {trace : List ClientEvent} {s : ClientState}
    (run : clientLoop.Run inTurn trace s) :
    RepliesRead trace ∧ ∀ reply s' events, s.next (.land reply) = some (s', events) →
      (s'.Unharmed ↔ s.landed.length ≤ s.turn) := by
  obtain ⟨ready, right⟩ := inTurn_of_run run
  refine ⟨right, fun reply s' events next => ?_⟩
  simp only [ClientState.next] at next
  split at next
  next =>
    obtain ⟨owed, answers, done⟩ := Option.map_eq_some_iff.mp next
    cases done
    exact ready.land_iff answers
  next => cases next

/-- A get whose final ACK lands after the value was read. -/
theorem repliesRead_after_get : ∃ trace s, clientLoop.Run inTurn trace s ∧
    .returned (.kvGet keyK) (.value valueV.bytes) ∈ trace ∧ RepliesRead trace := by
  obtain ⟨trace, s, run, ends⟩ := Machine.Run.of_exec clientLoop inTurn
    [.invoke (.kvGet keyK), .step emptyHeap, .complete .send, .poll 1, .land .ack,
      .complete .recv, .poll 1, .step emptyHeap, .step emptyHeap, .complete .send, .poll 1,
      .land (.eager valueV.bytes), .complete .recv, .poll 1, .step emptyHeap, .land .ack,
      .complete .recv, .poll 1, .step emptyHeap]
    (fun trace _ => decide (.returned (.kvGet keyK) (.value valueV.bytes) ∈ trace))
    (by decide +kernel)
  exact ⟨trace, s, run, of_decide_eq_true ends, (repliesRead_of_run run).1⟩

/-- The reply made of the buffer is not the one that is meant for the step. -/
def ClientEvent.misread : ClientEvent → Bool
  | .read phase reply buf => phase.reads buf ≠ reply
  | _ => false

/-- The final ACK of an eager get lands over the first byte of `e:v` before the client
reads it: it finds `T:v` and takes the value for a large one. -/
theorem reply_overwritten : ¬ ∀ trace s, clientLoop.Run always trace s → RepliesRead trace := by
  intro allRead
  obtain ⟨trace, s, run, ends⟩ := Machine.Run.of_exec clientLoop always
    [.invoke (.kvGet keyK), .step emptyHeap, .complete .send, .poll 1, .land .ack,
      .complete .recv, .poll 1, .step emptyHeap, .step emptyHeap, .complete .send, .poll 1,
      .land (.eager valueV.bytes), .complete .recv, .poll 1, .land .ack, .step emptyHeap]
    (fun trace _ => trace.any ClientEvent.misread) (by decide +kernel)
  obtain ⟨event, member, wrong⟩ := List.any_eq_true.mp ends
  cases event with
  | read phase reply buf =>
      obtain ⟨r, rfl, -, read⟩ := allRead trace s run phase reply buf member
      simp only [ClientEvent.misread, read] at wrong
      exact of_decide_eq_true wrong rfl
  | took | returned => cases wrong

end RdmaWiki
