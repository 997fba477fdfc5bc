import RdmaWiki.ServerLoop

/-!
The bytes of a request between its landing and its parse.

The buffer of a connection is where the client's next request lands, and it is the
scratch space of every reply: `send_ACK` and `send_NACK` save its first byte,
overwrite it, and put it back when their wait is over. A request that lands during
that wait keeps its bytes exactly if it starts with the saved byte
(`requestsIntact_iff_of_run`); a client that acts on an ACK before the server has seen
the ACK's completion has its request altered (`request_altered`).
-/

namespace RdmaWiki

open CText StepMachine

variable {N : ℕ}

/-- The messages of `c` without a call of `parse_data`, oldest first. -/
def unread (c : Fin N) (trace : List (ServerEvent N)) : List Bytes :=
  (arrivals c trace).drop (parseCalls c trace).length

/-- The byte that a send to `c` will put back. -/
def ServerPc.saved (pc : ServerPc N) (c : Fin N) : Option UInt8 :=
  match pc with
  | .waiting d first _ => if d = c then first else none
  | _ => none

/-- The buffer of `c` as it is when a saved byte is put back. -/
def ServerState.settled (s : ServerState N) (c : Fin N) : Bytes :=
  ((s.conns c).restore (s.pc.saved c)).buf

/-- `parse_data` has cut apart exactly the messages, in their order, and a message that
it has not seen yet is whole in the buffer. -/
structure RequestsIntact (trace : List (ServerEvent N)) (s : ServerState N) : Prop where
  parsed : ∀ c, parseCalls c trace <+: arrivals c trace
  held : ∀ c, unread c trace = [] ∨
    ∃ message, unread c trace = [message] ∧ message ++ [0] <+: s.settled c

/-- Any reply but an ACK and a NACK. -/
def Reply.isText : Reply → Bool
  | .ack => false
  | .nack => false
  | .eager _ => true
  | .size _ => true
  | .region _ _ => true

/-- A message lands when all earlier ones are parsed, and over a saved byte only if it
starts with it; `parse_data` is called for a message, and a text is printed into a
buffer without one. -/
def bufferKept : Guard (ServerState N) (ServerAction N) (ServerEvent N)
  | trace, s, .land c message =>
    unread c trace = [] ∧
      ∀ first ∈ s.pc.saved c, (onWire message.bytes).head? = some first
  | trace, s, .parse _ _ =>
    match s.pc with
    | .parsing c => unread c trace ≠ []
    | _ => True
  | trace, s, .send =>
    match s.pc with
    | .sending ((c, reply) :: _) => reply.isText = true → unread c trace = []
    | _ => True
  | _, _, _ => True

instance (trace : List (ServerEvent N)) (s : ServerState N) (action : ServerAction N) :
    Decidable (bufferKept trace s action) := by
  unfold bufferKept
  split
  next => infer_instance
  next => split <;> infer_instance
  next => split <;> infer_instance
  next => exact .isTrue True.intro

section Buffers

variable {data buf : Bytes} {conn : Conn}

@[simp] theorem writeFront_nil (buf : Bytes) : writeFront [] buf = buf := rfl

/-- A byte put back over a text that starts with it changes nothing. -/
theorem Conn.restore_starts {first : Option UInt8} (whole : data <+: conn.buf)
    (same : ∀ b ∈ first, data.head? = some b) : data <+: (conn.restore first).buf := by
  cases first with
  | none => exact whole
  | some b =>
      obtain ⟨rest, rfl⟩ := List.head?_eq_some_iff.mp (same b rfl)
      obtain ⟨more, shape⟩ := whole
      exact ⟨more, by simp [Conn.restore, writeFront, ← shape]⟩

/-- A byte put back over a text that starts otherwise alters it. -/
theorem Conn.head_restore {b : UInt8} (whole : data <+: (conn.restore (some b)).buf)
    (nonempty : data ≠ []) : data.head? = some b := by
  obtain ⟨x, rest, rfl⟩ := List.exists_cons_of_ne_nil nonempty
  obtain ⟨more, shape⟩ := whole
  simp only [Conn.restore, writeFront, Option.toList_some, List.cons_append] at shape
  simp [(List.cons.inj shape).1]

/-- `send_ACK` and `send_NACK` put the buffer back as it was. -/
theorem Conn.send_restore {reply : Reply} (short : reply.isText = false)
    (nonempty : conn.buf ≠ []) :
    ((conn.send reply).1.restore (conn.send reply).2).buf = conn.buf := by
  obtain ⟨b, rest, shape⟩ := List.exists_cons_of_ne_nil nonempty
  cases reply with
  | ack => simp [Conn.send, Conn.post, Conn.restore, writeFront, shape, ascii]
  | nack => simp [Conn.send, Conn.post, Conn.restore, writeFront, shape, ascii]
  | eager value => cases short
  | size n => cases short
  | region rkey addr => cases short

end Buffers

section Steps

variable {trace events : List (ServerEvent N)} {s s' : ServerState N}

theorem unread_eq_nil (parsed : ∀ c, parseCalls c trace <+: arrivals c trace) {c : Fin N}
    (empty : unread c trace = []) : arrivals c trace = parseCalls c trace := by
  have bound := List.drop_eq_nil_iff.mp empty
  exact ((parsed c).eq_of_length_le bound).symm

theorem unread_eq_singleton (parsed : ∀ c, parseCalls c trace <+: arrivals c trace)
    {c : Fin N} {message : Bytes} (one : unread c trace = [message]) :
    arrivals c trace = parseCalls c trace ++ [message] := by
  obtain ⟨rest, shape⟩ := parsed c
  rw [unread, ← shape, List.drop_left] at one
  rw [← shape, one]

/-- A step without a landing and without a call keeps the bytes if it keeps the settled
buffers of unread messages. -/
theorem RequestsIntact.of_settled (intact : RequestsIntact trace s)
    (arrived : ∀ c, arrivals c events = []) (called : ∀ c, parseCalls c events = [])
    (settled : ∀ c message, unread c trace = [message] → message ++ [0] <+: s.settled c →
      message ++ [0] <+: s'.settled c) : RequestsIntact (trace ++ events) s' where
  parsed := fun c => by
    rw [arrivals_append, parseCalls_append, arrived, called, List.append_nil, List.append_nil]
    exact intact.parsed c
  held := fun c => by
    have same : unread c (trace ++ events) = unread c trace := by
      simp only [unread, arrivals_append, parseCalls_append, arrived, called, List.append_nil]
    rw [same]
    rcases intact.held c with empty | ⟨message, one, whole⟩
    · exact .inl empty
    · exact .inr ⟨message, one, settled c message one whole⟩

theorem ServerState.settled_setConn_of_ne (s : ServerState N) {c d : Fin N} (other : d ≠ c)
    (conn : Conn) : (s.setConn c conn).settled d = s.settled d := by
  simp only [ServerState.settled, s.setConn_of_ne other, ServerState.setConn_pc]

/-- A message that lands is held intact exactly if the condition is met. -/
theorem RequestsIntact.land_iff (intact : RequestsIntact trace s) (c : Fin N)
    (message : CString) :
    RequestsIntact (trace ++ [.landed c message])
        (s.setConn c ((s.conns c).land (onWire message.bytes))) ↔
      bufferKept trace s (.land c message) := by
  have wire := onWire_noNul message.noNul
  have nonempty : message.bytes ++ [0] ≠ [] := by simp
  have next : unread c (trace ++ [.landed c message]) =
      unread c trace ++ [message.bytes] := by
    obtain ⟨rest, shape⟩ := intact.parsed c
    simp [unread, ← shape]
  have others : ∀ d, d ≠ c →
      unread d (trace ++ [.landed c message]) = unread d trace := fun d other => by
    simp [unread, other.symm]
  constructor
  · intro after
    rcases after.held c with empty | ⟨last, one, whole⟩
    · rw [next] at empty
      simp at empty
    · rw [next, List.append_eq_singleton_iff] at one
      simp only [List.cons_ne_nil, and_false, or_false, List.cons.injEq, and_true] at one
      obtain ⟨empty, rfl⟩ := one
      refine ⟨empty, fun first saved => ?_⟩
      simp only [ServerState.settled, ServerState.setConn_self, ServerState.setConn_pc,
        Option.mem_def.mp saved] at whole
      rw [wire]
      exact Conn.head_restore whole nonempty
  · intro ⟨empty, same⟩
    refine ⟨fun d => ?_, fun d => ?_⟩
    · rcases eq_or_ne d c with rfl | other
      · rw [arrivals_append, parseCalls_append, parseCalls_landed, List.append_nil]
        exact (intact.parsed d).trans (List.prefix_append ..)
      · simpa [other.symm] using intact.parsed d
    · rcases eq_or_ne d c with rfl | other
      · refine .inr ⟨message.bytes, by rw [next, empty]; rfl, ?_⟩
        rw [wire] at same
        simp only [ServerState.settled, ServerState.setConn_self, ServerState.setConn_pc, wire]
        exact Conn.restore_starts (writeFront_starts ..) same
      · rw [others d other, s.settled_setConn_of_ne other]
        exact intact.held d

theorem RequestsIntact.complete (intact : RequestsIntact trace s) {c : Fin N} {wc : Wc}
    {conn : Conn} (appears : (s.conns c).complete wc = some conn) :
    RequestsIntact (trace ++ []) (s.setConn c conn) := by
  apply intact.of_settled (fun _ => rfl) (fun _ => rfl)
  intro d message _ whole
  have buf := ServerState.setConn_same Conn.buf s (Conn.complete_counts appears).2.2 d
  simpa [ServerState.settled, Conn.restore, buf] using whole

theorem RequestsIntact.poll [NeZero N] (intact : RequestsIntact trace s) {n : ℕ}
    (polled : s.poll n = some s') : RequestsIntact (trace ++ []) s' := by
  apply intact.of_settled (fun _ => rfl) (fun _ => rfl)
  intro d message _ whole
  rcases ServerState.poll_cases polled with
    ⟨rfl, rfl | ⟨index, here, rfl⟩⟩ | ⟨index, batch, conn, routs, here, taken, nonempty, rfl⟩ |
    ⟨c, first, todo, batch, conn, here, taken, nonempty, rfl⟩
  · exact whole
  · simpa [ServerState.settled, here, ServerPc.saved] using whole
  · have buf := (Conn.poll_counts taken).2.2.1
    simp only [ServerState.settled, here, ServerPc.saved] at whole ⊢
    rcases eq_or_ne d index with rfl | other
    · simpa [Conn.restore, buf] using whole
    · rwa [s.setConn_of_ne other]
  · have buf := (Conn.poll_counts taken).2.2.1
    simp only [ServerState.settled, here, ServerPc.saved] at whole ⊢
    rcases eq_or_ne d c with rfl | other
    · simpa [Conn.restore, buf] using whole
    · simpa [s.setConn_of_ne other, other.symm] using whole

/-- What `parse_data` cuts apart is the message that it has not seen yet. -/
theorem RequestsIntact.text_eq (intact : RequestsIntact trace s) {c : Fin N} {message : Bytes}
    (here : s.pc = .parsing c) (one : unread c trace = [message]) :
    text (s.conns c).buf = message := by
  rcases intact.held c with empty | ⟨message', one', whole⟩
  · rw [empty] at one
    cases one
  · rw [one] at one'
    cases one'
    have isArrival : message ∈ arrivals c trace := by
      simp [unread_eq_singleton intact.parsed one]
    have settled : s.settled c = (s.conns c).buf := by
      simp [ServerState.settled, here, ServerPc.saved, Conn.restore]
    rw [settled] at whole
    obtain ⟨more, shape⟩ := whole
    rw [← shape, List.append_assoc]
    exact text_append_nul (arrivals_noNul c message isArrival)

/-- A call of `parse_data` is made for a message exactly if one is unread, and then cuts
that message apart. -/
theorem RequestsIntact.parse_iff (intact : RequestsIntact trace s) {addr : UInt64}
    {rkey : UInt32} (parsed : s.parse addr rkey = some (s', events)) :
    RequestsIntact (trace ++ events) s' ↔ bufferKept trace s (.parse addr rkey) := by
  obtain ⟨c, here, rfl, conns, pc⟩ := ServerState.parse_cases parsed
  have moved : ∀ d, s'.pc.saved d = none := by
    rcases pc with pc | ⟨todo, pc⟩ <;> rw [pc] <;> exact fun _ => rfl
  have before : ∀ d, s.settled d = (s.conns d).buf := fun d => by
    simp [ServerState.settled, here, ServerPc.saved, Conn.restore]
  have condition : bufferKept trace s (.parse addr rkey) ↔ unread c trace ≠ [] := by
    simp [bufferKept, here]
  rw [condition]
  constructor
  · intro after empty
    have all := unread_eq_nil intact.parsed empty
    have longer := (after.parsed c).length_le
    simp only [arrivals_append, arrivals_parsed, parseCalls_append, parseCalls_parsed, if_true,
      List.length_append, List.length_cons, List.length_nil, all] at longer
    omega
  · intro waiting
    rcases intact.held c with empty | ⟨message, one, whole⟩
    · exact absurd empty waiting
    have arrived := unread_eq_singleton intact.parsed one
    rw [intact.text_eq here one]
    refine ⟨fun d => ?_, fun d => ?_⟩
    · rcases eq_or_ne d c with rfl | other
      · simp [arrived]
      · simpa [other.symm] using intact.parsed d
    · rcases eq_or_ne d c with rfl | other
      · left
        simp [unread, arrived]
      · have same : unread d (trace ++ [.parsed c message]) = unread d trace := by
          simp [unread, other.symm]
        have settled : s'.settled d = s.settled d := by
          rw [before, ServerState.settled, moved, conns, s.setConn_of_ne other]
          rfl
        rw [same, settled]
        exact intact.held d

theorem RequestsIntact.send [NeZero N] (intact : RequestsIntact trace s)
    (kept : bufferKept trace s .send) (sent : s.send = some (s', events)) :
    RequestsIntact (trace ++ events) s' := by
  rcases ServerState.send_cases sent with
    ⟨here, rfl, rfl⟩ | ⟨c, reply, todo, here, rfl, rfl⟩
  · apply intact.of_settled (fun _ => rfl) (fun _ => rfl)
    intro d message _ whole
    simpa [ServerState.settled, here, ServerPc.saved] using whole
  · apply intact.of_settled (fun _ => rfl) (fun _ => rfl)
    intro d message one whole
    simp only [ServerState.settled, here, ServerPc.saved] at whole ⊢
    rcases eq_or_ne d c with rfl | other
    · have short : reply.isText = false := by
        apply Bool.eq_false_iff.mpr
        intro long
        simp only [bufferKept, here] at kept
        rw [kept long] at one
        cases one
      have nonempty : (s.conns d).buf ≠ [] := fun empty => by
        simp [Conn.restore, empty] at whole
      simp only [ServerState.setConn_self, if_true, Conn.send_restore short nonempty]
      exact whole
    · simpa [s.setConn_of_ne other, other.symm] using whole

/-- The condition keeps the bytes of every request. -/
theorem RequestsIntact.next [NeZero N] (intact : RequestsIntact trace s)
    {action : ServerAction N} (kept : bufferKept trace s action)
    (next : s.next action = some (s', events)) : RequestsIntact (trace ++ events) s' := by
  cases action with
  | land c message =>
      simp only [ServerState.next] at next
      split at next
      next =>
        cases next
        exact (intact.land_iff c message).mpr kept
      next => cases next
  | rdmaWrite addr rkey data =>
      cases next
      exact intact.of_settled (fun _ => rfl) (fun _ => rfl) fun _ _ _ whole => whole
  | complete c wc =>
      obtain ⟨conn, appears, done⟩ := Option.map_eq_some_iff.mp next
      cases done
      exact intact.complete appears
  | poll n =>
      obtain ⟨moved, polled, done⟩ := Option.map_eq_some_iff.mp next
      cases done
      exact intact.poll polled
  | parse addr rkey => exact (intact.parse_iff next).mpr kept
  | send => exact intact.send kept next

/-- The buffer of a message handles like the message. -/
theorem parseData_text {env : Env N} {w : World N} {c : Fin N} {buf message : Bytes}
    (noNul : (0 : UInt8) ∉ message) (same : text buf = message) :
    parseData env w (onWire message) c = parseData env w buf c := by
  have wire : onWire message = onWire buf := by rw [onWire_noNul noNul, onWire, same]
  rw [parseData, parseData, wire, parseRequest_onWire]

end Steps

theorem requestsIntact_start (N : ℕ) [NeZero N] : RequestsIntact [] (ServerState.start N) :=
  ⟨fun _ => List.prefix_rfl, fun _ => .inl rfl⟩

theorem intact_of_run [NeZero N] {trace : List (ServerEvent N)} {s : ServerState N}
    (run : (serverLoop N).Run bufferKept trace s) : RequestsIntact trace s := by
  induction run with
  | init => exact requestsIntact_start N
  | step before kept next ih => exact ih.next kept next

/-- In every run that meets the condition `parse_data` cuts apart exactly the messages of
each client; a message that lands and a call of `parse_data` keep this up exactly if
they meet it. -/
theorem requestsIntact_iff_of_run [NeZero N] {trace : List (ServerEvent N)}
    {s : ServerState N} (run : (serverLoop N).Run bufferKept trace s) :
    RequestsIntact trace s ∧ ∀ action s' events, action ≠ .send →
      s.next action = some (s', events) →
        (RequestsIntact (trace ++ events) s' ↔ bufferKept trace s action) := by
  have intact := intact_of_run run
  refine ⟨intact, fun action s' events other next => ?_⟩
  cases action with
  | land c message =>
      simp only [ServerState.next] at next
      split at next
      next =>
        cases next
        exact intact.land_iff c message
      next => cases next
  | rdmaWrite addr rkey data =>
      have kept : bufferKept trace s (.rdmaWrite addr rkey data) := True.intro
      exact iff_of_true (intact.next kept next) kept
  | complete c wc =>
      have kept : bufferKept trace s (.complete c wc) := True.intro
      exact iff_of_true (intact.next kept next) kept
  | poll n =>
      have kept : bufferKept trace s (.poll n) := True.intro
      exact iff_of_true (intact.next kept next) kept
  | parse addr rkey => exact intact.parse_iff next
  | send => exact absurd rfl other

/-- A set whose second message lands after the first byte was put back. -/
theorem requestsIntact_after_set : ∃ trace, ∃ s : ServerState numClients,
    (serverLoop numClients).Run bufferKept trace s ∧
      parseCalls 0 trace = [askText.bytes, setText.bytes] ∧ RequestsIntact trace s := by
  obtain ⟨trace, s, run, ends⟩ := Machine.Run.of_exec (serverLoop numClients) bufferKept
    (ackPosted ++ [.complete 0 .send, .poll 1, .send, .land 0 setText, .complete 0 .recv,
      .poll 0, .poll 1, .parse 0 0])
    (fun trace _ => decide (parseCalls 0 trace = [askText.bytes, setText.bytes]))
    (by decide +kernel)
  exact ⟨trace, s, run, of_decide_eq_true ends, (requestsIntact_iff_of_run run).1⟩

/-- The client acts on its ACK at once; `send_ACK` puts the `a` of `as:k:` over the first
byte of `se:k:v`, and `parse_data` gets `ae:k:v`. -/
theorem request_altered : ¬ ∀ trace, ∀ s : ServerState numClients,
    (serverLoop numClients).Run always trace s →
      ∀ c, parseCalls c trace <+: arrivals c trace := by
  intro callsWhole
  obtain ⟨trace, s, run, ends⟩ := Machine.Run.of_exec (serverLoop numClients) always
    (ackPosted ++ [.land 0 setText, .complete 0 .send, .poll 1, .send, .complete 0 .recv,
      .poll 0, .poll 1, .parse 0 0])
    (fun trace _ => decide (parseCalls 0 trace =
        [askText.bytes, ascii ['a', 'e', ':', 'k', ':', 'v']] ∧
      arrivals 0 trace = [askText.bytes, setText.bytes])) (by decide +kernel)
  obtain ⟨called, arrived⟩ := of_decide_eq_true ends
  have whole := callsWhole trace s run 0
  rw [called, arrived] at whole
  exact absurd whole (by decide)

end RdmaWiki
