import RdmaWiki.Contents
import RdmaWiki.Lib.AtomicObject

/-!
The store as one register for each key.

A set takes effect when its `se` or `fs` is handled, a get when its `g0` is
handled, a refused set when it returns. In every run in which no `g0` is handled
while the other client is inside a set of its key, these moments make the
history of each key an execution of an atomic register (`linearizable_of_run`).
Otherwise a get may read the zeroed bytes of a value that is still being written
(`unwritten_value_read`).
-/

namespace RdmaWiki

open CText StepMachine Locks AtomicObject

variable {N : ℕ}

/-- A register without a value at first. A refused set leaves it alone. -/
def register : Spec (Option Bytes) Call Result where
  init := none
  act s call result s' :=
    match call, result with
    | .kvSet _ value, .stored => s' = some value.bytes
    | .kvSet _ _, .refused => s' = s
    | .kvGet _, .value v => s = some v ∧ s' = s
    | _, _ => False

/-- The calls and the returns about the key `k`. -/
def Event.about (k : Bytes) : Event N → Option (Visible (Fin N) Call Result)
  | .inv c call => if call.key.bytes = k then some (.call c call) else none
  | .res c call result => if call.key.bytes = k then some (.ret c call result) else none
  | .wokenGet _ _ => none

def history (k : Bytes) (trace : List (Event N)) : List (Visible (Fin N) Call Result) :=
  trace.filterMap (Event.about k)

/-- The key and the value of the call are words. -/
def Call.Words : Call → Prop
  | .kvSet key value => IsWord key.bytes ∧ IsWord value.bytes
  | .kvGet key => IsWord key.bytes

instance (call : Call) : Decidable call.Words :=
  match call with
  | .kvSet key value => inferInstanceAs (Decidable (IsWord key.bytes ∧ IsWord value.bytes))
  | .kvGet key => inferInstanceAs (Decidable (IsWord key.bytes))

/-- If the next request of `c` is a `g0`, then no other client is inside a set of its
key. -/
def Config.QuietGet (cfg : Config N) (c : Fin N) : Prop :=
  match cfg.nextRequest c with
  | some (.get k) => ∀ d, d ≠ c → (cfg.clients d).pos ≠ .inSet k
  | _ => True

instance (cfg : Config N) (c : Fin N) : Decidable (cfg.QuietGet c) := by
  unfold Config.QuietGet
  exact
    match cfg.nextRequest c with
    | some (.get _) => inferInstance
    | some (.setAsk _) | some (.setEager _ _) | some (.setRendezvous _ _) | some (.setFin _)
    | some (.getAsk _) | some (.getFin _) | none => .isTrue True.intro

/-- Calls are about words, and gets are handled while their key is quiet. -/
def quietGets : Guard (Config N) (Action N) (Event N)
  | _, _, .invoke _ call => call.Words
  | _, _, .proceed _ => True
  | _, cfg, .serve c _ _ => cfg.QuietGet c

instance (trace : List (Event N)) (cfg : Config N) (action : Action N) :
    Decidable (quietGets trace cfg action) :=
  match action with
  | .invoke _ call => inferInstanceAs (Decidable call.Words)
  | .proceed _ => .isTrue True.intro
  | .serve c _ _ => inferInstanceAs (Decidable (cfg.QuietGet c))

/-- The result with which the call in progress has taken effect. A client that reads
a large value will return what the register `s` holds. -/
def Client.outcome (s : Option Bytes) (cl : Client) : Option Result :=
  match cl.phase, cl.replies with
  | .setEager _ _, _ :: _ => some .stored
  | .setFin _ _, _ :: _ => some .stored
  | .get _, .eager v :: _ => some (.value v)
  | .get _, .size _ :: _ => s.map .value
  | .getEager _ v, _ => some (.value v)
  | .getRendezvous _ _, _ => s.map .value
  | .getRead _ _ _ _, _ => s.map .value
  | .getFin _ v, _ => some (.value v)
  | _, _ => none

/-- How far a client is with its operation on the register of `k`. -/
def Client.stage (k : Bytes) (s : Option Bytes) (cl : Client) : Stage Call Result :=
  match cl.phase.call with
  | none => .idle
  | some call =>
    if call.key.bytes = k then
      match cl.outcome s with
      | none => .called call
      | some result => .done call result
    else .idle

/-- The register of `k` has the history of the run; it holds the text of the record
while nobody is inside a set of it. -/
structure Simulates (k : Bytes) (trace : List (Event N)) (cfg : Config N)
    (s : Option Bytes) : Prop where
  atomic : Atomic register (history k trace) s fun d => (cfg.clients d).stage k s
  content : ∀ body, (∀ d, (cfg.clients d).pos ≠ .inSet k) → cfg.Content k body → s = some body

section Stages

variable {cl : Client} {k v : Bytes} {s s' : Option Bytes} {call : Call} {result : Result}

theorem Client.stage_called (during : cl.phase.call = some call) (about : call.key.bytes = k)
    (pending : cl.outcome s = none) : cl.stage k s = .called call := by
  simp only [Client.stage, during, about, if_true, pending]

theorem Client.stage_done (during : cl.phase.call = some call) (about : call.key.bytes = k)
    (taken : cl.outcome s = some result) : cl.stage k s = .done call result := by
  simp only [Client.stage, during, about, if_true, taken]

theorem Client.stage_other (during : cl.phase.call = some call) (other : call.key.bytes ≠ k) :
    cl.stage k s = .idle := by
  simp only [Client.stage, during, if_neg other]

theorem Client.stage_congr {cl' : Client} (call : cl'.phase.call = cl.phase.call)
    (outcome : cl'.outcome s' = cl.outcome s) : cl'.stage k s' = cl.stage k s := by
  simp only [Client.stage, call, outcome]

/-- The stage of a client that does not read the record of `k` does not depend on the
register. -/
theorem Client.Shape.stage_eq (shape : cl.Shape) (notReading : cl.pos ≠ .reading k)
    (word : ∀ call, cl.phase.call = some call → IsWord call.key.bytes) (s s' : Option Bytes) :
    cl.stage k s' = cl.stage k s := by
  -- the three points at which a client reads
  have reads {key : CString} {k' : Bytes} (during : cl.phase.call = some (.kvGet key))
      (named : serverKey key.bytes = some k') (reading : cl.pos = .reading k') :
      cl.stage k s' = cl.stage k s := by
    have own : serverKey key.bytes = some key.bytes := serverKey_isWord (word _ during)
    rw [named, Option.some.injEq] at own
    subst own
    have other : (Call.kvGet key).key.bytes ≠ k := by
      intro same
      subst same
      exact notReading reading
    rw [stage_other during other, stage_other during other]
  cases shape with
  | getSizeSent named => exact reads rfl named (Client.pos_eq named rfl rfl)
  | getRegion named => exact reads rfl named (Client.pos_eq named rfl rfl)
  | getRead named => exact reads rfl named (Client.pos_eq named rfl rfl)
  | _ => rfl

/-- A client that goes on stays at its stage, or it returns with the result with which
its call has taken effect; a refused set takes effect as it returns. -/
theorem Client.Shape.proceed_stage {cl' : Client} {mem mem' : Mem}
    {results : List (Call × Result)} (shape : cl.Shape)
    (next : cl.proceed mem = some (cl', mem', results))
    (reads : ∀ key n rkey addr, cl.phase = .getRead key n rkey addr → key.bytes = k →
      s = some (text (mem.rdmaRead addr rkey n.toNat ++ [0]))) :
    (results = [] ∧ cl'.stage k s = cl.stage k s) ∨
      ∃ call result, results = [(call, result)] ∧ cl.phase.call = some call ∧
        cl'.stage k s = .idle ∧ (cl.outcome s = some result ∨
          (cl.outcome s = none ∧ result = .refused ∧ ∃ key value, call = .kvSet key value)) := by
  cases shape.goes next with
  | refuse => exact .inr ⟨_, _, rfl, rfl, rfl, .inr ⟨rfl, rfl, _, _, rfl⟩⟩
  | storeEager | storeLarge | loadEager | loadLarge =>
      exact .inr ⟨_, _, rfl, rfl, rfl, .inl rfl⟩
  | @getFin key k' n rkey addr named =>
      refine .inl ⟨rfl, ?_⟩
      rcases eq_or_ne key.bytes k with about | other
      · rw [reads key n rkey addr rfl about]
        exact stage_congr rfl rfl
      · have different : (Call.kvGet key).key.bytes ≠ k := other
        exact (stage_other rfl different).trans (stage_other rfl different).symm
  | setEager | setSize | setWrite | setFin | get | getEager | getSize | getRead =>
      exact .inl ⟨rfl, rfl⟩

end Stages

section History

variable {trace : List (Event N)} {k : Bytes} {c : Fin N} {call : Call} {result : Result}

theorem history_append (trace' : List (Event N)) :
    history k (trace ++ trace') = history k trace ++ history k trace' :=
  List.filterMap_append

theorem history_inv (about : call.key.bytes = k) :
    history k [Event.inv c call] = [.call c call] := by
  simp [history, Event.about, about]

theorem history_res (about : call.key.bytes = k) :
    history k [Event.res c call result] = [.ret c call result] := by
  simp [history, Event.about, about]

theorem history_inv_other (other : call.key.bytes ≠ k) :
    history k [Event.inv c call] = [] := by
  simp [history, Event.about, other]

theorem history_res_other (other : call.key.bytes ≠ k) :
    history k [Event.res c call result] = [] := by
  simp [history, Event.about, other]

theorem history_woken {cfg : Config N} {sent : List (Fin N × Reply)} :
    history k (cfg.wokenEvents c sent) = [] := by
  rw [history, List.filterMap_eq_nil_iff]
  intro e member
  obtain ⟨message, -, woken⟩ := List.mem_filterMap.mp member
  split at woken
  next => cases woken
  next =>
    split at woken
    next => cases woken; rfl
    next => cases woken

end History

/-! ## One step -/

section Steps

variable {trace events : List (Event N)} {cfg cfg' : Config N} {c d : Fin N} {k : Bytes}
  {s : Option Bytes} {addr : UInt64} {rkey : UInt32} {call : Call} {w : World N} {r : Request}

theorem stage_update {clients : Fin N → Client} {cl : Client} :
    (fun d => (Function.update clients c cl d).stage k s) =
      Function.update (fun d => (clients d).stage k s) c (cl.stage k s) := by
  funext d
  rcases eq_or_ne d c with rfl | other
  · rw [Function.update_self, Function.update_self]
  · rw [Function.update_of_ne other, Function.update_of_ne other]

theorem Simulates.invoke (sim : Simulates k trace cfg s) (linked : Linked trace cfg)
    (next : cfg.next (.invoke c call) = some (cfg', events)) :
    Simulates k (trace ++ events) cfg' s := by
  obtain ⟨idle, -, rfl, rfl⟩ := Config.next_invoke next
  have own : cfg.clients c = ⟨.idle, [], []⟩ := by
    have shape := linked.shape c
    generalize cfg.clients c = cl at shape idle
    cases shape <;> first | rfl | cases idle
  have before : (cfg.clients c).stage k s = .idle := by
    rw [own]
    rfl
  have during : ((cfg.clients c).invoke call).phase.call = some call := by
    cases call <;> rfl
  have pending : ((cfg.clients c).invoke call).outcome s = none := by
    cases call <;> rfl
  constructor
  · rw [stage_update, history_append]
    rcases eq_or_ne call.key.bytes k with about | other
    · rw [history_inv about, Client.stage_called during about pending]
      exact sim.atomic.call before
    · rw [history_inv_other other, List.append_nil, Client.stage_other during other,
        ← before, Function.update_eq_self]
      exact sim.atomic
  · intro body nobody content
    refine sim.content body (fun d => ?_) content
    have same := nobody d
    change (Function.update cfg.clients c _ d).pos ≠ _ at same
    rcases eq_or_ne d c with rfl | other
    · rw [own]
      nofun
    · rwa [Function.update_of_ne other] at same

theorem Config.Content.unique {body body' : Bytes} (content : cfg.Content k body)
    (content' : cfg.Content k body') : body = body' := by
  obtain ⟨value, owns, block, -⟩ := content
  obtain ⟨value', owns', block', -⟩ := content'
  rw [owns, Option.some.injEq] at owns'
  subst owns'
  rw [block, Option.some.injEq] at block'
  exact List.append_cancel_right block'

/-- A client that reads a record finds the text of the record at its descriptor. -/
theorem Contents.read (contents : Contents trace cfg) (linked : Linked trace cfg)
    (heap : Heap cfg.db.find cfg.mem) (apart : (cfg.locks trace).ReadApart)
    {key : CString} {n : Int} (named : serverKey key.bytes = some k)
    (phase : (cfg.clients c).phase = .getRead key n rkey addr) :
    cfg.Content k (text (cfg.mem.rdmaRead addr rkey n.toNat ++ [0])) ∧
      ∀ d, (cfg.clients d).pos ≠ .inSet k := by
  have described : (cfg.clients c).descriptor = some (n, ⟨rkey, addr⟩) := by
    simp only [Client.descriptor, phase]
  obtain ⟨k', value, about, owns, large, registered, size⟩ :=
    contents.described c n _ described
  have same : (cfg.clients c).record = some k := by
    rw [Client.record, phase]
    exact named
  rw [same, Option.some.injEq] at about
  subst about
  have reads : (cfg.clients c).pos = .reading k := by
    have shape := linked.shape c
    generalize cfg.clients c = cl at shape phase
    cases shape <;> cases phase
    exact Client.pos_eq named rfl rfl
  have nobody : ∀ d, (cfg.clients d).pos ≠ .inSet k := fun d inside => apart k d c inside reads
  obtain ⟨item, found, kept⟩ := Option.bind_eq_some_iff.mp owns
  obtain ⟨body, content, -⟩ := contents.stable k item found nobody
  obtain ⟨rkey', m, bytes, mr, size', region, block, length⟩ :=
    (heap.held k item value found kept).large large
  rw [registered, Option.some.injEq, Mr.mk.injEq] at mr
  obtain ⟨rfl, rfl⟩ := mr
  obtain ⟨value', owns', block', noNul⟩ := content
  rw [owns, Option.some.injEq] at owns'
  subst owns'
  have whole : body = bytes := by
    rw [block, Option.some.injEq] at block'
    exact (List.append_cancel_right block').symm
  subst whole
  have reading : cfg.mem.rdmaRead value.value rkey n.toNat = body := by
    have natural : n.toNat = body.length := by omega
    simp only [Mem.rdmaRead, region, block]
    rw [if_pos ⟨True.intro, by omega⟩, natural, List.take_left']
    rfl
  rw [reading, text_append_nul noNul]
  exact ⟨⟨value, owns, block, noNul⟩, nobody⟩

theorem Simulates.proceed (sim : Simulates k trace cfg s) (contents : Contents trace cfg)
    (ready : cfg.Ready trace) (apart : (cfg.locks trace).ReadApart)
    (next : cfg.next (.proceed c) = some (cfg', events)) :
    ∃ s', Simulates k (trace ++ events) cfg' s' := by
  obtain ⟨cl, mem, results, own, rfl, rfl⟩ := Config.next_proceed next
  obtain ⟨shape, stays⟩ := (ready.linked.shape c).proceed own
  have reads : ∀ key n rkey addr, (cfg.clients c).phase = .getRead key n rkey addr →
      key.bytes = k → s = some (text (cfg.mem.rdmaRead addr rkey n.toNat ++ [0])) := by
    intro key n rkey addr phase same
    subst same
    have word : IsWord key.bytes := (ready.calls c (.kvGet key) (by rw [phase]; rfl)).2
    obtain ⟨content, nobody⟩ :=
      contents.read ready.linked ready.heap apart (serverKey_isWord word) phase
    exact sim.content _ nobody content
  refine ⟨s, ?_, ?_⟩
  · rw [stage_update, history_append]
    rcases (ready.linked.shape c).proceed_stage own reads with ⟨rfl, same⟩ |
      ⟨call, result, rfl, during, idle, taken⟩
    · rw [List.map_nil, same, Function.update_eq_self]
      exact (List.append_nil (history k trace)).symm ▸ sim.atomic
    · rw [List.map_singleton, idle]
      rcases eq_or_ne call.key.bytes k with about | other
      · rw [history_res about]
        rcases taken with done | ⟨pending, rfl, key, value, rfl⟩
        · exact sim.atomic.ret (Client.stage_done during about done)
        · exact sim.atomic.actRet (Client.stage_called during about pending) rfl
      · have same : (cfg.clients c).stage k s = .idle := Client.stage_other during other
        rw [history_res_other other, List.append_nil, ← same, Function.update_eq_self]
        exact sim.atomic
  · intro body nobody content
    have nobody' := pos_of_update stays nobody
    obtain ⟨value, owns, -⟩ := id content
    obtain ⟨item, found, -⟩ := Option.bind_eq_some_iff.mp owns
    obtain ⟨body', before, -⟩ := contents.stable k item found nobody'
    have after := contents.proceed_content ready.linked ready.heap own (nobody' c) before
    rw [content.unique after]
    exact sim.content body' nobody' before

/-- A request that finishes no set of `k` leaves its client at its stage, or it is the
`g0` of a get of `k` and reads what the register holds. -/
theorem Simulates.serve_own (sim : Simulates k trace cfg s) (contents : Contents trace cfg)
    (ready : cfg.Ready trace) (quiet : cfg.QuietGet c) (asked : cfg.nextRequest c = some r)
    (sends : (cfg.clients c).Sends r) (effect : Effect addr rkey ⟨cfg.db, cfg.mem, []⟩ c r w)
    (other : cfg.askOf r ≠ .setFin k) :
    ((cfg.afterServe c [] w).clients c).stage k s = (cfg.clients c).stage k s ∨
      ∃ key v, (cfg.clients c).stage k s = .called (.kvGet key) ∧ s = some v ∧
        ((cfg.afterServe c [] w).clients c).stage k s = .done (.kvGet key) (.value v) := by
  have calls := ready.calls c
  have after : (cfg.afterServe c [] w).clients c =
      ⟨(cfg.clients c).phase, [], (cfg.clients c).replies ++ sentTo c w.sent⟩ := by
    change Client.mk _ (if c = c then _ else _) _ = _
    rw [if_pos rfl]
  generalize own : cfg.clients c = cl at sends calls after ⊢
  rw [after]
  have named (key : CString) (k' : Bytes) (call : Call) (same : call.key = key)
      (during : cl.phase.call = some call) (known : serverKey key.bytes = some k') :
      k' = key.bytes := by
    subst same
    rw [serverKey_isWord (calls call during).2, Option.some.injEq] at known
    exact known.symm
  -- an `se` or `fs` of another key
  have elsewhere {key value : CString} {k' : Bytes} (during : cl.phase.call = some (.kvSet key value))
      (known : serverKey key.bytes = some k') (asks : cfg.askOf r = .setFin k') :
      Client.stage k s ⟨cl.phase, [], cl.replies ++ sentTo c w.sent⟩ = cl.stage k s := by
    have different : (Call.kvSet key value).key.bytes ≠ k := by
      intro same
      subst same
      rw [named key k' _ rfl during known] at asks
      exact other asks
    have before : cl.stage k s = .idle := Client.stage_other during different
    rw [before]
    exact Client.stage_other during different
  cases sends with
  | setAsk known => exact .inl rfl
  | setEager known eager => exact .inl (elsewhere rfl known rfl)
  | setRendezvous known large => exact .inl rfl
  | setFin known large => exact .inl (elsewhere rfl known rfl)
  | getAsk known => exact .inl rfl
  | @get key k' known =>
      rcases eq_or_ne key.bytes k with about | different
      · have same : k' = k := (named key k' _ rfl rfl known).trans about
        subst same
        have entered : (cfg.clients c).pos = .granted k' := by
          rw [own]
          exact Client.pos_eq known rfl rfl
        have nobody : ∀ d, (cfg.clients d).pos ≠ .inSet k' := by
          intro d
          rcases eq_or_ne d c with rfl | apart
          · rw [entered]
            nofun
          · rw [Config.QuietGet, asked] at quiet
            exact quiet d apart
        cases effect with
        | lose absent => exact .inl rfl
        | @getEager _ item value bytes _ found stored small block becomes =>
            obtain ⟨body, content, -⟩ := contents.stable k' item found nobody
            obtain ⟨value', owns, block', noNul⟩ := id content
            rw [Config.value, show cfg.db.find k' = _ from found, Option.bind_some, stored,
              Option.some.injEq] at owns
            subst owns
            rw [show cfg.mem.block value.value = _ from block, Option.some.injEq] at block'
            subst block'
            have holds := sim.content body nobody content
            refine .inr ⟨key, body, Client.stage_called rfl about rfl, holds, ?_⟩
            refine Client.stage_done rfl about ?_
            rw [becomes.sent, text_append_nul noNul, sentTo]
            simp [Client.outcome]
        | @getRendezvous _ item value mr _ found stored large registered becomes =>
            obtain ⟨body, content, -⟩ := contents.stable k' item found nobody
            have holds := sim.content body nobody content
            refine .inr ⟨key, body, Client.stage_called rfl about rfl, holds, ?_⟩
            refine Client.stage_done rfl about ?_
            rw [becomes.sent, sentTo, holds]
            simp [Client.outcome]
      · have apart : (Call.kvGet key).key.bytes ≠ k := different
        have before : Client.stage k s ⟨.get key, [onWire (flagKey .g0 key.bytes)], []⟩ = .idle :=
          Client.stage_other rfl apart
        rw [before]
        exact .inl (Client.stage_other rfl apart)
  | getFin known => exact .inl rfl

/-- A request leaves the other clients at their stages, also when it finishes a set. -/
theorem stage_serve_other (ready : cfg.Ready trace) (s' : Option Bytes)
    (effect : Effect addr rkey ⟨cfg.db, cfg.mem, []⟩ c r w) (other : d ≠ c)
    (notReading : s' = s ∨ (cfg.clients d).pos ≠ .reading k) :
    ((cfg.afterServe c [] w).clients d).stage k s' = (cfg.clients d).stage k s := by
  rcases ready.linked.serve_other effect other with same | ⟨key, value, phase⟩ | ⟨key, phase⟩
  · rw [same]
    rcases notReading with rfl | outside
    · rfl
    · exact (ready.linked.shape d).stage_eq outside
        (fun call during => (ready.calls d call during).2) s s'
  · have phase' : ((cfg.afterServe c [] w).clients d).phase = .setAsk key value := phase
    exact Client.stage_congr rfl (by simp only [Client.outcome, phase, phase'])
  · have phase' : ((cfg.afterServe c [] w).clients d).phase = .getAsk key := phase
    exact Client.stage_congr rfl (by simp only [Client.outcome, phase, phase'])

theorem storedText_isWord {value : Bytes} (word : IsWord value) : storedText value = value := by
  rw [storedText, strtok_isWord word]
  exact ite_self value

/-- The request that finishes a set of `k` is that of a set that has not taken effect,
and answers it. -/
theorem finished_call (sends : (cfg.clients c).Sends r) (asks : cfg.askOf r = .setFin k)
    (shape : ((cfg.afterServe c [] w).clients c).Shape) :
    ∃ key value, (cfg.clients c).phase.call = some (.kvSet key value) ∧
      serverKey key.bytes = some k ∧ (∀ s, (cfg.clients c).outcome s = none) ∧
      ∀ s, ((cfg.afterServe c [] w).clients c).outcome s = some .stored := by
  have after : (cfg.afterServe c [] w).clients c =
      ⟨(cfg.clients c).phase, [], (cfg.clients c).replies ++ sentTo c w.sent⟩ := by
    change Client.mk _ (if c = c then _ else _) _ = _
    rw [if_pos rfl]
  rw [after] at shape ⊢
  generalize cfg.clients c = cl at sends shape ⊢
  rcases askOf_setFin asks with rfl | ⟨v, rfl⟩
  · cases sends with
    | @setFin key value _ named large =>
        refine ⟨key, value, rfl, named, fun _ => rfl, fun s => ?_⟩
        generalize [] ++ sentTo c w.sent = replies at shape
        cases shape
        rfl
  · cases sends with
    | @setEager key value _ _ named eager =>
        refine ⟨key, value, rfl, named, fun _ => rfl, fun s => ?_⟩
        generalize [] ++ sentTo c w.sent = replies at shape
        cases shape
        rfl

theorem Simulates.serve (sim : Simulates k trace cfg s) (contents : Contents trace cfg)
    (ready : cfg.Ready trace) (apart : (cfg.locks trace).ReadApart) (quiet : cfg.QuietGet c)
    (words : ∀ call, (cfg.clients c).phase.call = some call → call.Words)
    (next : cfg.next (.serve c addr rkey) = some (cfg', events)) :
    ∃ s', Simulates k (trace ++ events) cfg' s' := by
  obtain ⟨buf, rest, queue, -, free, ⟨-, rfl, rfl⟩ | ⟨ret, w, served, rfl, rfl⟩⟩ :=
    Config.next_serve next
  · rw [List.append_nil]
    exact ⟨s, sim.atomic, sim.content⟩
  obtain ⟨rfl, r, parsed, sends, effect, outcome⟩ := ready.linked.serve queue served
  have asked := Config.nextRequest_eq queue parsed
  have wanted := ready.request_eq queue parsed
  have silent : history k (trace ++ cfg.wokenEvents c w.sent) = history k trace := by
    rw [history_append, history_woken, List.append_nil]
  -- the text of a quiet record is that of the finished set or the one before
  have source (body : Bytes)
      (nobody : ∀ d, ((cfg.afterServe c [] w).clients d).pos ≠ .inSet k)
      (content : (cfg.afterServe c [] w).Content k body) :
      (cfg.askOf r = .setFin k ∧ cfg.Stores c k body) ∨
        (cfg.askOf r ≠ .setFin k ∧ (∀ d, (cfg.clients d).pos ≠ .inSet k) ∧
          cfg.Content k body) := by
    obtain ⟨value, owns, -⟩ := id content
    obtain ⟨item, found, -⟩ := Option.bind_eq_some_iff.mp owns
    obtain ⟨body', content', source⟩ := contents.serve_stable ready free sends wanted effect
      outcome.step found nobody
    rw [content.unique content']
    exact source.imp_right fun kept => ⟨kept.1, kept.2.1, kept.2.2.1⟩
  rcases eq_or_ne (cfg.askOf r) (.setFin k) with asks | asks
  · -- the set takes effect
    have step := outcome.step
    rw [asks] at step
    have inside : (cfg.clients c).pos = .inSet k := step.finishes_set
    obtain ⟨key, value, during, named, pending, taken⟩ :=
      finished_call sends asks (outcome.shape c)
    have word := words _ during
    have about : key.bytes = k := by
      rw [serverKey_isWord word.1, Option.some.injEq] at named
      exact named
    refine ⟨some value.bytes, ?_, fun body nobody content => ?_⟩
    · rw [silent]
      have writes : register.act s (.kvSet key value) .stored (some value.bytes) := rfl
      have acted := sim.atomic.act (Client.stage_called during about (pending s)) writes
      have stages : (fun d => ((cfg.afterServe c [] w).clients d).stage k (some value.bytes)) =
          Function.update (fun d => (cfg.clients d).stage k s) c
            (.done (.kvSet key value) .stored) := by
        funext d
        rcases eq_or_ne d c with rfl | other
        · rw [Function.update_self]
          exact Client.stage_done during about (taken _)
        · rw [Function.update_of_ne other]
          exact stage_serve_other ready _ effect other (.inr (apart k c d inside))
      rw [stages]
      exact acted
    · rcases source body nobody content with ⟨-, key', value', during', -, stores⟩ | ⟨bad, -⟩
      · rw [during, Option.some.injEq, Call.kvSet.injEq] at during'
        obtain ⟨rfl, rfl⟩ := during'
        rw [← stores, storedText_isWord word.2]
      · exact absurd asks bad
  · refine ⟨s, ?_, fun body nobody content => ?_⟩
    · rw [silent]
      have others : ∀ stage, ((cfg.afterServe c [] w).clients c).stage k s = stage →
          (fun d => ((cfg.afterServe c [] w).clients d).stage k s) =
            Function.update (fun d => (cfg.clients d).stage k s) c stage := by
        intro stage own
        funext d
        rcases eq_or_ne d c with rfl | other
        · rw [Function.update_self, own]
        · rw [Function.update_of_ne other]
          exact stage_serve_other ready s effect other (.inl rfl)
      rcases sim.serve_own contents ready quiet asked sends effect asks with
        same | ⟨key, v, called, holds, done⟩
      · rw [others _ same, Function.update_eq_self]
        exact sim.atomic
      · -- the get takes effect
        rw [others _ done]
        exact sim.atomic.act called ⟨holds, rfl⟩
    · rcases source body nobody content with ⟨bad, -⟩ | ⟨-, nobody', before⟩
      · exact absurd bad asks
      · exact sim.content body nobody' before

/-- Every step that handles no `g0` during a set of its key keeps the simulation. -/
theorem Simulates.next {action : Action N} (sim : Simulates k trace cfg s)
    (contents : Contents trace cfg) (ready : cfg.Ready trace)
    (apart : (cfg.locks trace).ReadApart)
    (quiet : ∀ c addr rkey, action = .serve c addr rkey → cfg.QuietGet c)
    (words : ∀ d call, (cfg.clients d).phase.call = some call → call.Words)
    (next : cfg.next action = some (cfg', events)) :
    ∃ s', Simulates k (trace ++ events) cfg' s' := by
  cases action with
  | invoke c call => exact ⟨s, sim.invoke ready.linked next⟩
  | proceed c => exact sim.proceed contents ready apart next
  | serve c addr rkey => exact sim.serve contents ready apart (quiet c addr rkey rfl) (words c) next

/-- At first there is no value. -/
theorem Simulates.start (k : Bytes) : Simulates k [] (Config.start N) none where
  atomic := .init
  content body _ content := by
    obtain ⟨_, owns, -⟩ := content
    cases owns

end Steps

/-! ## Runs -/

section Runs

variable {trace : List (Event numClients)} {cfg : Config numClients}

theorem Call.Words.key {call : Call} (words : call.Words) : IsWord call.key.bytes := by
  cases call with
  | kvSet key value => exact words.1
  | kvGet key => exact words

theorem readApart_of_quiet (run : (protocol numClients).Run quietGets trace cfg) :
    (cfg.locks trace).ReadApart := by
  refine run.invariant (fun trace cfg => (cfg.locks trace).ReadApart)
    (fun _ _ _ inside => by cases inside) ?_
  intro trace cfg action cfg' events before apart met next
  have linked := linked_of_run before
  obtain ⟨⟨a, step, asks⟩, -⟩ := linked.next next
  refine apart.step linked.account ?_ step
  intro k same d other
  subst same
  obtain ⟨c, addr, rkey, r, rfl, request, moves⟩ := Config.served_of_ask (by simp) asks
  rw [askOf_get moves] at request
  have quiet : cfg.QuietGet c := met
  rw [Config.QuietGet, request] at quiet
  exact quiet d other

/-- The history of every key is linearizable, in every run whose gets are handled while
no other client is inside a set of their key. -/
theorem linearizable_of_run (run : (protocol numClients).Run quietGets trace cfg)
    (k : Bytes) : Linearizable register (history k trace) := by
  suffices simulated : ∃ s, Simulates k trace cfg s by
    obtain ⟨s, sim⟩ := simulated
    exact ⟨s, _, sim.atomic⟩
  refine run.invariant (fun trace cfg => ∃ s, Simulates k trace cfg s) ⟨none, .start k⟩ ?_
  intro trace cfg action cfg' events before simulated met next
  obtain ⟨s, sim⟩ := simulated
  have words : ∀ d call, (cfg.clients d).phase.call = some call →
      call.fits = true ∧ call.Words := calls_of_run (fun _ _ _ _ met => met) before
  have ready := ready_of_run (fun _ _ _ _ met => Call.Words.key met) before
  have contents :=
    contents_of_run (fun _ _ _ _ met => Call.Words.key met) readApart_of_quiet before
  refine sim.next contents ready (readApart_of_quiet before) ?_
    (fun d call during => (words d call during).2) next
  intro c addr rkey same
  subst same
  exact met

end Runs

/-- Every call is about words. -/
def wordCalls : Guard (Config N) (Action N) (Event N)
  | _, _, .invoke _ call => call.Words
  | _, _, _ => True

instance (trace : List (Event N)) (cfg : Config N) (action : Action N) :
    Decidable (wordCalls trace cfg action) :=
  match action with
  | .invoke _ call => inferInstanceAs (Decidable call.Words)
  | .proceed _ => .isTrue True.intro
  | .serve _ _ _ => .isTrue True.intro

/-- Whatever a register returns was written before. -/
theorem returned_written {h : List (Visible (Fin N) Call Result)}
    (linearizable : Linearizable register h) {c : Fin N} {call : Call} {v : Bytes}
    (returned : .ret c call (.value v) ∈ h) :
    ∃ d key value, .call d (.kvSet key value) ∈ h ∧ value.bytes = v := by
  obtain ⟨s, stage, atomic⟩ := linearizable
  have found := atomic.returned
    (P := fun h s => ∀ v, s = some v →
      ∃ d key value, .call d (.kvSet key value) ∈ h ∧ value.bytes = v)
    (Q := fun h _ r => ∀ v, r = .value v →
      ∃ d key value, .call d (.kvSet key value) ∈ h ∧ value.bytes = v)
    nofun ?_ ?_ ?_
  · exact found.2 c call (.value v) returned v rfl
  · intro h s e before v same
    obtain ⟨d, key, value, called, bytes⟩ := before v same
    exact ⟨d, key, value, List.mem_append_left _ called, bytes⟩
  · intro h op r e before v same
    obtain ⟨d, key, value, called, bytes⟩ := before v same
    exact ⟨d, key, value, List.mem_append_left _ called, bytes⟩
  · intro h s s' c op r called before acts
    unfold register at acts
    cases op with
    | kvSet key value =>
        cases r with
        | stored =>
            refine ⟨fun v same => ⟨c, key, value, called, ?_⟩, nofun⟩
            rw [show s' = some value.bytes from acts, Option.some.injEq] at same
            exact same
        | refused =>
            refine ⟨fun v same => before v ?_, nofun⟩
            rw [← same, show s' = s from acts]
        | value v => exact acts.elim
    | kvGet key =>
        cases r with
        | value v =>
            obtain ⟨holds, same⟩ := acts
            refine ⟨fun v' now => before v' (by rw [← now, same]), fun v' read => ?_⟩
            cases read
            exact before v holds
        | stored => exact acts.elim
        | refused => exact acts.elim

/-- A set and a get of it. -/
theorem linearizable_after_get : ∃ trace, ∃ cfg : Config numClients,
    (protocol numClients).Run quietGets trace cfg ∧
      .res 1 (.kvGet keyK) (.value valueV.bytes) ∈ trace ∧
        Linearizable register (history keyK.bytes trace) := by
  obtain ⟨trace, cfg, run, ends⟩ := Machine.Run.of_exec (protocol numClients) quietGets
    waitingGetSchedule
    (fun trace _ => decide (.res 1 (.kvGet keyK) (.value valueV.bytes) ∈ trace))
    (by decide +kernel)
  exact ⟨trace, cfg, run, of_decide_eq_true ends, linearizable_of_run run keyK.bytes⟩

/-- Client 1 is granted a get of a record that holds a value; client 0 is granted a large
set of it and has its bytes allocated; client 1 reads them before they are written. -/
def unwrittenSchedule : List (Action numClients) :=
  [.invoke 0 (.kvSet keyK valueV), .serve 0 0 0, .proceed 0, .serve 0 1 0, .proceed 0,
   .invoke 1 (.kvGet keyK), .serve 1 0 0,
   .invoke 0 (.kvSet keyK valueLarge), .serve 0 0 0, .proceed 0, .serve 0 2 7,
   .proceed 1, .serve 1 0 0, .proceed 1, .proceed 1, .proceed 1, .serve 1 0 0, .proceed 1]

/-- A get returns the zeroed bytes of a value that is being set. -/
theorem unwritten_value_read : ¬ ∀ trace, ∀ cfg : Config numClients,
    (protocol numClients).Run wordCalls trace cfg →
      ∀ k, Linearizable register (history k trace) := by
  intro linearizable
  obtain ⟨trace, cfg, run, ends⟩ := Machine.Run.of_exec (protocol numClients) wordCalls
    unwrittenSchedule
    (fun trace _ =>
      decide (.ret 1 (.kvGet keyK) (.value []) ∈ history keyK.bytes trace) &&
        (history keyK.bytes trace).all fun e =>
          match e with
          | .call _ (.kvSet _ value) => !value.bytes.isEmpty
          | _ => true) (by decide +kernel)
  rw [Bool.and_eq_true, decide_eq_true_iff, List.all_eq_true] at ends
  obtain ⟨returned, nonempty⟩ := ends
  obtain ⟨d, key, value, called, empty⟩ :=
    returned_written (linearizable trace cfg run keyK.bytes) returned
  have stored : (!value.bytes.isEmpty) = true := nonempty _ called
  rw [empty] at stored
  cases stored

end RdmaWiki
