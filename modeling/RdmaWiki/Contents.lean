import RdmaWiki.Ready

/-!
What the records hold.

A record on which nobody is inside a set holds the text that some set of it
stored, with its terminator; a setter whose RDMA write is done finds its whole
value in the record, and whoever has received a descriptor has the one of the
record (`Contents`). These facts are kept as long as no setter is inside a
record that another client reads (`Locks.ReadApart`).
-/

namespace RdmaWiki

open CText StepMachine Locks

variable {N : ℕ}

def Config.value (cfg : Config N) (k : Bytes) : Option Value :=
  (cfg.db.find k).bind Item.value

/-- The record of `k` holds exactly the text `body`. -/
def Config.Content (cfg : Config N) (k body : Bytes) : Prop :=
  ∃ value, cfg.value k = some value ∧ cfg.mem.block value.value = some (body ++ [0]) ∧
    (0 : UInt8) ∉ body

/-- The text that the server stores for a value. -/
def storedText (value : Bytes) : Bytes :=
  if isEager value then ((strtok colon value).map Prod.fst).getD [] else value

/-- Some set of the record `k` that was called stores `body`. -/
def Written (trace : List (Event N)) (k body : Bytes) : Prop :=
  ∃ d key value, Event.inv d (.kvSet key value) ∈ trace ∧ serverKey key.bytes = some k ∧
    storedText value.bytes = body

/-- The size and the descriptor by which a client accesses a large value. -/
def Client.descriptor (cl : Client) : Option (Int × Mr) :=
  match cl.phase, cl.replies with
  | .setRendezvous _ value, .region rkey addr :: _ => some (value.bytes.length, ⟨rkey, addr⟩)
  | .setWrite _ value rkey addr, _ => some (value.bytes.length, ⟨rkey, addr⟩)
  | .get _, .size n :: .region rkey addr :: _ => some (n, ⟨rkey, addr⟩)
  | .getRendezvous _ n, .region rkey addr :: _ => some (n, ⟨rkey, addr⟩)
  | .getRead _ n rkey addr, _ => some (n, ⟨rkey, addr⟩)
  | _, _ => none

structure Contents (trace : List (Event N)) (cfg : Config N) : Prop where
  stable : ∀ k item, cfg.db.find k = some item → (∀ d, (cfg.clients d).pos ≠ .inSet k) →
    ∃ body, cfg.Content k body ∧ Written trace k body
  described : ∀ d n mr, (cfg.clients d).descriptor = some (n, mr) → ∃ k value,
    (cfg.clients d).record = some k ∧ cfg.value k = some value ∧ value.isLarge = true ∧
      value.mr = some mr ∧ value.size = n
  finished : ∀ d key value k, (cfg.clients d).phase = .setFin key value →
    (cfg.clients d).requests ≠ [] → serverKey key.bytes = some k →
    cfg.Content k value.bytes

/-! ## Values under a request -/

/-- A request leaves the value of the record `k` alone. -/
structure Kept (cfg : Config N) (w : World N) (k : Bytes) : Prop where
  value : (w.db.find k).bind Item.value = cfg.value k
  block : ∀ value, cfg.value k = some value →
    w.mem.block value.value = cfg.mem.block value.value
  absent : cfg.db.find k = none → w.db.find k = none

/-- A request gives the record `k` a new value, or takes its value away. -/
inductive Replaces (addr : UInt64) (rkey : UInt32) (cfg : Config N) (w : World N)
    (k : Bytes) : Request → Prop
  | clear (valid : cfg.db.validSet k = true) : Replaces addr rkey cfg w k (.setAsk k)
  | small {v : Bytes}
    (value : (w.db.find k).bind Item.value = some ⟨addr, v.length, false, none⟩)
    (block : w.mem.block addr = some (v ++ [0])) : Replaces addr rkey cfg w k (.setEager k v)
  | large {n : ℕ}
    (value : (w.db.find k).bind Item.value = some ⟨addr, n, true, some ⟨rkey, addr⟩⟩) :
    Replaces addr rkey cfg w k (.setRendezvous k n)

section Values

variable {cfg : Config N} {c : Fin N} {addr : UInt64} {rkey : UInt32} {w : World N}
  {r : Request} {key k : Bytes} {item item₀ : Item N} {mem : Mem}
  {replies : List (Fin N × Reply)}

/-- A request that keeps the heap and the value of the record that it rewrites. -/
theorem Kept.of_keep (becomes : World.Becomes ⟨cfg.db, cfg.mem, []⟩ w key item cfg.mem replies)
    (found : cfg.db.find key = some item₀) (same : item.value = item₀.value) (k : Bytes) :
    Kept cfg w k := by
  have find : w.db.find = Function.update cfg.db.find key (some item) := becomes.find
  constructor
  · rw [find, Config.value]
    rcases eq_or_ne k key with rfl | other
    · rw [Function.update_self, found]
      exact same
    · rw [Function.update_of_ne other]
  · intro value _
    rw [becomes.mem]
  · intro absent
    rcases eq_or_ne k key with rfl | other
    · rw [absent] at found
      cases found
    · rw [find, Function.update_of_ne other, absent]

/-- A request that replaces the value of another record. -/
theorem Kept.of_replace (heap : Heap cfg.db.find cfg.mem)
    (becomes : World.Becomes ⟨cfg.db, cfg.mem, []⟩ w key item
      (mem.release (cfg.db.record key).value) replies)
    (others : ∀ a, cfg.mem.block a ≠ none → mem.block a = cfg.mem.block a ∧
      mem.region a = cfg.mem.region a)
    (other : k ≠ key) : Kept cfg w k := by
  have find : w.db.find k = cfg.db.find k := by
    rw [show w.db.find = _ from becomes.find, Function.update_of_ne other]
  constructor
  · rw [find, Config.value]
  · intro value stored
    obtain ⟨item', found, stored⟩ := Option.bind_eq_some_iff.mp stored
    rw [becomes.mem, record_value]
    exact (heap.release_other others other found stored).1
  · intro absent
    rw [find, absent]

/-- What a request does to the value of each record; an `se` replaces that of its
key. -/
theorem Effect.kept_or_replaces (heap : Heap cfg.db.find cfg.mem)
    (free : cfg.mem.block addr = none)
    (effect : Effect addr rkey ⟨cfg.db, cfg.mem, []⟩ c r w) (k : Bytes) :
    (Kept cfg w k ∧ ∀ v, r ≠ .setEager k v) ∨ Replaces addr rkey cfg w k r := by
  cases effect with
  | @grantSet key _ valid becomes =>
      rcases eq_or_ne k key with rfl | other
      · exact .inr (.clear valid)
      · exact .inl ⟨.of_replace heap becomes (fun _ _ => ⟨rfl, rfl⟩) other, by simp⟩
  | @deferSet key item _ found invalid becomes =>
      exact .inl ⟨.of_keep becomes found rfl k, by simp⟩
  | @setEager key v _ becomes =>
      rcases eq_or_ne k key with rfl | other
      · refine .inr (.small ?_ ?_)
        · rw [show w.db.find = _ from becomes.find, Function.update_self]
          simp
        · rw [becomes.mem, record_value, (heap.release_fresh _ free).1]
          simp [Mem.alloc]
      · refine .inl ⟨.of_replace heap becomes (Mem.alloc_elsewhere free _) other, ?_⟩
        intro v' same
        cases same
        exact other rfl
  | @setRendezvous key n _ becomes =>
      rcases eq_or_ne k key with rfl | other
      · refine .inr (.large ?_)
        rw [show w.db.find = _ from becomes.find, Function.update_self]
        rfl
      · exact .inl ⟨.of_replace heap becomes (Mem.register_elsewhere free _ _ _) other, by simp⟩
  | @setFin key item _ found becomes =>
      exact .inl ⟨.of_keep becomes found (by simp) k, by simp⟩
  | grantGet valid => exact .inl ⟨⟨rfl, fun _ _ => rfl, id⟩, by simp⟩
  | @deferGet key item _ found locked becomes =>
      exact .inl ⟨.of_keep becomes found rfl k, by simp⟩
  | lose absent => exact .inl ⟨⟨rfl, fun _ _ => rfl, id⟩, by simp⟩
  | @getEager key item value bytes _ found stored small block becomes =>
      exact .inl ⟨.of_keep becomes found (by simp) k, by simp⟩
  | @getRendezvous key item value mr _ found stored large registered becomes =>
      exact .inl ⟨.of_keep becomes found rfl k, by simp⟩
  | @getFin key item _ found becomes =>
      exact .inl ⟨.of_keep becomes found (by simp) k, by simp⟩

end Values

/-! ## Clients under a request -/

section Others

variable {trace : List (Event N)} {cfg : Config N} {c d : Fin N} {addr : UInt64}
  {rkey : UInt32} {w : World N} {r : Request}

/-- Another client receives something only if it waits for the record of the request. -/
theorem Linked.sent_other (linked : Linked trace cfg)
    (effect : Effect addr rkey ⟨cfg.db, cfg.mem, []⟩ c r w) (other : d ≠ c) :
    sentTo d w.sent = [] ∨
      (cfg.clients d).pos = .waitSet r.key ∨ (cfg.clients d).pos = .waitGet r.key := by
  have quiet (replies : List Reply) : sentTo d (replies.map fun r => (c, r)) = [] := by
    rw [sentTo_own, if_neg other]
  have woken {item : Item N} {k : Bytes}
      (set : ∀ d, item.clientSet d = true ↔ (cfg.locks trace).pos d = .waitSet k)
      (get : ∀ d, item.clientGet d = true ↔ (cfg.locks trace).pos d = .waitGet k)
      (before after : List Reply) :
      sentTo d ((before.map fun r => (c, r)) ++ item.wakeReplies ++
          after.map fun r => (c, r)) = [] ∨
        (cfg.clients d).pos = .waitSet k ∨ (cfg.clients d).pos = .waitGet k := by
    rw [sentTo_append, sentTo_append, quiet, quiet, List.nil_append, List.append_nil,
      sentTo_wakeReplies set get]
    rcases eq_or_ne ((cfg.locks trace).pos d) (.waitGet k) with getter | noGetter
    · exact .inr (.inr getter)
    rcases eq_or_ne ((cfg.locks trace).pos d) (.waitSet k) with setter | noSetter
    · exact .inr (.inl setter)
    · left
      have notFirst : ((cfg.locks trace).setters k).head? ≠ some d :=
        fun first => noSetter (mem_setters.mp (List.mem_of_head? first))
      simp only [if_neg noGetter, if_neg notFirst, if_neg noSetter, ite_self]
  cases effect with
  | grantSet valid becomes => exact .inl (becomes.sent ▸ quiet [.ack])
  | deferSet found invalid becomes => exact .inl (becomes.sent ▸ quiet [])
  | @setEager key v _ becomes =>
      rw [becomes.sent]
      obtain ⟨set, get⟩ := linked.record_flags key
      exact woken set get [] [.ack]
  | setRendezvous becomes => exact .inl (becomes.sent ▸ quiet [_])
  | @setFin key item _ found becomes =>
      rw [becomes.sent]
      exact woken (linked.flags.set key item found) (linked.flags.get key item found) [] [.ack]
  | grantGet valid => exact .inl (quiet [.ack])
  | deferGet found locked becomes => exact .inl (becomes.sent ▸ quiet [])
  | lose absent => exact .inl (quiet [])
  | @getEager key item value bytes _ found stored small block becomes =>
      rw [becomes.sent]
      exact woken (linked.flags.set key item found) (linked.flags.get key item found)
        [.eager (text bytes)] [.ack]
  | getRendezvous found stored large registered becomes =>
      exact .inl (becomes.sent ▸ quiet [_, _])
  | @getFin key item _ found becomes =>
      rw [becomes.sent]
      exact woken (linked.flags.set key item found) (linked.flags.get key item found) [] [.ack]

/-- A request leaves another client alone, or answers the ask it waits with. -/
theorem Linked.serve_other (linked : Linked trace cfg)
    (effect : Effect addr rkey ⟨cfg.db, cfg.mem, []⟩ c r w) (other : d ≠ c) :
    (cfg.afterServe c [] w).clients d = cfg.clients d ∨
      (∃ key value, (cfg.clients d).phase = .setAsk key value) ∨
      ∃ key, (cfg.clients d).phase = .getAsk key := by
  rcases linked.sent_other effect other with nothing | waits | waits
  · left
    change Client.mk _ (if d = c then _ else _) (_ ++ sentTo d w.sent) = _
    rw [if_neg other, nothing, List.append_nil]
  · obtain ⟨key, value, -, own⟩ := (linked.shape d).waitSet waits
    exact .inr (.inl ⟨key, value, by rw [own]⟩)
  · obtain ⟨key, -, own⟩ := (linked.shape d).waitGet waits
    exact .inr (.inr ⟨key, by rw [own]⟩)

/-- Whoever has a descriptor is inside a set of the record or reads it. -/
theorem Client.Shape.described_pos {cl : Client} {x : Int × Mr} (shape : cl.Shape)
    (described : cl.descriptor = some x) :
    ∃ k, cl.record = some k ∧ (cl.pos = .inSet k ∨ cl.pos = .reading k) := by
  cases shape with
  | setRegion named large => exact ⟨_, named, .inl (pos_eq named rfl rfl)⟩
  | setWrite named large => exact ⟨_, named, .inl (pos_eq named rfl rfl)⟩
  | getSizeSent named => exact ⟨_, named, .inr (pos_eq named rfl rfl)⟩
  | getRegion named => exact ⟨_, named, .inr (pos_eq named rfl rfl)⟩
  | getRead named => exact ⟨_, named, .inr (pos_eq named rfl rfl)⟩
  | _ => cases described

/-- A setter whose `fs` is on its way is inside the set. -/
theorem Client.Shape.finished_pos {cl : Client} {key value : CString} {k : Bytes}
    (shape : cl.Shape) (phase : cl.phase = .setFin key value) (queue : cl.requests ≠ [])
    (named : serverKey key.bytes = some k) : cl.pos = .inSet k := by
  cases shape with
  | setFin _ large =>
      cases phase
      exact pos_eq named rfl rfl
  | setDone => exact absurd rfl queue
  | _ => cases phase

theorem Client.Shape.write_pos {cl : Client} {key value : CString} {k : Bytes} (shape : cl.Shape)
    (phase : cl.phase = .setWrite key value rkey addr) (named : serverKey key.bytes = some k) :
    cl.pos = .inSet k := by
  cases shape with
  | setWrite _ large =>
      cases phase
      exact pos_eq named rfl rfl
  | _ => cases phase

/-- A client that goes on keeps the descriptor it has received. -/
theorem Client.Shape.proceed_described {cl cl' : Client} {mem mem' : Mem}
    {results : List (Call × Result)} {x : Int × Mr} (shape : cl.Shape)
    (next : cl.proceed mem = some (cl', mem', results)) (described : cl'.descriptor = some x) :
    cl.descriptor = some x ∧ cl'.record = cl.record := by
  cases shape.goes next with
  | setWrite | getSize | getRead => exact ⟨described, rfl⟩
  | refuse | setEager | setSize | storeEager | setFin | storeLarge | get | getEager |
    loadEager | getFin | loadLarge => cases described

/-- The `fs` follows the RDMA write. -/
theorem Client.Shape.proceed_setFin {cl cl' : Client} {mem mem' : Mem} {key value : CString}
    {results : List (Call × Result)} (shape : cl.Shape)
    (next : cl.proceed mem = some (cl', mem', results)) (phase : cl'.phase = .setFin key value) :
    ∃ rkey addr, cl.phase = .setWrite key value rkey addr ∧
      mem' = mem.rdmaWrite addr rkey value.bytes := by
  cases shape.goes next with
  | setFin =>
      cases phase
      exact ⟨_, _, rfl, rfl⟩
  | refuse | setEager | setSize | storeEager | setWrite | storeLarge | get | getEager |
    loadEager | getSize | getRead | getFin | loadLarge => cases phase

end Others

/-! ## One step -/

section Steps

variable {trace events : List (Event N)} {cfg cfg' : Config N} {c : Fin N} {addr : UInt64}
  {rkey : UInt32} {call : Call} {k body : Bytes}

theorem Written.mono (written : Written trace k body) : Written (trace ++ events) k body := by
  obtain ⟨d, key, value, called, named, stores⟩ := written
  exact ⟨d, key, value, List.mem_append_left _ called, named, stores⟩

theorem Contents.invoke (contents : Contents trace cfg) (linked : Linked trace cfg)
    (next : cfg.next (.invoke c call) = some (cfg', events)) :
    Contents (trace ++ events) cfg' := by
  obtain ⟨idle, -, rfl, -⟩ := Config.next_invoke next
  have own : cfg.clients c = ⟨.idle, [], []⟩ := by
    have shape := linked.shape c
    generalize cfg.clients c = cl at shape idle
    cases shape <;> first | rfl | cases idle
  -- the new call is before its first answer
  have fresh : ((cfg.clients c).invoke call).descriptor = none ∧
      ∀ key value, ((cfg.clients c).invoke call).phase ≠ .setFin key value := by
    rw [own]
    cases call with
    | kvSet key value => exact ⟨rfl, nofun⟩
    | kvGet key => exact ⟨rfl, nofun⟩
  constructor
  · intro k item found nobody
    have nobody' : ∀ d, (cfg.clients d).pos ≠ .inSet k := by
      intro d
      rcases eq_or_ne d c with rfl | other
      · rw [own]
        nofun
      · have same := nobody d
        change (Function.update cfg.clients c _ d).pos ≠ _ at same
        rwa [Function.update_of_ne other] at same
    obtain ⟨body, content, written⟩ := contents.stable k item found nobody'
    exact ⟨body, content, written.mono⟩
  · intro d n mr described
    change (Function.update cfg.clients c _ d).descriptor = _ at described
    change ∃ k value, (Function.update cfg.clients c _ d).record = _ ∧ _
    rcases eq_or_ne d c with rfl | other
    · rw [Function.update_self, fresh.1] at described
      cases described
    · rw [Function.update_of_ne other] at described ⊢
      exact contents.described d n mr described
  · intro d key value k phase queue named
    change (Function.update cfg.clients c _ d).phase = _ at phase
    change (Function.update cfg.clients c _ d).requests ≠ _ at queue
    rcases eq_or_ne d c with rfl | other
    · rw [Function.update_self] at phase
      exact absurd phase (fresh.2 key value)
    · rw [Function.update_of_ne other] at phase queue
      exact contents.finished d key value k phase queue named

/-- The RDMA write of a setter fills its record, and changes no other value. -/
theorem Contents.write (contents : Contents trace cfg) (linked : Linked trace cfg)
    (heap : Heap cfg.db.find cfg.mem) {key value : CString}
    (phase : (cfg.clients c).phase = .setWrite key value rkey addr) :
    ∃ k, serverKey key.bytes = some k ∧ (cfg.clients c).pos = .inSet k ∧
      (∃ stored, cfg.value k = some stored ∧ (cfg.mem.rdmaWrite addr rkey value.bytes).block
        stored.value = some (value.bytes ++ [0])) ∧
      ∀ k' stored, k' ≠ k → cfg.value k' = some stored →
        (cfg.mem.rdmaWrite addr rkey value.bytes).block stored.value =
          cfg.mem.block stored.value := by
  have described :
      (cfg.clients c).descriptor = some ((value.bytes.length : Int), ⟨rkey, addr⟩) := by
    simp only [Client.descriptor, phase]
  obtain ⟨k, stored, about, owns, large, registered, size⟩ :=
    contents.described c _ _ described
  have named : serverKey key.bytes = some k := by
    rw [← about, Client.record, phase]
    rfl
  have inside := (linked.shape c).write_pos phase named
  obtain ⟨item, found, kept⟩ := Option.bind_eq_some_iff.mp owns
  obtain ⟨rkey', n, old, mr, size', region, block, length⟩ :=
    (heap.held k item stored found kept).large large
  rw [registered, Option.some.injEq, Mr.mk.injEq] at mr
  obtain ⟨rfl, rfl⟩ := mr
  have fills : old.length = value.bytes.length := by omega
  refine ⟨k, named, inside, ⟨stored, owns, ?_⟩, ?_⟩
  · simp only [Mem.rdmaWrite, region, block]
    rw [if_pos ⟨True.intro, by omega⟩, List.drop_left' fills]
    exact Function.update_self ..
  · intro k' stored' other owns'
    obtain ⟨item', found', kept'⟩ := Option.bind_eq_some_iff.mp owns'
    refine Mem.rdmaWrite_of_ne (fun clash => other ?_) value.bytes
    exact heap.apart k' k item' item stored' stored found' kept' found kept clash

/-- A step of a client keeps the texts of the records that it does not write. -/
theorem Contents.proceed_content (contents : Contents trace cfg) (linked : Linked trace cfg)
    (heap : Heap cfg.db.find cfg.mem) {cl : Client} {mem : Mem} {results : List (Call × Result)}
    (own : (cfg.clients c).proceed cfg.mem = some (cl, mem, results))
    (elsewhere : (cfg.clients c).pos ≠ .inSet k) (content : cfg.Content k body) :
    Config.Content { cfg with clients := Function.update cfg.clients c cl, mem := mem }
      k body := by
  obtain ⟨value, owns, block, noNul⟩ := content
  refine ⟨value, owns, ?_, noNul⟩
  rcases Client.proceed_mem own with rfl | ⟨key, data, rkey, addr, phase, rfl⟩
  · exact block
  · obtain ⟨k', named, inside, -, others⟩ := contents.write linked heap phase
    refine (others k value ?_ owns).trans block
    intro same
    subst same
    exact elsewhere inside

/-- Where nobody is after a client has moved within its position, nobody was before. -/
theorem pos_of_update {clients : Fin N → Client} {cl : Client} {p : Pos Bytes}
    (stays : cl.pos = (clients c).pos)
    (nobody : ∀ d, (Function.update clients c cl d).pos ≠ p) (d : Fin N) :
    (clients d).pos ≠ p := by
  have same := nobody d
  rcases eq_or_ne d c with rfl | other
  · rwa [Function.update_self, stays] at same
  · rwa [Function.update_of_ne other] at same

theorem Contents.proceed (contents : Contents trace cfg) (linked : Linked trace cfg)
    (heap : Heap cfg.db.find cfg.mem) (exclusive : (cfg.locks trace).Exclusive)
    (next : cfg.next (.proceed c) = some (cfg', events)) : Contents (trace ++ events) cfg' := by
  obtain ⟨cl, mem, results, own, rfl, -⟩ := Config.next_proceed next
  obtain ⟨shape, stays⟩ := (linked.shape c).proceed own
  constructor
  · intro k item found nobody
    have nobody' := pos_of_update stays nobody
    obtain ⟨body, content, written⟩ := contents.stable k item found nobody'
    exact ⟨body, contents.proceed_content linked heap own (nobody' c) content, written.mono⟩
  · intro d n mr described
    change (Function.update cfg.clients c cl d).descriptor = _ at described
    change ∃ k value, (Function.update cfg.clients c cl d).record = _ ∧ _
    rcases eq_or_ne d c with rfl | other
    · rw [Function.update_self] at described ⊢
      obtain ⟨before, about⟩ := (linked.shape d).proceed_described own described
      rw [about]
      exact contents.described d n mr before
    · rw [Function.update_of_ne other] at described ⊢
      exact contents.described d n mr described
  · intro d key value k phase queue named
    change (Function.update cfg.clients c cl d).phase = _ at phase
    change (Function.update cfg.clients c cl d).requests ≠ _ at queue
    rcases eq_or_ne d c with rfl | other
    · rw [Function.update_self] at phase
      obtain ⟨rkey, addr, before, rfl⟩ := (linked.shape d).proceed_setFin own phase
      obtain ⟨k', named', -, ⟨stored, owns, block⟩, -⟩ := contents.write linked heap before
      rw [named, Option.some.injEq] at named'
      subst named'
      exact ⟨stored, owns, block, value.noNul⟩
    · rw [Function.update_of_ne other] at phase queue
      have inside := (linked.shape d).finished_pos phase queue named
      refine contents.proceed_content linked heap own (fun within => other ?_)
        (contents.finished d key value k phase queue named)
      exact exclusive.one k d c inside within

end Steps

section Serve

variable {trace events : List (Event N)} {cfg cfg' : Config N} {c d : Fin N} {addr : UInt64}
  {rkey : UInt32} {w : World N} {r : Request} {k body : Bytes}

theorem Kept.content (kept : Kept cfg w k) (content : cfg.Content k body) :
    (cfg.afterServe c [] w).Content k body := by
  obtain ⟨value, owns, block, noNul⟩ := content
  exact ⟨value, kept.value.trans owns, (kept.block value owns).trans block, noNul⟩

/-- A request leaves a record alone that another client writes or reads. -/
theorem Config.Ready.kept (ready : cfg.Ready trace) (apart : (cfg.locks trace).ReadApart)
    (free : cfg.mem.block addr = none) (sends : (cfg.clients c).Sends r)
    (effect : Effect addr rkey ⟨cfg.db, cfg.mem, []⟩ c r w) (other : d ≠ c)
    (holds : (cfg.clients d).pos = .inSet k ∨ (cfg.clients d).pos = .reading k) :
    Kept cfg w k := by
  -- nobody else is inside a set of the record
  have alone : (cfg.clients c).pos ≠ .inSet k := by
    intro inside
    rcases holds with within | reads
    · exact other (ready.exclusive.one k d c within inside)
    · exact apart k c d inside reads
  rcases effect.kept_or_replaces ready.heap free k with ⟨kept, -⟩ | replaces
  · exact kept
  · generalize own : cfg.clients c = cl at sends alone
    cases replaces with
    | clear valid =>
        have present : (cfg.locks trace).lock k ≠ none := by
          apply ready.linked.account.present d k
          rcases holds with within | reads
          · rw [show (cfg.locks trace).pos d = _ from within, needs]
          · rw [show (cfg.locks trace).pos d = _ from reads, needs]
        obtain ⟨l, locked⟩ := Option.ne_none_iff_exists'.mp present
        obtain ⟨nobody, -⟩ := (free_iff ready.linked.account ready.exclusive locked).mp
          (validSet_iff_free.mp valid l locked)
        rcases holds with within | reads
        · exact absurd within (nobody d).1
        · exact absurd reads (nobody d).2
    | small value block =>
        cases sends with
        | setEager named eager => exact absurd (Client.pos_eq named rfl rfl) alone
    | large value =>
        cases sends with
        | setRendezvous named large => exact absurd (Client.pos_eq named rfl rfl) alone

/-- The call of client `c` is a set of the record `k` that stores `body`. -/
def Config.Stores (cfg : Config N) (c : Fin N) (k body : Bytes) : Prop :=
  ∃ key value, (cfg.clients c).phase.call = some (.kvSet key value) ∧
    serverKey key.bytes = some k ∧ storedText value.bytes = body

/-- After a request, a record on which nobody is inside a set holds what the set that
has just finished stores, or else what it held. -/
theorem Contents.serve_stable (contents : Contents trace cfg) (ready : cfg.Ready trace)
    (free : cfg.mem.block addr = none)
    (sends : (cfg.clients c).Sends r) (wanted : (cfg.clients c).phase.request = some r)
    (effect : Effect addr rkey ⟨cfg.db, cfg.mem, []⟩ c r w)
    (step : Locks.Step c (cfg.askOf r) (cfg.locks trace)
      ((cfg.afterServe c [] w).locks (trace ++ cfg.wokenEvents c w.sent)))
    {item : Item N} (found : w.db.find k = some item)
    (nobody : ∀ d, ((cfg.afterServe c [] w).clients d).pos ≠ .inSet k) :
    ∃ body, (cfg.afterServe c [] w).Content k body ∧
      ((cfg.askOf r = .setFin k ∧ cfg.Stores c k body) ∨
        (cfg.askOf r ≠ .setFin k ∧ (∀ d, (cfg.clients d).pos ≠ .inSet k) ∧
          cfg.Content k body ∧ Written trace k body)) := by
  rcases effect.kept_or_replaces ready.heap free k with ⟨kept, notEager⟩ | replaces
  · obtain ⟨item₀, found₀⟩ : ∃ item₀, cfg.db.find k = some item₀ := by
      rw [← Option.ne_none_iff_exists']
      intro absent
      rw [kept.absent absent] at found
      cases found
    rcases Classical.em (∃ d, (cfg.clients d).pos = .inSet k) with ⟨d, inside⟩ | nobody₀
    · rcases step.stays_inSet inside with still | ⟨asks, rfl⟩
      · exact absurd still (nobody d)
      rcases askOf_setFin asks with rfl | ⟨v, eager⟩
      · generalize own : cfg.clients d = cl at sends
        cases sends with
        | @setFin key value _ named large =>
            have content := contents.finished d key value k (by rw [own])
              (by rw [own]; exact List.cons_ne_nil _ _) named
            refine ⟨value.bytes, kept.content content, .inl ⟨asks, key, value, ?_, named, ?_⟩⟩
            · rw [own]
              rfl
            · rw [storedText, large, if_neg (by simp)]
      · exact absurd eager (notEager v)
    · rw [not_exists] at nobody₀
      obtain ⟨body, content, written⟩ := contents.stable k item₀ found₀ nobody₀
      refine ⟨body, kept.content content, .inr ⟨fun asks => ?_, nobody₀, content, written⟩⟩
      rw [asks] at step
      exact nobody₀ c step.finishes_set
  · generalize own : cfg.clients c = cl at sends wanted
    cases replaces with
    | clear valid => exact absurd (step.granted (validSet_iff_free.mp valid)) (nobody c)
    | @small v value block =>
        cases sends with
        | @setEager key data _ _ named eager =>
            obtain ⟨⟨token, rest⟩, scan, same⟩ := Option.map_eq_some_iff.mp wanted
            cases same
            refine ⟨token, ⟨_, value, block, fun bad => ?_⟩,
              .inl ⟨rfl, key, data, ?_, named, ?_⟩⟩
            · exact data.noNul (strtok_subset scan bad)
            · rw [own]
              rfl
            · rw [storedText, if_pos eager, scan]
              rfl
    | large value => exact absurd step.stores.2 (nobody c)

theorem Contents.serve_described (contents : Contents trace cfg) (ready : cfg.Ready trace)
    (apart : (cfg.locks trace).ReadApart) (free : cfg.mem.block addr = none)
    (sends : (cfg.clients c).Sends r) (wanted : (cfg.clients c).phase.request = some r)
    (effect : Effect addr rkey ⟨cfg.db, cfg.mem, []⟩ c r w) {n : Int} {mr : Mr}
    (described : ((cfg.afterServe c [] w).clients d).descriptor = some (n, mr)) :
    ∃ k value, (cfg.clients d).record = some k ∧ (w.db.find k).bind Item.value = some value ∧
      value.isLarge = true ∧ value.mr = some mr ∧ value.size = n := by
  rcases eq_or_ne d c with rfl | other
  · generalize own : cfg.clients d = cl at sends wanted
    change Client.descriptor ⟨(cfg.clients d).phase, _,
      (cfg.clients d).replies ++ sentTo d w.sent⟩ = _ at described
    rw [own] at described
    -- only `sr` and a `g0` of a large value are answered with a descriptor
    cases sends with
    | @setRendezvous key data k size named large =>
        cases effect with
        | @setRendezvous _ m _ becomes =>
            cases wanted
            have answer : sentTo d w.sent = [.region rkey addr] := by
              rw [becomes.sent]
              exact (sentTo_own [_] d).trans (if_pos rfl)
            rw [answer] at described
            cases described
            refine ⟨_, ⟨addr, data.bytes.length, true, some ⟨rkey, addr⟩⟩, named, ?_, rfl, rfl, rfl⟩
            rw [show w.db.find = _ from becomes.find, Function.update_self]
            rfl
    | @get key k named =>
        cases effect with
        | lose absent => cases described
        | getEager found stored small block becomes =>
            rw [becomes.sent, sentTo] at described
            simp [Client.descriptor] at described
        | @getRendezvous _ item value mr' _ found stored large registered becomes =>
            have answer : sentTo d w.sent = [.size value.size, .region mr'.rkey mr'.addr] := by
              rw [becomes.sent]
              exact (sentTo_own [_, _] d).trans (if_pos rfl)
            rw [answer] at described
            cases described
            refine ⟨_, value, named, ?_, large, registered, rfl⟩
            rw [show w.db.find = _ from becomes.find, Function.update_self]
            exact stored
    | setAsk | setEager | setFin | getAsk | getFin => cases described
  · rcases ready.linked.serve_other effect other with same | ⟨key, value, phase⟩ | ⟨key, phase⟩
    · rw [same] at described
      obtain ⟨k, value, about, owns, facts⟩ := contents.described d n mr described
      obtain ⟨k', about', holds⟩ := (ready.linked.shape d).described_pos described
      rw [about, Option.some.injEq] at about'
      subst about'
      have kept := ready.kept apart free sends effect other holds
      exact ⟨k, value, about, kept.value.trans owns, facts⟩
    · change Client.descriptor ⟨(cfg.clients d).phase, _, _⟩ = _ at described
      rw [phase] at described
      cases described
    · change Client.descriptor ⟨(cfg.clients d).phase, _, _⟩ = _ at described
      rw [phase] at described
      cases described

theorem Contents.serve (contents : Contents trace cfg) (ready : cfg.Ready trace)
    (apart : (cfg.locks trace).ReadApart)
    (invoked : ∀ d call, (cfg.clients d).phase.call = some call → .inv d call ∈ trace)
    (next : cfg.next (.serve c addr rkey) = some (cfg', events)) :
    Contents (trace ++ events) cfg' := by
  obtain ⟨buf, rest, queue, -, free, ⟨-, rfl, rfl⟩ | ⟨ret, w, served, rfl, rfl⟩⟩ :=
    Config.next_serve next
  · rw [List.append_nil]
    exact ⟨contents.stable, contents.described, contents.finished⟩
  obtain ⟨rfl, r, parsed, sends, effect, outcome⟩ := ready.linked.serve queue served
  have wanted := ready.request_eq queue parsed
  constructor
  · intro k item found nobody
    obtain ⟨body, content, source⟩ := contents.serve_stable ready free sends wanted effect
      outcome.step found nobody
    refine ⟨body, content, ?_⟩
    rcases source with ⟨-, key, value, during, named, stores⟩ | ⟨-, -, -, written⟩
    · exact ⟨c, key, value, List.mem_append_left _ (invoked c _ during), named, stores⟩
    · exact written.mono
  · intro d n mr described
    exact contents.serve_described ready apart free sends wanted effect described
  · intro d key value k phase unserved named
    rcases eq_or_ne d c with rfl | other
    · exact absurd (if_pos rfl) unserved
    · rcases ready.linked.serve_other effect other with same | ⟨key', value', asks⟩ | ⟨key', asks⟩
      · rw [same] at phase unserved
        have inside := (ready.linked.shape d).finished_pos phase unserved named
        have kept := ready.kept apart free sends effect other (.inl inside)
        exact kept.content (contents.finished d key value k phase unserved named)
      · cases asks.symm.trans phase
      · cases asks.symm.trans phase

end Serve

/-! ## Runs -/

/-- A call in progress was called. -/
theorem invoked_of_run {guard : Guard (Config N) (Action N) (Event N)}
    {trace : List (Event N)} {cfg : Config N} (run : (protocol N).Run guard trace cfg)
    (d : Fin N) (call : Call) (during : (cfg.clients d).phase.call = some call) :
    .inv d call ∈ trace := by
  refine run.invariant (fun trace cfg => ∀ d call, (cfg.clients d).phase.call = some call →
    .inv d call ∈ trace) (fun _ _ during => by cases during) ?_ d call during
  intro trace cfg action cfg' events before ih met next d call during
  rcases Config.call_next next during with earlier | ⟨-, -, invoked⟩
  · exact List.mem_append_left _ (ih d call earlier)
  · exact List.mem_append_right _ invoked

theorem Contents.start : Contents [] (Config.start N) where
  stable _ _ found := by cases found
  described _ _ _ described := by cases described
  finished _ _ _ _ phase := by cases phase

/-- Every step keeps the contents of the records. -/
theorem Contents.next {trace events : List (Event N)} {cfg cfg' : Config N}
    {action : Action N} (contents : Contents trace cfg) (ready : cfg.Ready trace)
    (apart : (cfg.locks trace).ReadApart)
    (invoked : ∀ d call, (cfg.clients d).phase.call = some call → .inv d call ∈ trace)
    (next : cfg.next action = some (cfg', events)) : Contents (trace ++ events) cfg' := by
  cases action with
  | invoke c call => exact contents.invoke ready.linked next
  | proceed c => exact contents.proceed ready.linked ready.heap ready.exclusive next
  | serve c addr rkey => exact contents.serve ready apart invoked next

/-- The contents of the records in every run with two clients and calls about words
in which setters stay apart from readers. -/
theorem contents_of_run
    {guard : Guard (Config numClients) (Action numClients) (Event numClients)}
    {trace : List (Event numClients)} {cfg : Config numClients}
    (words : ∀ trace cfg c call, guard trace cfg (.invoke c call) → IsWord call.key.bytes)
    (apart : ∀ {trace : List (Event numClients)} {cfg : Config numClients},
      (protocol numClients).Run guard trace cfg → (cfg.locks trace).ReadApart)
    (run : (protocol numClients).Run guard trace cfg) : Contents trace cfg :=
  run.invariant Contents .start fun before contents _ next =>
    contents.next (ready_of_run words before) (apart before) (invoked_of_run before) next

end RdmaWiki
