import RdmaWiki.Positions
import RdmaWiki.LockInvariants

/-!
The protocol refines the lock discipline.

`Config.locks` is the lock state of a configuration. `Linked` says that every
client is at one of the points of the protocol, that the waiting flags of the
records are the waiting positions, and that the reader counts are accounted
for. Every step of the protocol is a `Locks.Step` and keeps `Linked`
(`Linked.next`).
-/

namespace RdmaWiki

open CText StepMachine Locks

variable {N : ℕ}

/-! ## The lock state of a configuration -/

def Item.lock (item : Item N) : Lock := ⟨item.isSet, item.numInGet⟩

/-- A get of the record `k` is granted to a waiting client. -/
def Event.wakes (k : Bytes) : Event N → Bool
  | .wokenGet _ key => serverKey key.bytes = some k
  | _ => false

/-- The gets of the record `k` that were granted to a waiting client. -/
def deferredGets (k : Bytes) (trace : List (Event N)) : ℕ := trace.countP (Event.wakes k)

def Config.locks (trace : List (Event N)) (cfg : Config N) : Locks N Bytes where
  pos d := (cfg.clients d).pos
  lock k := (cfg.db.find k).map Item.lock
  woken k := deferredGets k trace

/-- The waiting flags of the records are the waiting positions. -/
structure Flags (s : Locks N Bytes) (find : Bytes → Option (Item N)) : Prop where
  set : ∀ k item, find k = some item → ∀ d, item.clientSet d = true ↔ s.pos d = .waitSet k
  get : ∀ k item, find k = some item → ∀ d, item.clientGet d = true ↔ s.pos d = .waitGet k

structure Linked (trace : List (Event N)) (cfg : Config N) : Prop where
  shape : ∀ d, (cfg.clients d).Shape
  flags : Flags (cfg.locks trace) cfg.db.find
  account : (cfg.locks trace).Account

section Flags

variable {s : Locks N Bytes} {find : Bytes → Option (Item N)} {c d : Fin N} {k : Bytes}
  {p : Pos Bytes} {item : Item N} {l : Lock}

/-- A client that did not wait moves to a place where it does not wait. -/
theorem Flags.move (flags : Flags s find)
    (before : ∀ k, s.pos c ≠ .waitSet k ∧ s.pos c ≠ .waitGet k)
    (after : ∀ k, p ≠ .waitSet k ∧ p ≠ .waitGet k) : Flags (s.move c p) find := by
  constructor
  · intro k item found d
    rw [flags.set k item found d, move_pos_iff (before k).1 (after k).1]
  · intro k item found d
    rw [flags.get k item found d, move_pos_iff (before k).2 (after k).2]

/-- A record whose flags are right replaces the record of its key. -/
theorem flags_update
    (others : ∀ k' item', k' ≠ k → find k' = some item' → ∀ d,
      (item'.clientSet d = true ↔ s.pos d = .waitSet k') ∧
        (item'.clientGet d = true ↔ s.pos d = .waitGet k'))
    (set : ∀ d, item.clientSet d = true ↔ s.pos d = .waitSet k)
    (get : ∀ d, item.clientGet d = true ↔ s.pos d = .waitGet k) :
    Flags s (Function.update find k (some item)) := by
  constructor
  · intro k' item' found d
    rcases eq_or_ne k' k with rfl | other
    · rw [Function.update_self, Option.some.injEq] at found
      rw [← found]
      exact set d
    · rw [Function.update_of_ne other] at found
      exact (others k' item' other found d).1
  · intro k' item' found d
    rcases eq_or_ne k' k with rfl | other
    · rw [Function.update_self, Option.some.injEq] at found
      rw [← found]
      exact get d
    · rw [Function.update_of_ne other] at found
      exact (others k' item' other found d).2

/-- A setter starts to wait and its flag is raised. -/
theorem Flags.deferSet (flags : Flags s find) (found : find k = some item)
    (before : ∀ k, s.pos c ≠ .waitSet k ∧ s.pos c ≠ .waitGet k) :
    Flags (s.move c (.waitSet k)) (Function.update find k
      (some { item with clientSet := Function.update item.clientSet c true })) := by
  apply flags_update
  · intro k' item' other found' d
    rw [move_pos_iff (before k').1 (by simpa using other.symm), move_pos_iff (before k').2 (by simp)]
    exact ⟨flags.set k' item' found' d, flags.get k' item' found' d⟩
  · intro d
    rcases eq_or_ne d c with rfl | different
    · simp
    · simp only [Function.update_of_ne different, move_pos_of_ne different]
      exact flags.set k item found d
  · intro d
    rw [move_pos_iff (before k).2 (by simp)]
    exact flags.get k item found d

/-- A getter starts to wait and its flag is raised. -/
theorem Flags.deferGet (flags : Flags s find) (found : find k = some item)
    (before : ∀ k, s.pos c ≠ .waitSet k ∧ s.pos c ≠ .waitGet k) :
    Flags (s.move c (.waitGet k)) (Function.update find k
      (some { item with clientGet := Function.update item.clientGet c true })) := by
  apply flags_update
  · intro k' item' other found' d
    rw [move_pos_iff (before k').1 (by simp), move_pos_iff (before k').2 (by simpa using other.symm)]
    exact ⟨flags.set k' item' found' d, flags.get k' item' found' d⟩
  · intro d
    rw [move_pos_iff (before k).1 (by simp)]
    exact flags.set k item found d
  · intro d
    rcases eq_or_ne d c with rfl | different
    · simp
    · simp only [Function.update_of_ne different, move_pos_of_ne different]
      exact flags.get k item found d

/-- Where the flags of a new record are right, so are all of them. -/
theorem Flags.setLock (flags : Flags s find)
    (set : ∀ d, item.clientSet d = true ↔ s.pos d = .waitSet k)
    (get : ∀ d, item.clientGet d = true ↔ s.pos d = .waitGet k) :
    Flags (s.setLock k l) (Function.update find k (some item)) :=
  flags_update (fun k' item' _ found d => ⟨flags.set k' item' found d, flags.get k' item' found d⟩)
    set get

theorem waitingSetters_eq (set : ∀ d, item.clientSet d = true ↔ s.pos d = .waitSet k) :
    item.waitingSetters = s.setters k := by
  apply List.filter_congr
  intro d _
  rw [Bool.eq_iff_iff, set d, decide_eq_true_iff]

theorem waitingGetters_eq (get : ∀ d, item.clientGet d = true ↔ s.pos d = .waitGet k) :
    item.waitingGetters = s.getters k := by
  apply List.filter_congr
  intro d _
  rw [Bool.eq_iff_iff, get d, decide_eq_true_iff]

/-- The lock fields that `server_pending` leaves. -/
theorem wake_lock_woken (set : ∀ d, item.clientSet d = true ↔ s.pos d = .waitSet k)
    (get : ∀ d, item.clientGet d = true ↔ s.pos d = .waitGet k) :
    (s.wake k item.lock).lock = Function.update s.lock k (some item.woken.lock) := by
  cases waiting : s.setters k with
  | nil =>
      rw [wake_quiet waiting, Item.woken, waitingSetters_eq set, if_pos waiting,
        waitingGetters_eq get]
      rfl
  | cons first rest =>
      have someone : s.setters k ≠ [] := by simp [waiting]
      rw [wake_setter waiting, Item.woken, waitingSetters_eq set, if_neg someone]
      rfl

theorem Flags.wake (flags : Flags s find)
    (set : ∀ d, item.clientSet d = true ↔ s.pos d = .waitSet k)
    (get : ∀ d, item.clientGet d = true ↔ s.pos d = .waitGet k) :
    Flags (s.wake k l) (Function.update find k (some item.woken)) := by
  constructor
  · intro k' item' found d
    rw [wake_waitSet]
    rcases eq_or_ne k' k with rfl | other
    · rw [Function.update_self, Option.some.injEq] at found
      rw [← found, Item.woken, waitingSetters_eq set]
      cases waiting : s.setters k' with
      | nil =>
          have absent : s.pos d ≠ .waitSet k' := fun waits => by
            simpa [waiting] using mem_setters.mpr waits
          simp [set d, absent]
      | cons first rest => simp
    · rw [Function.update_of_ne other] at found
      rw [flags.set k' item' found d]
      simp [other]
  · intro k' item' found d
    rw [wake_waitGet]
    rcases eq_or_ne k' k with rfl | other
    · rw [Function.update_self, Option.some.injEq] at found
      rw [← found, Item.woken, waitingSetters_eq set]
      cases waiting : s.setters k' with
      | nil => simp
      | cons first rest => simp [get d]
    · rw [Function.update_of_ne other] at found
      rw [flags.get k' item' found d]
      simp [other]

/-! ### What waiting clients receive -/

theorem sentTo_append {sent sent' : List (Fin N × Reply)} :
    sentTo d (sent ++ sent') = sentTo d sent ++ sentTo d sent' := by
  simp [sentTo]

theorem sentTo_map {clients : List (Fin N)} (nodup : clients.Nodup) (r : Reply) :
    sentTo d (clients.map fun i => (i, r)) = if d ∈ clients then [r] else [] := by
  induction clients with
  | nil => rfl
  | cons i rest ih =>
      obtain ⟨fresh, nodup⟩ := List.nodup_cons.mp nodup
      have tail := ih nodup
      simp only [sentTo] at tail ⊢
      rcases eq_or_ne i d with rfl | other
      · simpa [fresh] using tail
      · simpa [other, other.symm] using tail

/-- The first waiting setter is granted, the others are refused. -/
theorem sentTo_setterReplies {clients : List (Fin N)} (nodup : clients.Nodup) :
    sentTo d (setterReplies clients) =
      if clients.head? = some d then [.ack] else if d ∈ clients then [.nack] else [] := by
  cases clients with
  | nil => rfl
  | cons first rest =>
      obtain ⟨fresh, nodup⟩ := List.nodup_cons.mp nodup
      have tail := sentTo_map (d := d) nodup .nack
      simp only [setterReplies, sentTo, List.head?_cons, Option.some.injEq] at tail ⊢
      rcases eq_or_ne first d with rfl | other
      · simpa [fresh] using tail
      · simpa [other, other.symm] using tail

/-- What `server_pending` sends to a client, by where the client waits. -/
theorem sentTo_wakeReplies (set : ∀ d, item.clientSet d = true ↔ s.pos d = .waitSet k)
    (get : ∀ d, item.clientGet d = true ↔ s.pos d = .waitGet k) :
    sentTo d item.wakeReplies =
      if s.setters k = [] then if s.pos d = .waitGet k then [.ack] else []
      else if (s.setters k).head? = some d then [.ack]
      else if s.pos d = .waitSet k then [.nack] else [] := by
  rw [Item.wakeReplies, waitingSetters_eq set, waitingGetters_eq get]
  have nodup (p : Fin N → Bool) : ((List.finRange N).filter p).Nodup :=
    (List.nodup_finRange N).filter p
  split
  next =>
    have getters : (s.getters k).Nodup := nodup _
    rw [sentTo_map getters]
    simp only [mem_getters]
  next =>
    have setters : (s.setters k).Nodup := nodup _
    rw [sentTo_setterReplies setters]
    simp only [mem_setters]

/-- A client that `server_pending` may have answered stands where the lock
discipline puts it. -/
theorem wake_client {cl : Client} (shape : cl.Shape) (stands : s.pos d = cl.pos)
    (set : ∀ d, item.clientSet d = true ↔ s.pos d = .waitSet k)
    (get : ∀ d, item.clientGet d = true ↔ s.pos d = .waitGet k) :
    (Client.Shape { cl with replies := cl.replies ++ sentTo d item.wakeReplies }) ∧
      Client.pos { cl with replies := cl.replies ++ sentTo d item.wakeReplies } =
        (s.wake k l).pos d := by
  rw [sentTo_wakeReplies set get]
  rcases wake_pos_cases s k l d with same | ⟨was, quiet, now⟩ | ⟨was, first, now⟩ |
    ⟨was, notFirst, now⟩
  · -- nothing was sent, for every answer comes with a change of position
    have unanswered : (if s.setters k = [] then if s.pos d = .waitGet k then [.ack] else []
        else if (s.setters k).head? = some d then [.ack]
        else if s.pos d = .waitSet k then [.nack] else ([] : List Reply)) = [] := by
      cases waiting : s.setters k with
      | nil =>
          have noGetter : s.pos d ≠ .waitGet k := fun waits => by
            rw [wake_quiet waiting] at same
            simp [waits] at same
          rw [if_pos rfl, if_neg noGetter]
      | cons first rest =>
          have noSetter : s.pos d ≠ .waitSet k := fun waits => by
            have gone := (wake_waitSet (l := l)).mp (same.trans waits)
            exact gone.2 rfl
          have notFirst : first ≠ d := by
            intro same
            subst same
            exact noSetter (mem_setters.mp (waiting ▸ List.mem_cons_self))
          simp [notFirst, noSetter]
    rw [unanswered, List.append_nil, same, stands]
    exact ⟨shape, rfl⟩
  · rw [stands] at was
    obtain ⟨key, named, rfl⟩ := shape.waitGet was
    rw [if_pos quiet, if_pos (stands.trans was), now]
    exact ⟨.getGranted named, Client.pos_eq named rfl rfl⟩
  · have someone : s.setters k ≠ [] := List.ne_nil_of_mem (List.mem_of_head? first)
    rw [stands] at was
    obtain ⟨key, value, named, rfl⟩ := shape.waitSet was
    rw [if_neg someone, if_pos first, now]
    exact ⟨.setGranted named, Client.pos_eq named rfl rfl⟩
  · have someone : s.setters k ≠ [] := List.ne_nil_of_mem (mem_setters.mpr was)
    rw [if_neg someone, if_neg notFirst, if_pos was, now]
    rw [stands] at was
    obtain ⟨key, value, named, rfl⟩ := shape.waitSet was
    exact ⟨.setRefused named, Client.pos_eq named rfl rfl⟩

end Flags

/-! ## Handling a request -/

/-- How a request moves its client. An eager set or get is at once its FIN. -/
def Config.askOf (cfg : Config N) : Request → Ask Bytes
  | .setAsk key => .setAsk key
  | .setEager key _ => .setFin key
  | .setRendezvous key _ => .store key
  | .setFin key => .setFin key
  | .getAsk key => .getAsk key
  | .get key =>
    match (cfg.db.find key).bind Item.value with
    | none => .get key
    | some value => if value.isLarge = false then .getEager key else .get key
  | .getFin key => .getFin key

/-- The oldest request of a client, as the server parses it. -/
def Config.nextRequest (cfg : Config N) (c : Fin N) : Option Request :=
  match (cfg.clients c).requests with
  | [] => none
  | buf :: _ =>
    match parseRequest buf with
    | .request r => some r
    | _ => none

section Serve

variable {trace : List (Event N)} {cfg : Config N} {c : Fin N} {w : World N}
  {cl' : Client} {k : Bytes} {item : Item N} {p : Pos Bytes}

/-- The configuration after `c` was served and moved to `cl'`, nobody else being
answered. -/
def Config.afterOwn (cfg : Config N) (c : Fin N) (cl' : Client) (w : World N) : Config N :=
  { cfg with clients := Function.update cfg.clients c cl', db := w.db, mem := w.mem }

/-- The configuration after a request of `c` was served. -/
def Config.afterServe (cfg : Config N) (c : Fin N) (rest : List Bytes) (w : World N) :
    Config N :=
  { cfg with clients := cfg.deliver c rest w.sent, db := w.db, mem := w.mem }

theorem sentTo_own (replies : List Reply) (d : Fin N) :
    sentTo d (replies.map fun r => (c, r)) = if d = c then replies else [] := by
  induction replies with
  | nil => simp [sentTo]
  | cons r rest ih =>
      simp only [sentTo] at ih ⊢
      rcases eq_or_ne d c with rfl | other
      · simpa using ih
      · simp [other, other.symm]

theorem Config.afterServe_own {replies : List Reply}
    (sent : w.sent = replies.map fun r => (c, r)) :
    cfg.afterServe c [] w =
      cfg.afterOwn c
        ⟨(cfg.clients c).phase, [], (cfg.clients c).replies ++ replies⟩ w := by
  rw [Config.afterServe, Config.afterOwn, sent]
  congr 1
  funext d
  rw [Config.deliver, sentTo_own]
  rcases eq_or_ne d c with rfl | other
  · simp
  · simp [other]

theorem Config.wokenEvents_own {replies : List Reply} :
    cfg.wokenEvents c (replies.map fun r => (c, r)) = [] := by
  simp [Config.wokenEvents]

/-- The lock state after a step of `c` that gave the record of `k` new fields. -/
theorem Config.locks_afterOwn
    (find : w.db.find = Function.update cfg.db.find k (some item)) :
    (cfg.afterOwn c cl' w).locks trace =
      ((cfg.locks trace).move c cl'.pos).setLock k item.lock := by
  ext1
  · funext d
    change (Function.update cfg.clients c cl' d).pos = _
    rcases eq_or_ne d c with rfl | other
    · simp
    · rw [Function.update_of_ne other, setLock_pos, move_pos_of_ne other]
      rfl
  · funext k'
    change (w.db.find k').map Item.lock = _
    rw [find]
    rcases eq_or_ne k' k with rfl | other
    · simp
    · rw [Function.update_of_ne other, setLock_lock_of_ne other]
      rfl
  · rfl

/-- The lock state after a step of `c` that kept the records. -/
theorem Config.locks_afterOwn_same (same : w.db = cfg.db) :
    (cfg.afterOwn c cl' w).locks trace = (cfg.locks trace).move c cl'.pos := by
  ext1
  · funext d
    change (Function.update cfg.clients c cl' d).pos = _
    rcases eq_or_ne d c with rfl | other
    · simp
    · rw [Function.update_of_ne other, move_pos_of_ne other]
      rfl
  · funext k'
    change (w.db.find k').map Item.lock = _
    rw [same]
    rfl
  · rfl

theorem shape_update (shapes : ∀ d, (cfg.clients d).Shape) (shape : cl'.Shape) (d : Fin N) :
    (Function.update cfg.clients c cl' d).Shape := by
  rcases eq_or_ne d c with rfl | other
  · rwa [Function.update_self]
  · rw [Function.update_of_ne other]
    exact shapes d

/-- A record that is written over an absent one has no flags set, as nobody can
be waiting for an absent record. -/
theorem Linked.record_flags (linked : Linked trace cfg) (k : Bytes) :
    (∀ d, (cfg.db.record k).clientSet d = true ↔ (cfg.locks trace).pos d = .waitSet k) ∧
      ∀ d, (cfg.db.record k).clientGet d = true ↔ (cfg.locks trace).pos d = .waitGet k := by
  cases found : cfg.db.find k with
  | some item =>
      rw [Database.record, found, Option.getD_some]
      exact ⟨linked.flags.set k item found, linked.flags.get k item found⟩
  | none =>
      have absent : (cfg.locks trace).lock k = none := by
        change (cfg.db.find k).map Item.lock = none
        rw [found]
        rfl
      rw [Database.record, found, Option.getD_none]
      constructor
      · intro d
        refine ⟨(fun bad => by cases bad), fun waits => ?_⟩
        exact absurd absent (linked.account.present d k (by rw [waits, needs]))
      · intro d
        refine ⟨(fun bad => by cases bad), fun waits => ?_⟩
        exact absurd absent (linked.account.present d k (by rw [waits, needs]))

/-- The record that a client relies on is there. -/
theorem Linked.record_lock (linked : Linked trace cfg)
    (needed : needs ((cfg.locks trace).pos c) = some k) :
    (cfg.locks trace).lock k = some (cfg.db.record k).lock := by
  have present := linked.account.present c k needed
  change (cfg.db.find k).map Item.lock ≠ none at present
  change (cfg.db.find k).map Item.lock = _
  cases found : cfg.db.find k with
  | none =>
      rw [found] at present
      exact absurd rfl present
  | some item =>
      rw [Database.record, found]
      rfl

/-! ### Serving the waiting clients -/

theorem deferredGets_append {trace trace' : List (Event N)} :
    deferredGets k (trace ++ trace') = deferredGets k trace + deferredGets k trace' :=
  List.countP_append

/-- ACKs to waiting getters of a record count as gets granted after waiting. -/
theorem deferredGets_getters {getters : List (Fin N)} (k' : Bytes)
    (waits : ∀ d ∈ getters, d ≠ c ∧
      ∃ key, serverKey key.bytes = some k ∧ (cfg.clients d).phase = .getAsk key) :
    deferredGets k' (cfg.wokenEvents c (getters.map fun i => (i, .ack))) =
      if k' = k then getters.length else 0 := by
  induction getters with
  | nil => simp [Config.wokenEvents, deferredGets]
  | cons d rest ih =>
      obtain ⟨other, key, named, phase⟩ := waits d List.mem_cons_self
      have tail := ih fun e member => waits e (List.mem_cons_of_mem d member)
      have head : cfg.wokenEvents c ((d :: rest).map fun i => (i, Reply.ack)) =
          .wokenGet d key :: cfg.wokenEvents c (rest.map fun i => (i, .ack)) := by
        simp [Config.wokenEvents, other, phase]
      rw [head, deferredGets, List.countP_cons]
      rw [deferredGets] at tail
      rw [tail]
      rcases eq_or_ne k' k with rfl | different
      · simp [Event.wakes, named]
      · simp [Event.wakes, named, different, different.symm]

/-- Answers to waiting setters grant no gets. -/
theorem wokenEvents_setters {sent : List (Fin N × Reply)}
    (waits : ∀ message ∈ sent, ∃ key value,
      (cfg.clients message.1).phase = .setAsk key value) :
    cfg.wokenEvents c sent = [] := by
  rw [Config.wokenEvents, List.filterMap_eq_nil_iff]
  intro message member
  obtain ⟨key, value, phase⟩ := waits message member
  rw [phase]
  split <;> rfl

theorem deferredGets_wake (linked : Linked trace cfg) {s : Locks N Bytes}
    (stands : ∀ d, d ≠ c → s.pos d = (cfg.clients d).pos) (gone : s.pos c = .out)
    (woken : s.woken = (cfg.locks trace).woken) {before after : List Reply} {l : Lock}
    (set : ∀ d, item.clientSet d = true ↔ s.pos d = .waitSet k)
    (get : ∀ d, item.clientGet d = true ↔ s.pos d = .waitGet k) :
    (fun k' => deferredGets k' (trace ++ cfg.wokenEvents c
        ((before.map fun r => (c, r)) ++ item.wakeReplies ++ after.map fun r => (c, r)))) =
      (s.wake k l).woken := by
  -- only the messages to the waiting clients count
  have events : cfg.wokenEvents c
      ((before.map fun r => (c, r)) ++ item.wakeReplies ++ after.map fun r => (c, r)) =
        cfg.wokenEvents c item.wakeReplies := by
    have parts : ∀ sent sent' : List (Fin N × Reply), cfg.wokenEvents c (sent ++ sent') =
        cfg.wokenEvents c sent ++ cfg.wokenEvents c sent' := fun _ _ => List.filterMap_append
    rw [parts, parts, Config.wokenEvents_own, Config.wokenEvents_own, List.nil_append,
      List.append_nil]
  have elsewhere : ∀ d k', s.pos d = .waitSet k' ∨ s.pos d = .waitGet k' → d ≠ c := by
    intro d k' waits same
    subst same
    rw [gone] at waits
    rcases waits with bad | bad <;> cases bad
  funext k'
  rw [events, deferredGets_append]
  cases waiting : s.setters k with
  | nil =>
      have answers : item.wakeReplies = (s.getters k).map fun i => (i, .ack) := by
        rw [Item.wakeReplies, waitingSetters_eq set, if_pos waiting, waitingGetters_eq get]
      rw [answers, deferredGets_getters (k := k), wake_quiet waiting]
      · simp only [Function.update_apply, woken]
        change deferredGets k' trace + _ = if k' = k then deferredGets k trace + _ else
          deferredGets k' trace
        split
        next same => rw [same]
        next => rfl
      · intro d member
        have waits := mem_getters.mp member
        have other := elsewhere d k (.inr waits)
        rw [stands d other] at waits
        obtain ⟨key, named, shape⟩ := (linked.shape d).waitGet waits
        exact ⟨other, key, named, by rw [shape]⟩
  | cons first rest =>
      have nobody : cfg.wokenEvents c item.wakeReplies = [] := by
        apply wokenEvents_setters
        intro message member
        have waits : s.pos message.1 = .waitSet k := by
          rw [Item.wakeReplies, waitingSetters_eq set, waiting] at member
          rw [← mem_setters, waiting]
          rcases List.mem_cons.mp member with rfl | late
          · exact List.mem_cons_self
          · obtain ⟨i, inRest, rfl⟩ := List.mem_map.mp late
            exact List.mem_cons_of_mem first inRest
        have other := elsewhere message.1 k (.inl waits)
        rw [stands message.1 other] at waits
        obtain ⟨key, value, named, shape⟩ := (linked.shape message.1).waitSet waits
        exact ⟨key, value, by rw [shape]⟩
      rw [nobody, wake_setter waiting, woken]
      rfl

/-- A client leaves the record of `k`, whose fields become those of `item`, and
the clients waiting for it are served. -/
theorem Linked.wake (linked : Linked trace cfg) {before after : List Reply}
    (sent : w.sent =
      (before.map fun r => (c, r)) ++ item.wakeReplies ++ after.map fun r => (c, r))
    (find : w.db.find = Function.update cfg.db.find k (some item.woken))
    (set : ∀ d, item.clientSet d = true ↔ (cfg.locks trace).pos d = .waitSet k)
    (get : ∀ d, item.clientGet d = true ↔ (cfg.locks trace).pos d = .waitGet k)
    (working : ∀ k, (cfg.clients c).pos ≠ .waitSet k ∧ (cfg.clients c).pos ≠ .waitGet k)
    (shape : Client.Shape ⟨(cfg.clients c).phase, [],
      (cfg.clients c).replies ++ (before ++ after)⟩)
    (leaves : Client.pos ⟨(cfg.clients c).phase, [],
      (cfg.clients c).replies ++ (before ++ after)⟩ = .out) :
    (cfg.afterServe c [] w).locks (trace ++ cfg.wokenEvents c w.sent) =
        ((cfg.locks trace).move c .out).wake k item.lock ∧
      (∀ d, ((cfg.afterServe c [] w).clients d).Shape) ∧
      Flags (((cfg.locks trace).move c .out).wake k item.lock) w.db.find := by
  have moved : Flags ((cfg.locks trace).move c .out) cfg.db.find :=
    linked.flags.move working (by simp)
  have elsewhere : ∀ d k', (cfg.locks trace).pos d = .waitSet k' ∨
      (cfg.locks trace).pos d = .waitGet k' → d ≠ c := by
    intro d k' waits same
    subst same
    rcases waits with bad | bad
    · exact (working k').1 bad
    · exact (working k').2 bad
  have set' : ∀ d, item.clientSet d = true ↔
      ((cfg.locks trace).move c .out).pos d = .waitSet k := by
    intro d
    rw [set d, move_pos_iff (working k).1 (by simp)]
  have get' : ∀ d, item.clientGet d = true ↔
      ((cfg.locks trace).move c .out).pos d = .waitGet k := by
    intro d
    rw [get d, move_pos_iff (working k).2 (by simp)]
  -- what each client is after the messages arrived
  have client : ∀ d, ((cfg.afterServe c [] w).clients d).Shape ∧
      ((cfg.afterServe c [] w).clients d).pos =
        (((cfg.locks trace).move c .out).wake k item.lock).pos d := by
    intro d
    change Client.Shape { cfg.clients d with
        requests := if d = c then [] else (cfg.clients d).requests
        replies := (cfg.clients d).replies ++ sentTo d w.sent } ∧
      Client.pos { cfg.clients d with
        requests := if d = c then [] else (cfg.clients d).requests
        replies := (cfg.clients d).replies ++ sentTo d w.sent } = _
    rw [sent, sentTo_append, sentTo_append, sentTo_own, sentTo_own]
    rcases eq_or_ne d c with rfl | other
    · have nothing : sentTo d item.wakeReplies = [] := by
        rw [sentTo_wakeReplies set' get']
        have notFirst : (((cfg.locks trace).move d .out).setters k).head? ≠ some d := by
          intro first
          have waits := mem_setters.mp (List.mem_of_head? first)
          simp at waits
        simp [notFirst]
      rw [if_pos rfl, if_pos rfl, if_pos rfl, nothing, List.append_nil,
        wake_pos_of_not_waiting (by simp) (by simp), move_pos_self]
      exact ⟨shape, leaves⟩
    · rw [if_neg other, if_neg other, if_neg other, List.nil_append, List.append_nil]
      exact wake_client (linked.shape d) (move_pos_of_ne other) set' get'
  refine ⟨?_, fun d => (client d).1, ?_⟩
  · ext1
    · funext d
      exact (client d).2
    · rw [wake_lock_woken set' get']
      funext k'
      change (w.db.find k').map Item.lock = _
      rw [find]
      rcases eq_or_ne k' k with rfl | other
      · simp
      · rw [Function.update_of_ne other, Function.update_of_ne other]
        rfl
    · rw [sent]
      exact deferredGets_wake linked (fun d other => move_pos_of_ne other) move_pos_self rfl
        set' get'
  · rw [find]
    exact moved.wake set' get'

/-! ### One request -/

theorem World.Becomes.find_of {mem mem' : Mem} {replies : List (Fin N × Reply)}
    (becomes : World.Becomes ⟨cfg.db, mem, []⟩ w k item mem' replies) :
    w.db.find = Function.update cfg.db.find k (some item) := becomes.find

/-- A served request is a step of the lock discipline and keeps the link to it. -/
structure Outcome (trace : List (Event N)) (cfg : Config N) (c : Fin N) (a : Ask Bytes)
    (w : World N) : Prop where
  step : Locks.Step c a (cfg.locks trace)
    ((cfg.afterServe c [] w).locks (trace ++ cfg.wokenEvents c w.sent))
  shape : ∀ d, ((cfg.afterServe c [] w).clients d).Shape
  flags : Flags ((cfg.afterServe c [] w).locks (trace ++ cfg.wokenEvents c w.sent)) w.db.find

/-- A request that answers its own client only and rewrites the record of `k`. -/
theorem Linked.own (linked : Linked trace cfg) {a : Ask Bytes} (replies : List Reply)
    {l : Lock} (lock : item.lock = l)
    (sent : w.sent = replies.map fun r => (c, r))
    (find : w.db.find = Function.update cfg.db.find k (some item))
    (shape : cl'.Shape) (stands : cl'.pos = p)
    (moves : ⟨(cfg.clients c).phase, [], (cfg.clients c).replies ++ replies⟩ = cl')
    (step : Locks.Step c a (cfg.locks trace) (((cfg.locks trace).move c p).setLock k l))
    (flags : Flags (((cfg.locks trace).move c p).setLock k l) w.db.find) :
    Outcome trace cfg c a w := by
  have events : cfg.wokenEvents c w.sent = [] := by rw [sent, Config.wokenEvents_own]
  have after : cfg.afterServe c [] w = cfg.afterOwn c cl' w := by
    rw [Config.afterServe_own sent, moves]
  have locks : (cfg.afterServe c [] w).locks (trace ++ cfg.wokenEvents c w.sent) =
      ((cfg.locks trace).move c p).setLock k l := by
    rw [events, List.append_nil, after, Config.locks_afterOwn find, lock, stands]
  refine ⟨by rw [locks]; exact step, ?_, by rw [locks]; exact flags⟩
  rw [after]
  exact shape_update linked.shape shape

/-- A request that answers its own client only and keeps every record. -/
theorem Linked.ownSame (linked : Linked trace cfg) {a : Ask Bytes} (replies : List Reply)
    (sent : w.sent = replies.map fun r => (c, r)) (same : w.db = cfg.db)
    (shape : cl'.Shape) (stands : cl'.pos = p)
    (moves : ⟨(cfg.clients c).phase, [], (cfg.clients c).replies ++ replies⟩ = cl')
    (step : Locks.Step c a (cfg.locks trace) ((cfg.locks trace).move c p))
    (flags : Flags ((cfg.locks trace).move c p) cfg.db.find) :
    Outcome trace cfg c a w := by
  have events : cfg.wokenEvents c w.sent = [] := by rw [sent, Config.wokenEvents_own]
  have after : cfg.afterServe c [] w = cfg.afterOwn c cl' w := by
    rw [Config.afterServe_own sent, moves]
  have locks : (cfg.afterServe c [] w).locks (trace ++ cfg.wokenEvents c w.sent) =
      (cfg.locks trace).move c p := by
    rw [events, List.append_nil, after, Config.locks_afterOwn_same same, stands]
  refine ⟨by rw [locks]; exact step, ?_, by rw [locks, same]; exact flags⟩
  rw [after]
  exact shape_update linked.shape shape

theorem Config.lock_of_find (trace : List (Event N)) (found : cfg.db.find k = some item) :
    (cfg.locks trace).lock k = some item.lock := by
  change (cfg.db.find k).map Item.lock = _
  rw [found, Option.map_some]

/-- `valid_set` holds of an absent record and of a free one. -/
theorem validSet_iff_free :
    cfg.db.validSet k = true ↔ ∀ l, (cfg.locks trace).lock k = some l → l = ⟨false, 0⟩ := by
  cases found : cfg.db.find k with
  | none =>
      have absent : (cfg.locks trace).lock k = none := by
        change (cfg.db.find k).map Item.lock = none
        rw [found, Option.map_none]
      simp [Database.validSet, found, absent]
  | some item => simp [Database.validSet, found, Config.lock_of_find trace found, Item.lock]

theorem busy_of_invalid (found : cfg.db.find k = some item)
    (invalid : cfg.db.validSet k = false) : item.lock ≠ ⟨false, 0⟩ := by
  intro free
  simp only [Item.lock, Lock.mk.injEq] at free
  simp [Database.validSet, found, free] at invalid

theorem unlocked_of_validGet (valid : cfg.db.validGet k = true) :
    ∀ l, (cfg.locks trace).lock k = some l → l.isSet = false := by
  intro l locked
  cases found : cfg.db.find k with
  | none =>
      change (cfg.db.find k).map Item.lock = some l at locked
      rw [found] at locked
      cases locked
  | some item =>
      rw [Config.lock_of_find trace found, Option.some.injEq] at locked
      rw [← locked]
      simpa [Database.validGet, found, Item.lock] using valid

theorem record_numInGet (valid : cfg.db.validSet k = true) :
    (cfg.db.record k).numInGet = 0 := by
  cases found : cfg.db.find k with
  | none => simp [Database.record, found, Item.blank]
  | some item =>
      simp only [Database.validSet, found, Bool.and_eq_true, beq_iff_eq] at valid
      rw [Database.record, found, Option.getD_some, valid.2]

/-! One theorem for each effect; `own` is the client whose request is handled. -/

section Effects

variable {key value : CString} {requests : List Bytes} {mem : Mem}

/-- What a client's position is, in the lock state. -/
theorem Config.pos_own (trace : List (Event N)) {cl : Client} (own : cfg.clients c = cl) (point : cl.pos = p) :
    (cfg.locks trace).pos c = p :=
  (congrArg Client.pos own).trans point

theorem Linked.grantSet (linked : Linked trace cfg) (named : serverKey key.bytes = some k)
    (own : cfg.clients c = ⟨.setAsk key value, requests, []⟩)
    (asked : (cfg.locks trace).pos c = .askSet k) (valid : cfg.db.validSet k = true)
    (becomes : World.Becomes ⟨cfg.db, cfg.mem, []⟩ w k
      { cfg.db.record k with value := none, isSet := true } mem [(c, .ack)]) :
    Outcome trace cfg c (.setAsk k) w := by
  have moved : Flags ((cfg.locks trace).move c (.inSet k)) cfg.db.find :=
    linked.flags.move (by simp [asked]) (by simp)
  obtain ⟨set, get⟩ := linked.record_flags k
  refine linked.own [.ack] (p := .inSet k) (l := ⟨true, 0⟩) ?_ becomes.sent becomes.find_of
    (.setGranted named : Client.Shape ⟨.setAsk key value, [], [.ack]⟩) (Client.pos_eq named rfl rfl) (by rw [own]; rfl)
    (.grantSet asked (validSet_iff_free.mp valid)) ?_
  · simp only [Item.lock]
    rw [record_numInGet valid]
  · rw [becomes.find_of]
    refine moved.setLock (fun d => ?_) fun d => ?_
    · rw [move_pos_iff (by simp [asked]) (by simp)]
      exact set d
    · rw [move_pos_iff (by simp [asked]) (by simp)]
      exact get d

theorem Linked.deferSet (linked : Linked trace cfg) (named : serverKey key.bytes = some k)
    (own : cfg.clients c = ⟨.setAsk key value, requests, []⟩)
    (asked : (cfg.locks trace).pos c = .askSet k)
    (found : cfg.db.find k = some item) (invalid : cfg.db.validSet k = false)
    (becomes : World.Becomes ⟨cfg.db, cfg.mem, []⟩ w k
      { item with clientSet := Function.update item.clientSet c true } mem []) :
    Outcome trace cfg c (.setAsk k) w := by
  have same : ((cfg.locks trace).move c (.waitSet k)).setLock k item.lock =
      (cfg.locks trace).move c (.waitSet k) := setLock_self (Config.lock_of_find trace found)
  refine linked.own [] (p := .waitSet k) (l := item.lock) ?_ becomes.sent becomes.find_of
    (.setWait named : Client.Shape ⟨.setAsk key value, [], []⟩) (Client.pos_eq named rfl rfl) (by rw [own]; rfl) ?_ ?_
  · rfl
  · rw [same]
    exact .deferSet asked (Config.lock_of_find trace found) (busy_of_invalid found invalid)
  · rw [same, becomes.find_of]
    exact linked.flags.deferSet found (by simp [asked])

theorem Linked.store (linked : Linked trace cfg) {rkey : UInt32} {addr : UInt64}
    {stored : Option Value} (named : serverKey key.bytes = some k)
    (large : isEager value.bytes = false)
    (own : cfg.clients c = ⟨.setRendezvous key value, requests, []⟩)
    (inside : (cfg.locks trace).pos c = .inSet k)
    (becomes : World.Becomes ⟨cfg.db, cfg.mem, []⟩ w k
      { cfg.db.record k with value := stored, isSet := true } mem [(c, .region rkey addr)]) :
    Outcome trace cfg c (.store k) w := by
  obtain ⟨set, get⟩ := linked.record_flags k
  have stays : (cfg.locks trace).move c (.inSet k) = cfg.locks trace := move_self inside
  refine linked.own [.region rkey addr] (p := .inSet k) rfl becomes.sent becomes.find_of
    (.setRegion named large :
      Client.Shape ⟨.setRendezvous key value, [], [.region rkey addr]⟩) (Client.pos_eq named rfl rfl)
    (by rw [own]; rfl) ?_ ?_
  · rw [stays]
    exact .store inside (linked.record_lock (by rw [inside, needs]))
  · rw [stays, becomes.find_of]
    exact linked.flags.setLock set get

theorem Linked.grantGet (linked : Linked trace cfg) (named : serverKey key.bytes = some k)
    (own : cfg.clients c = ⟨.getAsk key, requests, []⟩)
    (asked : (cfg.locks trace).pos c = .askGet k) (valid : cfg.db.validGet k = true) :
    Outcome trace cfg c (.getAsk k) ⟨cfg.db, cfg.mem, [(c, .ack)]⟩ :=
  linked.ownSame [.ack] (p := .granted k) rfl rfl (.getGranted named) (Client.pos_eq named rfl rfl)
    (by rw [own]; rfl) (.grantGet asked (unlocked_of_validGet valid))
    (linked.flags.move (by simp [asked]) (by simp))

theorem Linked.deferGet (linked : Linked trace cfg) (named : serverKey key.bytes = some k)
    (own : cfg.clients c = ⟨.getAsk key, requests, []⟩)
    (asked : (cfg.locks trace).pos c = .askGet k)
    (found : cfg.db.find k = some item) (locked : item.isSet = true)
    (becomes : World.Becomes ⟨cfg.db, cfg.mem, []⟩ w k
      { item with clientGet := Function.update item.clientGet c true } mem []) :
    Outcome trace cfg c (.getAsk k) w := by
  have same : ((cfg.locks trace).move c (.waitGet k)).setLock k item.lock =
      (cfg.locks trace).move c (.waitGet k) := setLock_self (Config.lock_of_find trace found)
  refine linked.own [] (p := .waitGet k) (l := item.lock) ?_ becomes.sent becomes.find_of
    (.getWait named) (Client.pos_eq named rfl rfl) (by rw [own]; rfl) ?_ ?_
  · rfl
  · rw [same]
    exact .deferGet asked (Config.lock_of_find trace found) locked
  · rw [same, becomes.find_of]
    exact linked.flags.deferGet found (by simp [asked])

theorem Linked.lose (linked : Linked trace cfg) (named : serverKey key.bytes = some k)
    (own : cfg.clients c = ⟨.get key, requests, []⟩)
    (entered : (cfg.locks trace).pos c = .granted k) (absent : cfg.db.find k = none) :
    Outcome trace cfg c (.get k) ⟨cfg.db, cfg.mem, []⟩ := by
  refine linked.ownSame [] (p := .lost k) rfl rfl (.getLost named) (Client.pos_eq named rfl rfl)
    (by rw [own]; rfl) (.lose entered ?_) (linked.flags.move (by simp [entered]) (by simp))
  change (cfg.db.find k).map Item.lock = none
  rw [absent, Option.map_none]

theorem Linked.getLarge (linked : Linked trace cfg) {n : Int} {rkey : UInt32} {addr : UInt64}
    (named : serverKey key.bytes = some k)
    (own : cfg.clients c = ⟨.get key, requests, []⟩)
    (entered : (cfg.locks trace).pos c = .granted k) (found : cfg.db.find k = some item)
    (becomes : World.Becomes ⟨cfg.db, cfg.mem, []⟩ w k
      { item with numInGet := item.numInGet + 1 } mem
      [(c, .size n), (c, .region rkey addr)]) :
    Outcome trace cfg c (.get k) w := by
  have moved : Flags ((cfg.locks trace).move c (.reading k)) cfg.db.find :=
    linked.flags.move (by simp [entered]) (by simp)
  refine linked.own [.size n, .region rkey addr] (p := .reading k) rfl becomes.sent
    becomes.find_of (.getSizeSent named) (Client.pos_eq named rfl rfl) (by rw [own]; rfl)
    (.getLarge entered (Config.lock_of_find trace found)) ?_
  rw [becomes.find_of]
  exact moved.setLock (moved.set k item found) (moved.get k item found)

/-- A request after which its client is outside and the waiting clients are
served. -/
theorem Linked.finish (linked : Linked trace cfg) (item : Item N) {a : Ask Bytes} {phase : Phase}
    (before after : List Reply) (own : cfg.clients c = ⟨phase, requests, []⟩)
    (about : Client.record ⟨phase, [], before ++ after⟩ = some k)
    (holds : Holds ((cfg.locks trace).pos c) k)
    (shape : Client.Shape ⟨phase, [], before ++ after⟩)
    (leaves : Client.posOn ⟨phase, [], before ++ after⟩ k = .out)
    (set : ∀ d, item.clientSet d = true ↔ (cfg.locks trace).pos d = .waitSet k)
    (get : ∀ d, item.clientGet d = true ↔ (cfg.locks trace).pos d = .waitGet k)
    (becomes : World.Becomes ⟨cfg.db, cfg.mem, []⟩ w k item.woken mem
      ((before.map fun r => (c, r)) ++ item.wakeReplies ++ after.map fun r => (c, r)))
    (step : Locks.Step c a (cfg.locks trace)
      (((cfg.locks trace).move c .out).wake k item.lock)) :
    Outcome trace cfg c a w := by
  have working (k' : Bytes) :
      (cfg.clients c).pos ≠ .waitSet k' ∧ (cfg.clients c).pos ≠ .waitGet k' :=
    holds.not_waiting k'
  have stands : Client.pos ⟨phase, [], before ++ after⟩ = .out := by
    rw [Client.pos, about]
    exact leaves
  obtain ⟨locks, shapes, flags⟩ := linked.wake becomes.sent becomes.find_of set get working
    (by rw [own]; exact shape) (by rw [own]; exact stands)
  exact ⟨by rw [locks]; exact step, shapes, by rw [locks]; exact flags⟩

/-- The FIN of a set, sent as such or implied by an eager set. -/
theorem Linked.finSet (linked : Linked trace cfg) {phase : Phase}
    (own : cfg.clients c = ⟨phase, requests, []⟩)
    (about : Client.record ⟨phase, [], [.ack]⟩ = some k)
    (inside : (cfg.locks trace).pos c = .inSet k)
    (shape : Client.Shape ⟨phase, [], [.ack]⟩)
    (leaves : Client.posOn ⟨phase, [], [.ack]⟩ k = .out) {stored : Option Value}
    (becomes : World.Becomes ⟨cfg.db, cfg.mem, []⟩ w k
      { cfg.db.record k with value := stored, isSet := false }.woken mem
      ({ cfg.db.record k with value := stored, isSet := false }.wakeReplies ++ [(c, .ack)])) :
    Outcome trace cfg c (.setFin k) w := by
  obtain ⟨set, get⟩ := linked.record_flags k
  exact linked.finish { cfg.db.record k with value := stored, isSet := false } [] [.ack]
    own about (.inl inside) shape leaves set get becomes
    (.finish (.setFin inside (linked.record_lock (by rw [inside, needs]))))

end Effects

/-- Serving one request: it has one of the effects of its handler, and it is a step
of the lock discipline. -/
theorem Linked.serve (linked : Linked trace cfg) {buf : Bytes} {rest : List Bytes}
    {addr : UInt64} {rkey : UInt32} {ret : Ret}
    (queue : (cfg.clients c).requests = buf :: rest)
    (served : parseData (.reliable N addr rkey) ⟨cfg.db, cfg.mem, []⟩ buf c = some (ret, w)) :
    rest = [] ∧ ∃ r, parseRequest buf = .request r ∧ (cfg.clients c).Sends r ∧
      Effect addr rkey ⟨cfg.db, cfg.mem, []⟩ c r w ∧ Outcome trace cfg c (cfg.askOf r) w := by
  obtain ⟨single, crash | ⟨r, parsed, sends⟩⟩ := (linked.shape c).reads queue
  · rw [parseData, crash] at served
    cases served
  rw [parseData, parsed] at served
  have effect := handle_effect addr rkey served
  refine ⟨single, r, parsed, sends, effect, ?_⟩
  generalize own : cfg.clients c = cl at sends
  cases sends with
  | setAsk named =>
      have asked := Config.pos_own trace own (Client.pos_eq named rfl rfl)
      cases effect with
      | grantSet valid becomes => exact linked.grantSet named own asked valid becomes
      | deferSet found invalid becomes =>
          exact linked.deferSet named own asked found invalid becomes
  | setEager named eager =>
      have inside := Config.pos_own trace own (Client.pos_eq named rfl rfl)
      cases effect with
      | setEager becomes =>
          exact linked.finSet own named inside (.setEagerDone named eager) rfl becomes
  | setRendezvous named large =>
      have inside := Config.pos_own trace own (Client.pos_eq named rfl rfl)
      cases effect with
      | setRendezvous becomes => exact linked.store named large own inside becomes
  | @setFin key value k named large =>
      have inside := Config.pos_own trace own (Client.pos_eq named rfl rfl)
      cases effect with
      | @setFin _ item _ found becomes =>
          have record : cfg.db.record k = item := by
            rw [Database.record, found, Option.getD_some]
          rw [← record] at becomes
          exact linked.finSet own named inside (.setDone named large) rfl becomes
  | getAsk named =>
      have asked := Config.pos_own trace own (Client.pos_eq named rfl rfl)
      cases effect with
      | grantGet valid => exact linked.grantGet named own asked valid
      | deferGet found locked becomes =>
          exact linked.deferGet named own asked found locked becomes
  | @get key k named =>
      have entered := Config.pos_own trace own (Client.pos_eq named rfl rfl)
      cases effect with
      | lose absent =>
          have asks : cfg.askOf (.get k) = .get k := by
            simp only [Config.askOf, absent, Option.bind_none]
          rw [asks]
          exact linked.lose named own entered absent
      | @getEager _ item stored bytes _ found kept small block becomes =>
          have asks : cfg.askOf (.get k) = .getEager k := by
            simp only [Config.askOf, found, Option.bind_some, kept, small, if_true]
          rw [asks]
          exact linked.finish item [.eager (text bytes)] [.ack] own named (.inr (.inl entered))
            (.getEagerSent named) rfl (linked.flags.set k item found)
            (linked.flags.get k item found) becomes
            (.finish (.getEager entered (Config.lock_of_find trace found)))
      | getRendezvous found kept large registered becomes =>
          have asks : cfg.askOf (.get k) = .get k := by
            simp only [Config.askOf, found, Option.bind_some, kept, large, Bool.true_eq_false,
              if_false]
          rw [asks]
          exact linked.getLarge named own entered found becomes
  | @getFin key k v named =>
      have reads := Config.pos_own trace own (Client.pos_eq named rfl rfl)
      cases effect with
      | @getFin _ item _ found becomes =>
          exact linked.finish { item with numInGet := item.numInGet - 1 } [] [.ack]
            own named (.inr (.inr reads)) (.getDone named) rfl (linked.flags.set k item found)
            (linked.flags.get k item found) becomes
            (.finish (.getFin reads (Config.lock_of_find trace found)))

end Serve

/-! ## One step of the protocol -/

def Action.client : Action N → Fin N
  | .invoke c _ => c
  | .proceed c => c
  | .serve c _ _ => c

/-- How an action moves its client. -/
def Config.ask (cfg : Config N) : Action N → Ask Bytes
  | .serve c _ _ =>
    match cfg.nextRequest c with
    | some r => cfg.askOf r
    | none => .quiet
  | _ => .quiet

section Next

variable {trace events : List (Event N)} {cfg cfg' : Config N} {c : Fin N}
  {addr : UInt64} {rkey : UInt32} {call : Call}

/-- A served request crashes the server and stays unhandled, or is handled. -/
theorem Config.next_serve (next : cfg.next (.serve c addr rkey) = some (cfg', events)) :
    ∃ buf rest, (cfg.clients c).requests = buf :: rest ∧ cfg.up = true ∧
      cfg.mem.block addr = none ∧
      ((parseData (.reliable N addr rkey) ⟨cfg.db, cfg.mem, []⟩ buf c = none ∧
          cfg' = { cfg with up := false } ∧ events = []) ∨
        ∃ ret w,
          parseData (.reliable N addr rkey) ⟨cfg.db, cfg.mem, []⟩ buf c = some (ret, w) ∧
          cfg' = cfg.afterServe c rest w ∧ events = cfg.wokenEvents c w.sent) := by
  simp only [Config.next] at next
  split at next
  next => cases next
  next buf rest queue =>
    split at next
    next => cases next
    next runs =>
      simp only [not_or, Bool.not_eq_false, Bool.not_eq_true, Option.isSome_eq_false_iff,
        Option.isNone_iff_eq_none] at runs
      refine ⟨buf, rest, queue, runs.1, runs.2, ?_⟩
      split at next
      next crash =>
        cases next
        exact .inl ⟨crash, rfl, rfl⟩
      next ret w handled =>
        cases next
        exact .inr ⟨ret, w, handled, rfl, rfl⟩

theorem Config.next_proceed (next : cfg.next (.proceed c) = some (cfg', events)) :
    ∃ cl mem results, (cfg.clients c).proceed cfg.mem = some (cl, mem, results) ∧
      cfg' = { cfg with clients := Function.update cfg.clients c cl, mem := mem } ∧
      events = results.map fun (call, result) => .res c call result := by
  simp only [Config.next] at next
  split at next
  next => cases next
  next cl mem results own =>
    cases next
    exact ⟨cl, mem, results, own, rfl, rfl⟩

theorem Config.next_invoke (next : cfg.next (.invoke c call) = some (cfg', events)) :
    (cfg.clients c).phase = .idle ∧ call.fits = true ∧
      cfg' = { cfg with
        clients := Function.update cfg.clients c ((cfg.clients c).invoke call) } ∧
      events = [.inv c call] := by
  simp only [Config.next] at next
  split at next
  next idle =>
    cases next
    exact ⟨idle.1, idle.2, rfl, rfl⟩
  next => cases next

/-- An action of a client that grants no get and keeps the records. -/
theorem Config.locks_update (trace : List (Event N)) (cfg : Config N) (c : Fin N)
    (cl : Client) (mem : Mem) (events : List (Event N))
    (quiet : ∀ k, deferredGets k events = 0) :
    ({ cfg with clients := Function.update cfg.clients c cl, mem := mem } : Config N).locks
        (trace ++ events) = (cfg.locks trace).move c cl.pos := by
  ext1
  · funext d
    change (Function.update cfg.clients c cl d).pos = _
    rcases eq_or_ne d c with rfl | other
    · simp
    · rw [Function.update_of_ne other, move_pos_of_ne other]
      rfl
  · rfl
  · funext k
    change deferredGets k (trace ++ events) = deferredGets k trace
    rw [deferredGets_append, quiet k, Nat.add_zero]

/-- Every step of the protocol is a step of the lock discipline, by the request
that the action serves or by none, and keeps the link. -/
theorem Linked.next {action : Action N} (linked : Linked trace cfg)
    (next : cfg.next action = some (cfg', events)) :
    (∃ a, Locks.Step action.client a (cfg.locks trace) (cfg'.locks (trace ++ events)) ∧
      (a = .quiet ∨ a = cfg.ask action)) ∧ Linked (trace ++ events) cfg' := by
  -- the account follows from the step
  suffices moves : (∃ a,
      Locks.Step action.client a (cfg.locks trace) (cfg'.locks (trace ++ events)) ∧
        (a = .quiet ∨ a = cfg.ask action)) ∧ (∀ d, (cfg'.clients d).Shape) ∧
      Flags (cfg'.locks (trace ++ events)) cfg'.db.find by
    obtain ⟨⟨a, step, asks⟩, shape, flags⟩ := moves
    exact ⟨⟨a, step, asks⟩, shape, flags, linked.account.step step⟩
  cases action with
  | invoke c call =>
      obtain ⟨idle, fits, rfl, rfl⟩ := Config.next_invoke next
      have shape := linked.shape c
      have queues : cfg.clients c = ⟨.idle, [], []⟩ := by
        generalize cfg.clients c = cl at shape idle
        cases shape <;> first | rfl | cases idle
      have outside : (cfg.locks trace).pos c = .out :=
        (congrArg Client.pos queues).trans rfl
      have locks := Config.locks_update trace cfg c ((cfg.clients c).invoke call) cfg.mem [.inv c call]
        fun k => rfl
      have asks : ((cfg.clients c).invoke call).Shape ∧
          (((cfg.clients c).invoke call).pos = .out ∨
            ∃ k, ((cfg.clients c).invoke call).pos = .askSet k ∨
              ((cfg.clients c).invoke call).pos = .askGet k) := by
        rw [queues]
        cases call with
        | kvSet key value =>
            refine ⟨.setAsk, ?_⟩
            cases named : serverKey key.bytes with
            | none => exact .inl (Client.pos_unnamed named rfl)
            | some k => exact .inr ⟨k, .inl (Client.pos_eq named rfl rfl)⟩
        | kvGet key =>
            refine ⟨.getAsk, ?_⟩
            cases named : serverKey key.bytes with
            | none => exact .inl (Client.pos_unnamed named rfl)
            | some k => exact .inr ⟨k, .inr (Client.pos_eq named rfl rfl)⟩
      obtain ⟨shape, point⟩ := asks
      rw [locks]
      rcases point with out | asks
      · rw [out, move_self outside]
        exact ⟨⟨.quiet, .stay, .inl rfl⟩, shape_update linked.shape shape, linked.flags⟩
      · refine ⟨⟨.quiet, .ask outside asks, .inl rfl⟩, shape_update linked.shape shape, ?_⟩
        apply linked.flags.move (by simp [outside])
        intro k
        obtain ⟨k', point | point⟩ := asks <;> simp [point]
  | proceed c =>
      obtain ⟨cl, mem, results, own, rfl, rfl⟩ := Config.next_proceed next
      obtain ⟨shape, point⟩ := (linked.shape c).proceed own
      have quiet : ∀ k, deferredGets k
          (results.map fun x : Call × Result => Event.res c x.1 x.2) = 0 := by
        intro k
        rw [deferredGets, List.countP_map]
        exact List.countP_eq_zero.mpr fun x _ => by simp [Event.wakes]
      have locks := Config.locks_update trace cfg c cl mem _ quiet
      have stays : (cfg.locks trace).move c cl.pos = cfg.locks trace := move_self point.symm
      rw [stays] at locks
      rw [locks]
      exact ⟨⟨.quiet, .stay, .inl rfl⟩, shape_update linked.shape shape, linked.flags⟩
  | serve c addr rkey =>
      obtain ⟨buf, rest, queue, -, -, ⟨-, rfl, rfl⟩ | ⟨ret, w, served, rfl, rfl⟩⟩ :=
        Config.next_serve next
      · rw [List.append_nil]
        exact ⟨⟨.quiet, .stay, .inl rfl⟩, linked.shape, linked.flags⟩
      · obtain ⟨rfl, r, parsed, -, -, outcome⟩ := linked.serve queue served
        have asks : cfg.ask (.serve c addr rkey) = cfg.askOf r := by
          simp only [Config.ask, Config.nextRequest, queue, parsed]
        exact ⟨⟨cfg.askOf r, outcome.step, .inr asks.symm⟩, outcome.shape, outcome.flags⟩

end Next

/-! ## Runs -/

section Runs

variable {guard : Guard (Config N) (Action N) (Event N)} {trace : List (Event N)}
  {cfg : Config N}

theorem Linked.start : Linked [] (Config.start N) where
  shape _ := .idle
  flags := ⟨fun _ _ found => (by cases found), fun _ _ found => (by cases found)⟩
  account :=
    ⟨fun _ _ needed => (by cases needed), fun _ _ => rfl, fun _ _ found => (by cases found)⟩

theorem linked_of_run (run : (protocol N).Run guard trace cfg) : Linked trace cfg :=
  run.invariant Linked .start fun _ linked _ next => (linked.next next).2

/-- A call in progress was so before, or is invoked by the step. -/
theorem Config.call_next {cfg' : Config N} {action : Action N} {events : List (Event N)}
    {d : Fin N} {call : Call} (next : cfg.next action = some (cfg', events))
    (during : (cfg'.clients d).phase.call = some call) :
    (cfg.clients d).phase.call = some call ∨
      action = .invoke d call ∧ call.fits = true ∧ .inv d call ∈ events := by
  cases action with
  | invoke c new =>
      obtain ⟨idle, fits, rfl, rfl⟩ := Config.next_invoke next
      change (Function.update cfg.clients c _ d).phase.call = _ at during
      rcases eq_or_ne d c with rfl | other
      · rw [Function.update_self] at during
        have same : some new = some call := by
          cases new <;> exact during
        cases same
        exact .inr ⟨rfl, fits, List.mem_cons_self⟩
      · rw [Function.update_of_ne other] at during
        exact .inl during
  | proceed c =>
      obtain ⟨cl, mem, results, own, rfl, -⟩ := Config.next_proceed next
      change (Function.update cfg.clients c cl d).phase.call = _ at during
      left
      rcases eq_or_ne d c with rfl | other
      · rw [Function.update_self] at during
        exact Client.proceed_call own during
      · rw [Function.update_of_ne other] at during
        exact during
  | serve c addr rkey =>
      obtain ⟨buf, rest, queue, -, -, ⟨-, rfl, -⟩ | ⟨ret, w, -, rfl, -⟩⟩ :=
        Config.next_serve next
      · exact .inl during
      · exact .inl during

/-- What the guard asks of every invoked call holds of the calls in progress, and
their texts fit. -/
theorem calls_of_run {P : Call → Prop}
    (asks : ∀ trace cfg c call, guard trace cfg (.invoke c call) → P call)
    (run : (protocol N).Run guard trace cfg) :
    ∀ d call, (cfg.clients d).phase.call = some call → call.fits = true ∧ P call := by
  refine run.invariant (fun _ cfg => ∀ d call, (cfg.clients d).phase.call = some call →
    call.fits = true ∧ P call) (fun _ _ during => by cases during) ?_
  intro trace cfg action cfg' events before ih met next d call during
  rcases Config.call_next next during with earlier | ⟨rfl, fits, -⟩
  · exact ih d call earlier
  · exact ⟨fits, asks _ _ _ _ met⟩

end Runs

end RdmaWiki
