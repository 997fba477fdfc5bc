import RdmaWiki.Lib.Ledger
import RdmaWiki.Setup

/-!
What a handle holds.

A ledger is kept of the memory, the descriptors and the adapter's objects that the calls of
`kv_open` and `kv_close` acquire and release. Neither of them makes a fault, whatever fails:
nothing is released twice, used after it was released or released before what is made from it.
When `kv_open` returns, no socket and no address list is left; it holds everything that it made,
on a success and on every failure, since it never destroys an object (`kvOpen_balances`). A
`kv_close` of an open handle that succeeds leaves the device list and the destination
(`kvClose_balances`), and one that fails can be repeated only if it failed at its first call
(`closeAgain_iff`).
-/

namespace RdmaWiki

open CText HexText Ledger LibraryCalls

/-! ## The ledger -/

inductive Resource
  | deviceList
  | ctx
  | buf
  | context
  | channel
  | pd
  | mr
  | cq
  | qp
  | service
  | addresses
  | socket (fd : Fd)
  | dest
deriving DecidableEq

/-- What a resource is made from. The members of a context are reached through it, and a
completion queue may have a channel. -/
def Resource.needs (useEvent : Bool) : Resource → List Resource
  | .buf | .context => [.ctx]
  | .channel | .pd => [.ctx, .context]
  | .mr => [.ctx, .pd, .buf]
  | .cq => if useEvent then [.ctx, .context, .channel] else [.ctx, .context]
  | .qp => [.ctx, .pd, .cq]
  | .addresses => [.service]
  | .deviceList | .ctx | .service | .socket _ | .dest => []

/-- An attempt to make a resource. -/
def made (useEvent : Bool) (worked : Bool) (k : Resource) : Entry Resource :=
  if worked then .acquire k else .use (k.needs useEvent)

/-- An attempt to destroy one, which is still there when an `errno` is returned. -/
def destroyed (errno : Int) (k : Resource) : Entry Resource :=
  if errno = 0 then .release k else .use [k]

def setupEntry (useEvent : Bool) : SetupEvent → Entry Resource
  | ⟨⟨_, .getDeviceList⟩, devices⟩ => made useEvent (devices : Option ℕ).isSome .deviceList
  | ⟨⟨_, .sysconf⟩, _⟩ => .use []
  | ⟨⟨_, .calloc⟩, worked⟩ => made useEvent worked .ctx
  | ⟨⟨_, .mallocBuf _⟩, worked⟩ => made useEvent worked .buf
  | ⟨⟨_, .openDevice⟩, worked⟩ => made useEvent worked .context
  | ⟨⟨_, .createCompChannel⟩, worked⟩ => made useEvent worked .channel
  | ⟨⟨_, .allocPd⟩, worked⟩ => made useEvent worked .pd
  | ⟨⟨_, .regMr _⟩, worked⟩ => made useEvent worked .mr
  | ⟨⟨_, .createCq _⟩, worked⟩ => made useEvent worked .cq
  | ⟨⟨_, .createQp _ _⟩, num⟩ => made useEvent (num : Option UInt32).isSome .qp
  | ⟨⟨_, .modifyQp _⟩, _⟩ => .use [.qp]
  | ⟨⟨_, .postRecv⟩, _⟩ => .use [.qp, .buf, .mr]
  | ⟨⟨_, .reqNotifyCq⟩, _⟩ => .use [.cq]
  | ⟨⟨_, .queryPort _⟩, _⟩ | ⟨⟨_, .queryGid _ _⟩, _⟩ => .use [.context]
  | ⟨⟨_, .lrand48⟩, _⟩ => .use []
  | ⟨⟨_, .asprintf _⟩, worked⟩ => made useEvent worked .service
  | ⟨⟨_, .getaddrinfo⟩, n⟩ => made useEvent (n : Option ℕ).isSome .addresses
  | ⟨⟨_, .socket⟩, worked⟩ => made useEvent worked (.socket .sockfd)
  | ⟨⟨_, .setsockopt⟩, _⟩ | ⟨⟨_, .listen⟩, _⟩ => .use [.socket .sockfd]
  | ⟨⟨_, .connect⟩, _⟩ | ⟨⟨_, .bind⟩, _⟩ => .use [.socket .sockfd, .addresses]
  | ⟨⟨_, .accept⟩, peer⟩ => made useEvent (peer : Option ℕ).isSome (.socket .connfd)
  | ⟨⟨_, .close fd⟩, _⟩ => .release (.socket fd)
  | ⟨⟨_, .freeaddrinfo⟩, _⟩ => .release .addresses
  | ⟨⟨_, .freeService⟩, _⟩ => .release .service
  | ⟨⟨_, .write fd _⟩, _⟩ | ⟨⟨_, .read fd _⟩, _⟩ => .use [.socket fd]
  | ⟨⟨_, .mallocDest⟩, worked⟩ => made useEvent worked .dest
  | ⟨⟨_, .freeDest⟩, _⟩ => .release .dest
  | ⟨⟨_, .destroyQp⟩, errno⟩ => destroyed errno .qp
  | ⟨⟨_, .destroyCq⟩, errno⟩ => destroyed errno .cq
  | ⟨⟨_, .deregMr⟩, errno⟩ => destroyed errno .mr
  | ⟨⟨_, .deallocPd⟩, errno⟩ => destroyed errno .pd
  | ⟨⟨_, .destroyCompChannel⟩, errno⟩ => destroyed errno .channel
  | ⟨⟨_, .closeDevice⟩, errno⟩ => destroyed errno .context
  | ⟨⟨_, .freeBuf⟩, _⟩ => .release .buf
  | ⟨⟨_, .freeCtx⟩, _⟩ => .release .ctx

/-- The order in which `init_connection` makes the objects of a handle. -/
def objects (useEvent : Bool) : List Resource :=
  [.deviceList, .ctx, .buf, .context] ++ (if useEvent then [.channel] else []) ++
    [.pd, .mr, .cq, .qp]

/-- The first `k` of them. -/
def objectsUpTo (useEvent : Bool) (k : ℕ) : Finset Resource := ((objects useEvent).take k).toFinset

/-- No fault is made, and `Q` holds of the result and what is held, unless the program stops. -/
def Accounts {β : Type} (useEvent : Bool) (Q : β → Finset Resource → Prop) (p : Setup β)
    (held : Finset Resource) : Prop :=
  Balances (Resource.needs useEvent) (setupEntry useEvent)
    (fun out held =>
      match out with
      | .ok b => Q b held
      | .error _ => True) p held

section Rules

variable {β γ : Type} {useEvent : Bool} {Q : β → Finset Resource → Prop}
  {Q' : γ → Finset Resource → Prop} {held : Finset Resource} {h : ℕ} {op : SetupOp}
  {k : Resource}

theorem Accounts.bind {p : Setup β} {f : β → Setup γ} (first : Accounts useEvent Q p held)
    (second : ∀ b held, Q b held → Accounts useEvent Q' (f b) held) :
    Accounts useEvent Q' (p >>= f) held :=
  Balances.bind first (fun _ _ _ => True.intro) second

theorem Accounts.mono {Q' : β → Finset Resource → Prop} {p : Setup β}
    (accounts : Accounts useEvent Q p held) (weaker : ∀ b held, Q b held → Q' b held) :
    Accounts useEvent Q' p held :=
  Balances.mono accounts fun out held holds => by
    cases out with
    | ok b => exact weaker b held holds
    | error s => exact True.intro

theorem accounts_done {b : β} (holds : Q b held) : Accounts useEvent Q (.done b) held := holds

theorem accounts_stop {reason : Stop} : Accounts useEvent Q (.stop reason : Setup β) held :=
  True.intro

/-- The rule for a call that only uses what is held. -/
theorem accounts_use {f : op.Answer → Setup β} {ks : List Resource}
    (entry : ∀ r, setupEntry useEvent ⟨⟨h, op⟩, r⟩ = .use ks) (there : ∀ k ∈ ks, k ∈ held)
    (goes : ∀ r, Accounts useEvent Q (f r) held) :
    Accounts useEvent Q (Setup.lib h op >>= f) held :=
  fun r => ⟨held, by rw [entry r]; exact if_pos there, goes r⟩

/-- The rule for an attempt to make a resource. -/
theorem accounts_make {f : op.Answer → Setup β} {w : op.Answer → Bool}
    (entry : ∀ r, setupEntry useEvent ⟨⟨h, op⟩, r⟩ = made useEvent (w r) k)
    (free : k ∉ held) (there : ∀ n ∈ k.needs useEvent, n ∈ held)
    (fails : ∀ r, w r = false → Accounts useEvent Q (f r) held)
    (works : ∀ r, w r = true → Accounts useEvent Q (f r) (insert k held)) :
    Accounts useEvent Q (Setup.lib h op >>= f) held := by
  intro r
  rw [entry r]
  cases result : w r with
  | false => exact ⟨held, if_pos there, fails r result⟩
  | true => exact ⟨insert k held, if_pos ⟨free, there⟩, works r result⟩

/-- The rule for a resource that is given back. -/
theorem accounts_release {f : op.Answer → Setup β}
    (entry : ∀ r, setupEntry useEvent ⟨⟨h, op⟩, r⟩ = .release k) (there : k ∈ held)
    (last : ∀ d ∈ held, k ∉ d.needs useEvent)
    (goes : ∀ r, Accounts useEvent Q (f r) (held.erase k)) :
    Accounts useEvent Q (Setup.lib h op >>= f) held :=
  fun r => ⟨held.erase k, by rw [entry r]; exact if_pos ⟨there, last⟩, goes r⟩

/-- The rule for an attempt to destroy a resource. -/
theorem accounts_destroy {f : op.Answer → Setup β} {errno : op.Answer → Int}
    (entry : ∀ r, setupEntry useEvent ⟨⟨h, op⟩, r⟩ = destroyed (errno r) k) (there : k ∈ held)
    (last : ∀ d ∈ held, k ∉ d.needs useEvent)
    (fails : ∀ r, errno r ≠ 0 → Accounts useEvent Q (f r) held)
    (works : ∀ r, errno r = 0 → Accounts useEvent Q (f r) (held.erase k)) :
    Accounts useEvent Q (Setup.lib h op >>= f) held := by
  intro r
  rw [entry r, destroyed]
  by_cases worked : errno r = 0
  · rw [if_pos worked]
    exact ⟨held.erase k, if_pos ⟨there, last⟩, works r worked⟩
  · rw [if_neg worked]
    exact ⟨held, if_pos (by simpa using there), fails r worked⟩

end Rules

/-! ## Opening -/

/-- All objects of a handle. -/
def whole (useEvent : Bool) : Finset Resource := (objects useEvent).toFinset

theorem objects_next {useEvent : Bool} {i : ℕ} {k : Resource}
    (next : (objects useEvent)[i]? = some k) :
    k ∉ objectsUpTo useEvent i ∧ (∀ n ∈ k.needs useEvent, n ∈ objectsUpTo useEvent i) ∧
      insert k (objectsUpTo useEvent i) = objectsUpTo useEvent (i + 1) := by
  have grown : insert k (objectsUpTo useEvent i) = objectsUpTo useEvent (i + 1) := by
    ext x
    simp [objectsUpTo, List.take_add_one, next]
  refine ⟨?_, ?_, grown⟩
  all_goals
    have short : i < 9 := by
      have inside := (List.getElem?_eq_some_iff.mp next).1
      cases useEvent
      · exact lt_trans inside (by decide)
      · exact inside
    cases useEvent <;> interval_cases i <;> cases next <;> decide

theorem objectsUpTo_length {useEvent : Bool} :
    objectsUpTo useEvent (useEvent.toNat + 8) = whole useEvent := by
  cases useEvent <;> rfl

section Opening

variable {β : Type} {opts : Options} {h : ℕ} {isServer : Bool} {op : SetupOp}
  {Q : β → Finset Resource → Prop}

/-- The rule for the next object. -/
theorem accounts_next {f : op.Answer → Setup β} {w : op.Answer → Bool} {useEvent : Bool}
    {k : Resource} (i : ℕ)
    (entry : ∀ r, setupEntry useEvent ⟨⟨h, op⟩, r⟩ = made useEvent (w r) k)
    (next : (objects useEvent)[i]? = some k)
    (fails : ∀ r, w r = false → Accounts useEvent Q (f r) (objectsUpTo useEvent i))
    (works : ∀ r, w r = true → Accounts useEvent Q (f r) (objectsUpTo useEvent (i + 1))) :
    Accounts useEvent Q (Setup.lib h op >>= f) (objectsUpTo useEvent i) := by
  obtain ⟨free, there, grown⟩ := objects_next next
  refine accounts_make entry free there fails fun r worked => ?_
  rw [grown]
  exact works r worked

/-- What is held when objects are made: all of them, or the first ones. -/
def Made (opts : Options) : Option SetupCtx → Finset Resource → Prop
  | none, held => ∃ k, held = objectsUpTo opts.useEvent k
  | some ctx, held => held = whole opts.useEvent ∧ ctx.channel = opts.useEvent

theorem accounts_initQp :
    Accounts opts.useEvent (Made opts) (Setup.initQp h opts isServer)
      (objectsUpTo opts.useEvent (opts.useEvent.toNat + 7)) := by
  refine accounts_next (w := Option.isSome) _ (fun _ => rfl)
    (by cases opts.useEvent <;> rfl) (fun num failed => ?_) fun num worked => ?_
  · obtain rfl := Option.not_isSome_iff_eq_none.mp (by simpa using failed)
    exact accounts_done ⟨_, rfl⟩
  · obtain ⟨num, rfl⟩ := Option.isSome_iff_exists.mp worked
    rw [objectsUpTo_length]
    refine accounts_use (fun _ => rfl) (by cases opts.useEvent <;> decide) fun modified => ?_
    split
    · exact accounts_done ⟨_, objectsUpTo_length.symm⟩
    · exact accounts_done ⟨rfl, rfl⟩

theorem accounts_initQueues :
    Accounts opts.useEvent (Made opts) (Setup.initQueues h opts isServer)
      (objectsUpTo opts.useEvent (opts.useEvent.toNat + 4)) := by
  refine accounts_next _ (fun _ => rfl) (by cases opts.useEvent <;> rfl) ?_ ?_ <;> rintro _ rfl
  · exact accounts_done ⟨_, rfl⟩
  refine accounts_next _ (fun _ => rfl) (by cases opts.useEvent <;> rfl) ?_ ?_ <;> rintro _ rfl
  · exact accounts_done ⟨_, rfl⟩
  refine accounts_next _ (fun _ => rfl) (by cases opts.useEvent <;> rfl) ?_ ?_ <;> rintro _ rfl
  · exact accounts_done ⟨_, rfl⟩
  exact accounts_initQp

theorem accounts_ppInitCtx (pageSize : ℕ) :
    Accounts opts.useEvent (Made opts) (Setup.ppInitCtx h opts isServer pageSize)
      (objectsUpTo opts.useEvent 1) := by
  refine accounts_next _ (fun _ => rfl) rfl ?_ ?_ <;> rintro _ rfl
  · exact accounts_done ⟨_, rfl⟩
  refine accounts_next _ (fun _ => rfl) rfl ?_ ?_ <;> rintro _ rfl
  · exact accounts_done ⟨_, rfl⟩
  refine accounts_next _ (fun _ => rfl) rfl ?_ ?_ <;> rintro _ rfl
  · exact accounts_done ⟨_, rfl⟩
  have queues : Accounts opts.useEvent (Made opts) (Setup.initQueues h opts isServer)
      (objectsUpTo opts.useEvent (opts.useEvent.toNat + 4)) := accounts_initQueues
  cases event : opts.useEvent with
  | false =>
      rw [event] at queues
      simpa [event] using queues
  | true =>
      rw [event] at queues
      simp only [Bool.true_eq_false, if_false, if_true]
      refine accounts_next _ (fun _ => rfl) rfl ?_ ?_ <;> rintro _ rfl
      · exact accounts_done ⟨4, by rw [event]⟩
      · exact queues

theorem accounts_ppPostRecv (n i : ℕ) :
    Accounts opts.useEvent (fun _ held => held = whole opts.useEvent)
      (Setup.ppPostRecv h n i) (whole opts.useEvent) := by
  induction n generalizing i with
  | zero => exact accounts_done rfl
  | succ n ih =>
      refine accounts_use (fun _ => rfl) (by cases opts.useEvent <;> decide) fun posted => ?_
      split
      · exact accounts_done rfl
      · exact ih (i + 1)

theorem accounts_openDevice :
    Accounts opts.useEvent (Made opts) (Setup.openDevice h opts isServer) ∅ := by
  refine accounts_use (fun _ => rfl) (by simp) fun pageSize => ?_
  refine accounts_next (w := Option.isSome) 0 (fun _ => rfl) rfl
    (fun devices failed => ?_) fun devices worked => ?_
  · obtain rfl := Option.not_isSome_iff_eq_none.mp (by simpa using failed)
    exact accounts_done ⟨_, rfl⟩
  obtain ⟨devices, rfl⟩ := Option.isSome_iff_exists.mp worked
  cases devices with
  | zero => exact accounts_done ⟨_, rfl⟩
  | succ devices =>
      refine (accounts_ppInitCtx pageSize).bind fun ctx held holds => ?_
      cases ctx with
      | none => exact accounts_done holds
      | some ctx =>
          obtain ⟨rfl, channel⟩ := holds
          refine (accounts_ppPostRecv _ _).bind fun routs held holds => ?_
          subst holds
          split
          · exact accounts_done ⟨_, objectsUpTo_length.symm⟩
          split
          · refine accounts_use (fun _ => rfl) (by cases opts.useEvent <;> decide)
              fun notified => ?_
            split
            · exact accounts_done ⟨_, objectsUpTo_length.symm⟩
            · exact accounts_done ⟨rfl, channel⟩
          · exact accounts_done ⟨rfl, channel⟩

theorem accounts_localDest {qpNum : UInt32} :
    Accounts opts.useEvent (fun _ held => held = whole opts.useEvent)
      (Setup.localDest h opts qpNum) (whole opts.useEvent) := by
  have context : ∀ k ∈ [Resource.context], k ∈ whole opts.useEvent := by
    cases opts.useEvent <;> decide
  refine accounts_use (fun _ => rfl) context fun attr => ?_
  cases attr with
  | none => exact accounts_done rfl
  | some attr =>
      dsimp only
      split
      · exact accounts_done rfl
      have gid : Accounts opts.useEvent (fun _ held => held = whole opts.useEvent)
          (Setup.localGid h opts) (whole opts.useEvent) := by
        unfold Setup.localGid
        split
        · exact accounts_use (f := .done) (fun _ => rfl) context fun _ => accounts_done rfl
        · exact accounts_done rfl
      refine gid.bind fun gid held holds => ?_
      subst holds
      cases gid with
      | none => exact accounts_done rfl
      | some gid => exact accounts_use (fun _ => rfl) (by simp) fun psn => accounts_done rfl

end Opening

/-! ## The exchange -/

section Exchange

variable {opts : Options} {h : ℕ} {useEvent : Bool} {held : Finset Resource} {myDest dest : Dest}

theorem not_needed_socket (fd : Fd) (d : Resource) : .socket fd ∉ d.needs useEvent := by
  cases d <;> cases useEvent <;> simp [Resource.needs]

theorem not_needed_dest (d : Resource) : .dest ∉ d.needs useEvent := by
  cases d <;> cases useEvent <;> simp [Resource.needs]

theorem not_needed_addresses (d : Resource) : .addresses ∉ d.needs useEvent := by
  cases d <;> cases useEvent <;> simp [Resource.needs]

theorem not_needed_service {d : Resource} (other : d ≠ .addresses) :
    .service ∉ d.needs useEvent := by
  cases d <;> cases useEvent <;> simp_all [Resource.needs]

/-- A loop over addresses ends with a socket or without one, and with nothing else. -/
def Sockets (held : Finset Resource) : Bool → Finset Resource → Prop
  | false, after => after = held
  | true, after => after = insert (.socket .sockfd) held

theorem accounts_connectLoop (free : .socket .sockfd ∉ held) (addresses : .addresses ∈ held)
    (n : ℕ) : Accounts useEvent (Sockets held) (Setup.connectLoop h n) held := by
  induction n with
  | zero => exact accounts_done rfl
  | succ n ih =>
      refine accounts_make (fun _ => rfl) free (by simp [Resource.needs]) ?_ ?_ <;> rintro _ rfl
      · exact ih
      refine accounts_use (fun _ => rfl) (by simp [addresses]) fun connected => ?_
      split
      · exact accounts_done rfl
      refine accounts_release (fun _ => rfl) (Finset.mem_insert_self _ _)
        (fun d _ => not_needed_socket _ d) fun _ => ?_
      rw [Finset.erase_insert free]
      exact ih

theorem accounts_bindLoop (free : .socket .sockfd ∉ held) (addresses : .addresses ∈ held)
    (n : ℕ) : Accounts useEvent (Sockets held) (Setup.bindLoop h n) held := by
  induction n with
  | zero => exact accounts_done rfl
  | succ n ih =>
      refine accounts_make (fun _ => rfl) free (by simp [Resource.needs]) ?_ ?_ <;> rintro _ rfl
      · exact ih
      refine accounts_use (fun _ => rfl) (by simp) fun _ => ?_
      refine accounts_use (fun _ => rfl) (by simp [addresses]) fun bound => ?_
      split
      · exact accounts_done rfl
      refine accounts_release (fun _ => rfl) (Finset.mem_insert_self _ _)
        (fun d _ => not_needed_socket _ d) fun _ => ?_
      rw [Finset.erase_insert free]
      exact ih

/-- Nothing of the exchange is held. -/
structure Apart (held : Finset Resource) : Prop where
  service : .service ∉ held
  addresses : .addresses ∉ held
  sockets : ∀ fd, .socket fd ∉ held
  dest : .dest ∉ held

theorem accounts_withAddresses (apart : Apart held) {loop : ℕ → Setup Bool}
    (looped : ∀ n held, .socket .sockfd ∉ held → .addresses ∈ held →
      Accounts useEvent (Sockets held) (loop n) held) :
    Accounts useEvent (Sockets held) (Setup.withAddresses h opts loop) held := by
  refine accounts_make (fun _ => rfl) apart.service (by simp [Resource.needs]) ?_ ?_ <;>
    rintro _ rfl
  · exact accounts_done rfl
  refine accounts_make (w := Option.isSome) (fun _ => rfl)
    (by simp [apart.addresses]) (by simp [Resource.needs]) (fun n failed => ?_) fun n worked => ?_
  · obtain rfl := Option.not_isSome_iff_eq_none.mp (by simpa using failed)
    refine accounts_release (fun _ => rfl) (Finset.mem_insert_self _ _) (fun d member => ?_)
      fun _ => ?_
    · apply not_needed_service
      rintro rfl
      exact apart.addresses (by simpa using member)
    · rw [Finset.erase_insert apart.service]
      exact accounts_done rfl
  obtain ⟨n, rfl⟩ := Option.isSome_iff_exists.mp worked
  refine (looped n _ (by simp [apart.sockets]) (Finset.mem_insert_self _ _)).bind
    fun opened after ends => ?_
  have addresses : .addresses ∈ after := by
    cases opened <;> rw [ends] <;> simp
  refine accounts_release (fun _ => rfl) addresses (fun d _ => not_needed_addresses d) fun _ => ?_
  have service : .service ∈ after.erase .addresses := by
    cases opened <;> rw [ends] <;> simp
  refine accounts_release (fun _ => rfl) service (fun d member => ?_) fun _ => ?_
  · exact not_needed_service (Finset.ne_of_mem_erase member)
  have left : ∀ x ∈ held, x ≠ .addresses ∧ x ≠ .service := fun x member =>
    ⟨fun same => apart.addresses (same ▸ member), fun same => apart.service (same ▸ member)⟩
  cases opened <;> rw [ends] <;> apply accounts_done <;> ext x <;>
    simp only [Finset.mem_erase, Finset.mem_insert]
  · grind
  · grind

/-- What is held when an exchange of destinations ends: the new destination, or nothing new. -/
def Traded (held : Finset Resource) : Option Dest → Finset Resource → Prop
  | none, after => after = held
  | some _, after => after = insert .dest held

theorem accounts_format {γ : Type} {Q : γ → Finset Resource → Prop} {f : Bytes → Setup γ}
    (goes : ∀ msg, Accounts useEvent Q (f msg) held) :
    Accounts useEvent Q (Setup.format opts dest >>= f) held := by
  unfold Setup.format
  split
  · exact goes _
  · exact accounts_stop

theorem accounts_scan {γ : Type} {Q : γ → Finset Resource → Prop} {f : Dest → Setup γ}
    {gid msg : Bytes} (goes : ∀ dest, Accounts useEvent Q (f dest) held) :
    Accounts useEvent Q (Setup.scan opts gid msg >>= f) held := by
  unfold Setup.scan
  split
  · exact accounts_stop
  · exact goes _

theorem accounts_clientTrade (socket : .socket .sockfd ∈ held) (dest : .dest ∉ held) :
    Accounts useEvent (Traded held) (Setup.clientTrade h opts myDest) held := by
  refine accounts_format fun msg => ?_
  refine accounts_use (fun _ => rfl) (by simpa using socket) fun sent => ?_
  split
  · exact accounts_done rfl
  refine accounts_use (fun _ => rfl) (by simpa using socket) fun got => ?_
  cases got with
  | none => exact accounts_done rfl
  | some msg =>
      dsimp only
      split
      · exact accounts_done rfl
      refine accounts_use (fun _ => rfl) (by simpa using socket) fun _ => ?_
      refine accounts_make (fun _ => rfl) dest (by simp [Resource.needs]) ?_ ?_ <;> rintro _ rfl
      · exact accounts_done rfl
      · exact accounts_scan fun dest => accounts_done rfl

theorem accounts_ppConnectCtx (qp : .qp ∈ held) {psn : UInt32} :
    Accounts useEvent (fun _ after => after = held) (Setup.ppConnectCtx h opts psn dest) held := by
  refine accounts_use (fun _ => rfl) (by simpa using qp) fun ready => ?_
  split
  · exact accounts_done rfl
  refine accounts_use (fun _ => rfl) (by simpa using qp) fun sending => ?_
  split
  · exact accounts_done rfl
  · exact accounts_done rfl

theorem accounts_serverTrade (socket : .socket .connfd ∈ held) (free : .dest ∉ held)
    (qp : .qp ∈ held) :
    Accounts useEvent (Traded held) (Setup.serverTrade h opts myDest) held := by
  have freed : ∀ (β : Type) (Q : β → Finset Resource → Prop) (b : β), Q b held →
      Accounts useEvent Q (Setup.lib h .freeDest >>= fun _ => .done b) (insert .dest held) := by
    intro β Q b holds
    refine accounts_release (fun _ => rfl) (Finset.mem_insert_self _ _)
      (fun d _ => not_needed_dest d) fun _ => ?_
    rw [Finset.erase_insert free]
    exact accounts_done holds
  refine accounts_use (fun _ => rfl) (by simpa using socket) fun got => ?_
  cases got with
  | none => exact accounts_done rfl
  | some msg =>
      dsimp only
      split
      · exact accounts_done rfl
      refine accounts_make (fun _ => rfl) free (by simp [Resource.needs]) ?_ ?_ <;> rintro _ rfl
      · exact accounts_done rfl
      refine accounts_scan fun dest => ?_
      refine (accounts_ppConnectCtx (Finset.mem_insert_of_mem qp)).bind fun connected after same => ?_
      subst same
      split
      · exact freed _ _ _ rfl
      refine accounts_format fun msg => ?_
      refine accounts_use (fun _ => rfl) (by simp [socket]) fun sent => ?_
      split
      · exact freed _ _ _ rfl
      · exact accounts_use (fun _ => rfl) (by simp [socket]) fun _ => accounts_done rfl

/-- A socket that was opened for a trade is closed after it. -/
theorem accounts_closeAfter {fd : Fd} (free : .socket fd ∉ held) {remDest : Option Dest}
    {after : Finset Resource} (traded : Traded (insert (.socket fd) held) remDest after) :
    Accounts useEvent (Traded held) (Setup.lib h (.close fd) >>= fun _ => .done remDest) after := by
  have socket : .socket fd ∈ after := by
    cases remDest <;> rw [traded] <;> simp
  refine accounts_release (fun _ => rfl) socket (fun d _ => not_needed_socket _ d) fun _ => ?_
  apply accounts_done
  cases remDest <;> rw [traded]
  · exact Finset.erase_insert free
  · rw [Traded, Finset.insert_comm, Finset.erase_insert (by simp [free])]

theorem accounts_ppClientExchDest (apart : Apart held) :
    Accounts useEvent (Traded held) (Setup.ppClientExchDest h opts myDest) held := by
  refine (accounts_withAddresses apart fun n held free there =>
    accounts_connectLoop free there n).bind fun connected after ends => ?_
  cases connected with
  | false => exact accounts_done ends
  | true =>
      rw [ends]
      refine (accounts_clientTrade (Finset.mem_insert_self _ _) (by simp [apart.dest])).bind
        fun remDest after traded => ?_
      exact accounts_closeAfter (apart.sockets _) traded

theorem accounts_ppServerExchDest (apart : Apart held) (qp : .qp ∈ held) :
    Accounts useEvent (Traded held) (Setup.ppServerExchDest h opts myDest) held := by
  refine (accounts_withAddresses apart fun n held free there =>
    accounts_bindLoop free there n).bind fun bound after ends => ?_
  cases bound with
  | false => exact accounts_done ends
  | true =>
      rw [ends]
      refine accounts_use (fun _ => rfl) (by simp) fun _ => ?_
      refine accounts_make (w := Option.isSome) (fun _ => rfl) (by simp [apart.sockets])
        (by simp [Resource.needs]) (fun peer failed => ?_) fun peer worked => ?_
      · obtain rfl := Option.not_isSome_iff_eq_none.mp (by simpa using failed)
        refine accounts_release (fun _ => rfl) (Finset.mem_insert_self _ _)
          (fun d _ => not_needed_socket _ d) fun _ => ?_
        rw [Finset.erase_insert (apart.sockets _)]
        exact accounts_done rfl
      · obtain ⟨peer, rfl⟩ := Option.isSome_iff_exists.mp worked
        refine accounts_release (fun _ => rfl)
          (Finset.mem_insert_of_mem (Finset.mem_insert_self _ _))
          (fun d _ => not_needed_socket _ d) fun _ => ?_
        rw [Finset.insert_comm, Finset.erase_insert (by simp [apart.sockets])]
        refine (accounts_serverTrade (Finset.mem_insert_self _ _) (by simp [apart.dest])
          (Finset.mem_insert_of_mem qp)).bind fun remDest after traded => ?_
        exact accounts_closeAfter (apart.sockets _) traded

end Exchange

/-! ## Opening and closing -/

section OpenClose

variable {opts : Options} {h : ℕ} {isServer useEvent : Bool} {held : Finset Resource}

/-- What is held when `kv_open` returns. -/
def HeldOpen (opts : Options) (isServer : Bool) : Ret → Finset Resource → Prop
  | .exitSuccess, held => held = insert .dest (whole opts.useEvent)
  | .exitFailure, held => (∃ k, held = objectsUpTo opts.useEvent k) ∨
    isServer = false ∧ held = insert .dest (whole opts.useEvent)

theorem apart_whole : Apart (whole useEvent) where
  service := by cases useEvent <;> decide
  addresses := by cases useEvent <;> decide
  sockets fd := by cases useEvent <;> cases fd <;> decide
  dest := by cases useEvent <;> decide

theorem heldOpen_whole : HeldOpen opts isServer .exitFailure (whole opts.useEvent) :=
  .inl ⟨_, objectsUpTo_length.symm⟩

/-- Opening a handle makes no fault, whatever fails. It returns without a socket and without an
address list. After a success everything is held that it has made; after a failure too, since it
destroys no object: the first ones that were made, or on a client all of them and the
destination. -/
theorem initConnection_accounts (opts : Options) (h : ℕ) (isServer : Bool) :
    Accounts opts.useEvent (HeldOpen opts isServer) (Setup.initConnection h opts isServer) ∅ := by
  have qp : .qp ∈ whole opts.useEvent := by cases opts.useEvent <;> decide
  refine accounts_openDevice.bind fun ctx held made => ?_
  cases ctx with
  | none => exact accounts_done (.inl made)
  | some ctx =>
      obtain ⟨rfl, -⟩ := made
      refine accounts_localDest.bind fun myDest held same => ?_
      subst same
      cases myDest with
      | none => exact accounts_done heldOpen_whole
      | some myDest =>
          cases isServer with
          | true =>
              refine (accounts_ppServerExchDest apart_whole qp).bind fun remDest held traded => ?_
              cases remDest with
              | none => exact accounts_done (traded ▸ heldOpen_whole)
              | some dest => exact accounts_done traded
          | false =>
              refine (accounts_ppClientExchDest apart_whole).bind fun remDest held traded => ?_
              cases remDest with
              | none => exact accounts_done (traded ▸ heldOpen_whole)
              | some dest =>
                  rw [traded]
                  refine (accounts_ppConnectCtx (Finset.mem_insert_of_mem qp)).mono
                    fun ret held same => ?_
                  subst same
                  cases ret with
                  | exitSuccess => rfl
                  | exitFailure => exact .inr ⟨rfl, rfl⟩

/-- The print in the end touches nothing. -/
theorem kvOpen_accounts (opts : Options) (h : ℕ) (isServer : Bool) :
    Accounts opts.useEvent (HeldOpen opts isServer) (Setup.kvOpen h opts isServer) ∅ := by
  refine (initConnection_accounts opts h isServer).bind fun ret held holds => ?_
  cases ret with
  | exitFailure => exact accounts_done holds
  | exitSuccess =>
      change Accounts _ _ (if isServer = true ∧ opts.printsNull = false then .stop .undefined
        else .done Ret.exitSuccess) held
      split
      · exact accounts_stop
      · exact accounts_done holds

/-- The objects in the order in which `pp_close_ctx` destroys them. -/
def closing (useEvent : Bool) : List Resource :=
  [.qp, .cq, .mr, .pd] ++ (if useEvent then [.channel] else []) ++ [.context, .buf, .ctx]

/-- What is left of an open handle when the first `k` objects are destroyed. -/
def leftAfter (useEvent : Bool) (k : ℕ) : Finset Resource :=
  insert .dest (whole useEvent) \ ((closing useEvent).take k).toFinset

/-- What is held when `kv_close` returns. -/
def HeldClosed (useEvent : Bool) : Ret → Finset Resource → Prop
  | .exitSuccess, held => held = {.deviceList, .dest}
  | .exitFailure, held => ∃ k < 5 + useEvent.toNat, held = leftAfter useEvent k

theorem closing_next {useEvent : Bool} {i : ℕ} {k : Resource}
    (next : (closing useEvent)[i]? = some k) :
    k ∈ leftAfter useEvent i ∧ (∀ d ∈ leftAfter useEvent i, k ∉ d.needs useEvent) ∧
      (leftAfter useEvent i).erase k = leftAfter useEvent (i + 1) := by
  have short : i < 8 := by
    have inside := (List.getElem?_eq_some_iff.mp next).1
    cases useEvent
    · exact lt_trans inside (by decide)
    · exact inside
  cases useEvent <;> interval_cases i <;> cases next <;> decide

variable {β : Type} {op : SetupOp} {Q : β → Finset Resource → Prop}

/-- The rule for the next object to be destroyed. -/
theorem accounts_nextClosing {f : op.Answer → Setup β} {errno : op.Answer → Int} {k : Resource}
    (i : ℕ) (entry : ∀ r, setupEntry useEvent ⟨⟨h, op⟩, r⟩ = destroyed (errno r) k)
    (next : (closing useEvent)[i]? = some k)
    (fails : ∀ r, errno r ≠ 0 → Accounts useEvent Q (f r) (leftAfter useEvent i))
    (works : ∀ r, errno r = 0 → Accounts useEvent Q (f r) (leftAfter useEvent (i + 1))) :
    Accounts useEvent Q (Setup.lib h op >>= f) (leftAfter useEvent i) := by
  obtain ⟨there, last, smaller⟩ := closing_next next
  refine accounts_destroy entry there last fails fun r worked => ?_
  rw [smaller]
  exact works r worked

/-- The rule for the next memory to be given back. -/
theorem accounts_free {f : op.Answer → Setup β} {k : Resource} (i : ℕ)
    (entry : ∀ r, setupEntry useEvent ⟨⟨h, op⟩, r⟩ = .release k)
    (next : (closing useEvent)[i]? = some k)
    (goes : ∀ r, Accounts useEvent Q (f r) (leftAfter useEvent (i + 1))) :
    Accounts useEvent Q (Setup.lib h op >>= f) (leftAfter useEvent i) := by
  obtain ⟨there, last, smaller⟩ := closing_next next
  refine accounts_release entry there last fun r => ?_
  rw [smaller]
  exact goes r

/-- The last steps of a close. -/
theorem accounts_closeContext :
    Accounts useEvent (HeldClosed useEvent)
      (do
        let context ← Setup.lib h .closeDevice
        if context ≠ 0 then return .exitFailure
        else
          Setup.lib h .freeBuf
          Setup.lib h .freeCtx
          return .exitSuccess)
      (leftAfter useEvent (4 + useEvent.toNat)) := by
  refine accounts_nextClosing _ (fun _ => rfl) (by cases useEvent <;> rfl)
    (fun errno failed => ?_) fun errno worked => ?_
  · rw [if_pos failed]
    exact accounts_done ⟨_, by omega, rfl⟩
  rw [if_neg (not_not.mpr worked)]
  refine accounts_free _ (fun _ => rfl) (by cases useEvent <;> rfl) fun _ => ?_
  refine accounts_free _ (fun _ => rfl) (by cases useEvent <;> rfl) fun _ => ?_
  refine accounts_done (?_ : leftAfter _ _ = _)
  cases useEvent <;> decide

/-- The destruction of the channel, where there is one. -/
theorem accounts_closeChannel :
    Accounts useEvent
      (fun errno held =>
        if errno = 0 then held = leftAfter useEvent (4 + useEvent.toNat)
        else held = leftAfter useEvent 4 ∧ useEvent = true)
      (if useEvent then Setup.lib h .destroyCompChannel else return 0)
      (leftAfter useEvent 4) := by
  cases useEvent with
  | false => exact accounts_done rfl
  | true =>
      refine accounts_nextClosing (f := .done) _ (fun _ => rfl) rfl (fun errno failed => ?_)
        fun errno worked => ?_
      · exact accounts_done (by rw [if_neg failed]; exact ⟨rfl, rfl⟩)
      · exact accounts_done (by rw [if_pos worked]; rfl)

/-- Closing an open handle makes no fault. After a success the device list and the destination
are left, and after a failure what was not destroyed yet. -/
theorem kvClose_accounts (useEvent : Bool) (h : ℕ) :
    Accounts useEvent (HeldClosed useEvent) (Setup.kvClose h useEvent)
      (insert .dest (whole useEvent)) := by
  have start : insert .dest (whole useEvent) = leftAfter useEvent 0 := by
    cases useEvent <;> decide
  rw [start]
  refine accounts_nextClosing _ (fun _ => rfl) rfl (fun errno failed => ?_) fun errno worked => ?_
  · rw [if_pos failed]
    exact accounts_done ⟨0, by omega, rfl⟩
  rw [if_neg (not_not.mpr worked)]
  refine accounts_nextClosing _ (fun _ => rfl) rfl (fun errno failed => ?_) fun errno worked => ?_
  · rw [if_pos failed]
    exact accounts_done ⟨1, by omega, rfl⟩
  rw [if_neg (not_not.mpr worked)]
  refine accounts_nextClosing _ (fun _ => rfl) rfl (fun errno failed => ?_) fun errno worked => ?_
  · rw [if_pos failed]
    exact accounts_done ⟨2, by omega, rfl⟩
  rw [if_neg (not_not.mpr worked)]
  refine accounts_nextClosing _ (fun _ => rfl) rfl (fun errno failed => ?_) fun errno worked => ?_
  · rw [if_pos failed]
    exact accounts_done ⟨3, by omega, rfl⟩
  rw [if_neg (not_not.mpr worked)]
  exact accounts_closeChannel.bind fun errno held left => by
    by_cases worked : errno = 0
    · rw [if_pos worked] at left
      rw [if_neg (not_not.mpr worked), left]
      exact accounts_closeContext
    · rw [if_neg worked] at left
      rw [if_pos worked, left.1]
      exact accounts_done ⟨4, by rw [left.2]; decide, rfl⟩

end OpenClose

/-! ## Paths -/

section Paths

variable {opts : Options} {h : ℕ} {isServer useEvent : Bool} {log : List SetupEvent}
  {out : Except Stop Ret} {held : Finset Resource}

/-- The ledger of `kv_open`, along every path. -/
theorem kvOpen_balances (path : (Setup.kvOpen h opts isServer).Path log out) :
    ∃ held, balance (Resource.needs opts.useEvent) (setupEntry opts.useEvent) ∅ log = some held ∧
      ∀ ret, out = .ok ret → HeldOpen opts isServer ret held := by
  obtain ⟨held, balanced, holds⟩ := (kvOpen_accounts opts h isServer).of_path path
  refine ⟨held, balanced, ?_⟩
  rintro ret rfl
  exact holds

/-- One receive, for a short path. -/
def oneReceive : Options := { Options.source .little true with rxDepth := 1 }

/-- A client that trades destinations and whose queue pair then does not get ready to send. -/
def notReadyToSend : List SetupEvent :=
  [⟨⟨0, .sysconf⟩, (4096 : ℕ)⟩, ⟨⟨0, .getDeviceList⟩, some 1⟩, ⟨⟨0, .calloc⟩, true⟩,
    ⟨⟨0, .mallocBuf 4096⟩, true⟩, ⟨⟨0, .openDevice⟩, true⟩, ⟨⟨0, .allocPd⟩, true⟩,
    ⟨⟨0, .regMr 4096⟩, true⟩, ⟨⟨0, .createCq 101⟩, true⟩,
    ⟨⟨0, .createQp 100 1⟩, some (0x1f4 : UInt32)⟩, ⟨⟨0, .modifyQp (.init 0 1)⟩, (0 : Int)⟩,
    ⟨⟨0, .postRecv⟩, (0 : Int)⟩, ⟨⟨0, .queryPort 1⟩, some (⟨3, true⟩ : PortAttr)⟩,
    ⟨⟨0, .lrand48⟩, (0x1abcdef : UInt32)⟩, ⟨⟨0, .asprintf 12345⟩, true⟩,
    ⟨⟨0, .getaddrinfo⟩, some 1⟩, ⟨⟨0, .socket⟩, true⟩, ⟨⟨0, .connect⟩, true⟩,
    ⟨⟨0, .freeaddrinfo⟩, ()⟩, ⟨⟨0, .freeService⟩, ()⟩,
    ⟨⟨0, .write .sockfd (Dest.message .little ⟨3, 0x1f4, 0xabcdef, .zero⟩)⟩, (msgSize : Int)⟩,
    ⟨⟨0, .read .sockfd msgSize⟩, some (Dest.message .big ⟨4, 0x2f5, 0xfedcba, .zero⟩)⟩,
    ⟨⟨0, .write .sockfd Setup.doneText⟩, (5 : Int)⟩, ⟨⟨0, .mallocDest⟩, true⟩,
    ⟨⟨0, .close .sockfd⟩, ()⟩,
    ⟨⟨0, .modifyQp (.rtr 2048 0x2f5 0xfedcba 1 12 4 0 0 1 none)⟩, (0 : Int)⟩,
    ⟨⟨0, .modifyQp (.rts 14 7 7 0xabcdef 1)⟩, (22 : Int)⟩]

/-- The exchange is over; the failure leaves everything behind. -/
theorem kvOpen_balances_notReady :
    ∃ held, balance (Resource.needs oneReceive.useEvent) (setupEntry oneReceive.useEvent) ∅
        notReadyToSend = some held ∧
      ∀ ret, (.ok .exitFailure : Except Stop Ret) = .ok ret →
        HeldOpen oneReceive false ret held :=
  kvOpen_balances (h := 0) (Program.path_of_replay (by decide +kernel))

/-- The ledger of `kv_close` on an open handle, along every path. -/
theorem kvClose_balances (path : (Setup.kvClose h useEvent).Path log out) :
    ∃ held, balance (Resource.needs useEvent) (setupEntry useEvent) (insert .dest (whole useEvent))
        log = some held ∧
      ∀ ret, out = .ok ret → HeldClosed useEvent ret held := by
  obtain ⟨held, balanced, holds⟩ := (kvClose_accounts useEvent h).of_path path
  refine ⟨held, balanced, ?_⟩
  rintro ret rfl
  exact holds

theorem calls_ite {c : Prop} [Decidable c] {allowed : SetupCall → Prop} {β : Type}
    {p q : Setup β} (yes : p.Calls allowed) (no : q.Calls allowed) :
    (if c then p else q).Calls allowed := by
  split
  · exact yes
  · exact no

/-- The completion queue is busy. -/
theorem kvClose_balances_busy :
    ∃ held, balance (Resource.needs false) (setupEntry false) (insert .dest (whole false))
        [⟨⟨0, .destroyQp⟩, (0 : Int)⟩, ⟨⟨0, .destroyCq⟩, (16 : Int)⟩] = some held ∧
      ∀ ret, (.ok .exitFailure : Except Stop Ret) = .ok ret → HeldClosed false ret held :=
  kvClose_balances (h := 0) (Program.path_of_replay rfl)

/-- A path of a call and what follows. -/
theorem path_lib {β : Type} {op : SetupOp} {f : op.Answer → Setup β} {out : Except Stop β}
    (path : (Setup.lib h op >>= f).Path log out) :
    ∃ r log', log = ⟨⟨h, op⟩, r⟩ :: log' ∧ (f r).Path log' out := by
  cases path with
  | call r rest => exact ⟨r, _, rfl, rest⟩

/-- Closing makes nothing. -/
theorem calls_kvClose :
    (Setup.kvClose h useEvent).Calls fun c => ∀ r k, setupEntry useEvent ⟨c, r⟩ ≠ .acquire k := by
  have never : ∀ (errno : Int) (k d : Resource), destroyed errno d ≠ .acquire k := by
    intro errno k d
    unfold destroyed
    split <;> rintro ⟨⟩
  have destroys : ∀ {op : SetupOp} {d : Resource} {β : Type} {f : op.Answer → Setup β}
      (errno : op.Answer → Int)
      (_ : ∀ r, setupEntry useEvent ⟨⟨h, op⟩, r⟩ = destroyed (errno r) d)
      (_ : ∀ r, (f r).Calls fun c => ∀ r k, setupEntry useEvent ⟨c, r⟩ ≠ .acquire k),
      (Setup.lib h op >>= f).Calls fun c => ∀ r k, setupEntry useEvent ⟨c, r⟩ ≠ .acquire k :=
    fun errno entry goes => ⟨fun r k => entry r ▸ never (errno r) k _, goes⟩
  have failure : (Program.done Ret.exitFailure : Setup Ret).Calls
      fun c => ∀ r k, setupEntry useEvent ⟨c, r⟩ ≠ .acquire k := True.intro
  refine destroys id (fun _ => rfl) fun qp => ?_
  refine calls_ite failure (destroys id (fun _ => rfl) fun cq => ?_)
  refine calls_ite failure (destroys id (fun _ => rfl) fun mr => ?_)
  refine calls_ite failure (destroys id (fun _ => rfl) fun pd => ?_)
  refine calls_ite failure (Program.Calls.bind ?_ fun channel => ?_)
  · exact calls_ite (destroys (f := .done) id (fun _ => rfl) fun _ => True.intro) True.intro
  refine calls_ite failure (destroys id (fun _ => rfl) fun context => ?_)
  exact calls_ite failure
    ⟨fun _ _ => nofun, fun _ => ⟨fun _ _ => nofun, fun _ => True.intro⟩⟩

/-- After a close that destroyed the queue pair and failed later there is none. -/
theorem qp_gone {errno : Int} (worked : errno = 0)
    (path : (Setup.kvClose h useEvent).Path (⟨⟨h, .destroyQp⟩, errno⟩ :: log) out)
    (balanced : balance (Resource.needs useEvent) (setupEntry useEvent)
      (insert .dest (whole useEvent)) (⟨⟨h, .destroyQp⟩, errno⟩ :: log) = some held) :
    .qp ∉ held := by
  subst worked
  have calls := calls_kvClose.of_path path
  obtain ⟨after, posted, balance⟩ := Option.bind_eq_some_iff.mp balanced
  refine not_mem_of_balance (fun e member => ?_) ?_ balance
  · exact calls e (List.mem_cons_of_mem _ member) e.2 .qp
  · obtain ⟨-, same⟩ := Option.ite_none_right_eq_some.mp posted
    obtain rfl := Option.some.inj same
    exact Finset.notMem_erase _ _

/-- A close that failed can be repeated only if it failed at the queue pair. Else the queue pair
is gone, and every path of the second close starts by destroying it again. -/
theorem closeAgain_iff (path : (Setup.kvClose h useEvent).Path log (.ok .exitFailure))
    (balanced : balance (Resource.needs useEvent) (setupEntry useEvent)
      (insert .dest (whole useEvent)) log = some held) :
    (Accounts useEvent (fun _ _ => True) (Setup.kvClose h useEvent) held ↔
      ∃ errno : Int, errno ≠ 0 ∧ log = [⟨⟨h, .destroyQp⟩, errno⟩]) ∧
    ((¬ ∃ errno : Int, errno ≠ 0 ∧ log = [⟨⟨h, .destroyQp⟩, errno⟩]) → .qp ∉ held ∧
      ∀ again out, (Setup.kvClose h useEvent).Path again out →
        ∃ (errno : Int) (rest : List SetupEvent), again = ⟨⟨h, .destroyQp⟩, errno⟩ :: rest) := by
  have starts : ∀ again out, (Setup.kvClose h useEvent).Path again out →
      ∃ (errno : Int) (rest : List SetupEvent), again = ⟨⟨h, .destroyQp⟩, errno⟩ :: rest := by
    intro again out path
    obtain ⟨errno, rest, same, -⟩ := path_lib path
    exact ⟨errno, rest, same⟩
  have whole := path
  obtain ⟨errno, log, rfl, rest⟩ := path_lib path
  by_cases worked : errno = (0 : Int)
  · have gone := qp_gone worked whole balanced
    refine ⟨iff_of_false ?_ ?_, fun _ => ⟨gone, starts⟩⟩
    · intro again
      obtain ⟨after, posted, -⟩ := again (1 : Int)
      obtain ⟨there, -⟩ := Option.ite_none_right_eq_some.mp posted
      exact gone (there _ (List.mem_singleton_self _))
    · rintro ⟨errno, failed, same⟩
      cases same
      exact failed worked
  · obtain ⟨after, posted, balance⟩ := Option.bind_eq_some_iff.mp balanced
    have entry : setupEntry useEvent ⟨⟨h, .destroyQp⟩, errno⟩ = .use [.qp] := if_neg worked
    rw [entry] at posted
    obtain ⟨-, same⟩ := Option.ite_none_right_eq_some.mp posted
    obtain rfl := Option.some.inj same
    rw [if_pos worked] at rest
    cases rest
    obtain rfl := Option.some.inj balance
    have first : ∃ errno' : Int, errno' ≠ 0 ∧ [⟨⟨h, .destroyQp⟩, errno⟩] =
        ([⟨⟨h, .destroyQp⟩, errno'⟩] : List SetupEvent) := ⟨errno, worked, rfl⟩
    refine ⟨iff_of_true ?_ first, fun later => absurd first later⟩
    exact (kvClose_accounts useEvent h).mono fun _ _ _ => True.intro

/-- After the completion queue was busy there is no queue pair to destroy. -/
theorem closeAgain_iff_busy :
    .qp ∉ leftAfter false 1 ∧ ¬ Accounts false (fun _ _ => True) (Setup.kvClose 0 false)
      (leftAfter false 1) := by
  have path : (Setup.kvClose 0 false).Path
      [⟨⟨0, .destroyQp⟩, (0 : Int)⟩, ⟨⟨0, .destroyCq⟩, (16 : Int)⟩] (.ok .exitFailure) :=
    Program.path_of_replay rfl
  have balanced : balance (Resource.needs false) (setupEntry false) (insert .dest (whole false))
      [⟨⟨0, .destroyQp⟩, (0 : Int)⟩, ⟨⟨0, .destroyCq⟩, (16 : Int)⟩] = some (leftAfter false 1) := by
    decide
  obtain ⟨again, gone⟩ := closeAgain_iff path balanced
  have later : ¬ ∃ errno : Int, errno ≠ 0 ∧
      [⟨⟨0, .destroyQp⟩, (0 : Int)⟩, ⟨⟨0, .destroyCq⟩, (16 : Int)⟩] =
        ([⟨⟨0, .destroyQp⟩, errno⟩] : List SetupEvent) := by
    rintro ⟨errno, -, same⟩
    exact absurd (List.cons.inj same).2 (List.cons_ne_nil _ _)
  exact ⟨(gone later).1, fun accounts => later (again.mp accounts)⟩

end Paths

end RdmaWiki
