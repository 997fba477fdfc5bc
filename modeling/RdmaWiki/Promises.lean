import RdmaWiki.Handshake

/-!
What the parties of a handshake promise each other.

Nothing that was said or connected is taken back (`Later`), nobody touches what belongs to
another (`Frame`), and `Sound` is kept, which says which destinations were sent, and which queue
pairs are connected with whom. This is the `contract` of every party. The module goes through
the calls: what each of them can change (`admits_quiet` and its siblings), and that the change
keeps the contract (`guar_setQp_client` and its siblings).
-/

namespace RdmaWiki

open CText HexText Interference LibraryCalls StepMachine

variable {N : ℕ} {ad : Adapters N}

/-! ## What one call does -/

/-- A call that changes nothing that another party could see. -/
def SetupOp.quiet : SetupOp → Bool
  | .createQp _ _ | .modifyQp _ | .connect | .listen | .accept | .close _ | .write _ _
  | .read _ _ => false
  | _ => true

section Calls

variable {w w' : SetupWorld N} {party : Party N} {h : ℕ} {op : SetupOp}

theorem SetupWorld.setLink_self (c : Fin N) : w.setLink c (w.links c) = w := by
  simp [setLink]

theorem Link.call_quiet {link : Link} {listening : Bool} (quiet : op.quiet = true)
    (r : op.Answer) : link.call listening op r = some link := by
  cases op <;> first | rfl | exact absurd quiet Bool.false_ne_true

theorem SetupWorld.network_quiet {i : ℕ} (quiet : op.quiet = true) (r : op.Answer) :
    w.network i op r = some w := by
  cases op <;> first
    | exact absurd quiet Bool.false_ne_true
    | (simp only [network, Link.serve]
       cases w.peer i with
       | none => rfl
       | some c => simp [setLink_self])

theorem SetupWorld.adapter_quiet {s : Site N} (quiet : op.quiet = true) {r : op.Answer}
    (admitted : w.adapter ad s op r = some w') : w' = w := by
  cases op <;> first | exact absurd quiet Bool.false_ne_true | exact (Option.some.inj admitted).symm | skip
  case queryPort port =>
    cases r with
    | none => exact (Option.some.inj admitted).symm
    | some attr =>
        simp only [adapter] at admitted
        split at admitted
        · exact (Option.some.inj admitted).symm
        · cases admitted

theorem admits_quiet (quiet : op.quiet = true) {r : op.Answer}
    (admitted : admits ad party w ⟨⟨h, op⟩, r⟩ = some w') : w' = w := by
  obtain ⟨w₁, adapted, rest⟩ := Option.bind_eq_some_iff.mp admitted
  obtain rfl := SetupWorld.adapter_quiet quiet adapted
  cases party with
  | server => exact (Option.some.inj ((SetupWorld.network_quiet quiet r).symm.trans rest)).symm
  | client c =>
      simp only [Link.call_quiet quiet, Option.map_some, SetupWorld.setLink_self] at rest
      exact (Option.some.inj rest).symm

/-- The answer of a port names its LID. -/
theorem admits_queryPort {port : ℕ} {attr : PortAttr}
    (admitted : admits ad party w ⟨⟨h, .queryPort port⟩, some attr⟩ = some w') :
    attr.lid = ad.lid (party.site h) := by
  obtain ⟨w₁, adapted, -⟩ := Option.bind_eq_some_iff.mp admitted
  simp only [SetupWorld.adapter] at adapted
  split at adapted
  next same => exact same
  next => cases adapted

/-- A call that only concerns the adapter. -/
theorem admits_adapter {r : op.Answer}
    (others : (∃ a b, op = .createQp a b) ∨ ∃ change, op = .modifyQp change)
    (admitted : admits ad party w ⟨⟨h, op⟩, r⟩ = some w') :
    w.adapter ad (party.site h) op r = some w' := by
  obtain ⟨w₁, adapted, rest⟩ := Option.bind_eq_some_iff.mp admitted
  rw [adapted]
  rcases others with ⟨a, b, rfl⟩ | ⟨change, rfl⟩
  all_goals
    cases party with
    | server =>
        simp only [SetupWorld.network, Link.serve] at rest
        cases peer : w₁.peer h with
        | none => rwa [peer] at rest
        | some c => simpa [peer, SetupWorld.setLink_self] using rest
    | client c => simpa [Link.call, SetupWorld.setLink_self] using rest

theorem admits_createQp {a b : ℕ} {num : Option UInt32}
    (admitted : admits ad party w ⟨⟨h, .createQp a b⟩, num⟩ = some w') :
    num = none ∧ w' = w ∨ num = some (ad.qpn (party.site h)) ∧
      w.qps (party.site h) = .absent ∧ w' = w.setQp (party.site h) .reset := by
  have adapted := admits_adapter (.inl ⟨a, b, rfl⟩) admitted
  cases num with
  | none => exact .inl ⟨rfl, (Option.some.inj adapted).symm⟩
  | some num =>
      simp only [SetupWorld.adapter] at adapted
      split at adapted
      next fits => exact .inr ⟨by rw [fits.2], fits.1, (Option.some.inj adapted).symm⟩
      next => cases adapted

theorem admits_modifyQp {change : QpChange} {errno : Int}
    (admitted : admits ad party w ⟨⟨h, .modifyQp change⟩, errno⟩ = some w') :
    errno ≠ 0 ∧ w' = w ∨ errno = 0 ∧ ∃ qp, (w.qps (party.site h)).change change = some qp ∧
      w' = w.setQp (party.site h) qp := by
  have adapted := admits_adapter (.inr ⟨change, rfl⟩) admitted
  simp only [SetupWorld.adapter] at adapted
  split at adapted
  next failed => exact .inl ⟨failed, (Option.some.inj adapted).symm⟩
  next worked =>
    obtain ⟨qp, changed, same⟩ := Option.map_eq_some_iff.mp adapted
    exact .inr ⟨not_not.mp worked, qp, changed, same.symm⟩

/-- A call of a client that does not concern the adapter. -/
theorem admits_client {c : Fin N} {r : op.Answer}
    (plain : w.adapter ad (.client c) op r = some w)
    (admitted : admits ad (.client c) w ⟨⟨h, op⟩, r⟩ = some w') :
    ∃ link, (w.links c).call w.listening.isSome op r = some link ∧ w' = w.setLink c link := by
  obtain ⟨w₁, adapted, rest⟩ := Option.bind_eq_some_iff.mp admitted
  obtain rfl := Option.some.inj (plain.symm.trans adapted)
  obtain ⟨link, called, same⟩ := Option.map_eq_some_iff.mp rest
  exact ⟨link, called, same.symm⟩

theorem admits_connect {c : Fin N} {connected : Bool}
    (admitted : admits ad (.client c) w ⟨⟨h, .connect⟩, connected⟩ = some w') :
    w' = w ∨ (w.links c).state = .unconnected ∧
      w' = w.setLink c { w.links c with state := .queued } := by
  obtain ⟨link, called, rfl⟩ := admits_client rfl admitted
  simp only [Link.call] at called
  split at called
  next =>
    rw [← Option.some.inj called]
    exact .inl (SetupWorld.setLink_self c)
  next =>
    split at called
    next free =>
      rw [← Option.some.inj called]
      exact .inr ⟨free.2, rfl⟩
    next => cases called

theorem admits_write_client {c : Fin N} {bytes : Bytes} {n : Int}
    (admitted : admits ad (.client c) w ⟨⟨h, .write .sockfd bytes⟩, n⟩ = some w') :
    ∃ part, takes bytes n = some part ∧
      w' = w.setLink c { w.links c with asked := (w.links c).asked ++ part } := by
  obtain ⟨link, called, rfl⟩ := admits_client rfl admitted
  simp only [Link.call] at called
  split at called
  next => cases called
  next =>
    obtain ⟨part, taken, same⟩ := Option.map_eq_some_iff.mp called
    exact ⟨part, taken, by rw [same]⟩

theorem prefix_of_gives {there bytes : Bytes} {ended : Bool} {n : ℕ}
    (given : gives there ended n bytes = true) : bytes <+: there := by
  simp only [gives, Bool.and_eq_true, List.isPrefixOf_iff_prefix] at given
  exact given.1.2

theorem admits_read_client {c : Fin N} {n : ℕ} {got : Option Bytes}
    (admitted : admits ad (.client c) w ⟨⟨h, .read .sockfd n⟩, got⟩ = some w') :
    got = none ∧ w' = w ∨ ∃ bytes, got = some bytes ∧
      bytes <+: (w.links c).answered.drop (w.links c).taken ∧
      w' = w.setLink c { w.links c with taken := (w.links c).taken + bytes.length } := by
  obtain ⟨link, called, rfl⟩ := admits_client rfl admitted
  cases got with
  | none =>
      rw [← Option.some.inj called]
      exact .inl ⟨rfl, SetupWorld.setLink_self c⟩
  | some bytes =>
      simp only [Link.call] at called
      split at called
      next given =>
        rw [← Option.some.inj called]
        exact .inr ⟨bytes, rfl, prefix_of_gives given, rfl⟩
      next => cases called

theorem admits_close_client {c : Fin N} {r : Unit}
    (admitted : admits ad (.client c) w ⟨⟨h, .close .sockfd⟩, r⟩ = some w') :
    ∃ left, w' = w.setLink c { w.links c with left := left } := by
  obtain ⟨link, called, rfl⟩ := admits_client rfl admitted
  rw [← Option.some.inj called]
  exact ⟨_, rfl⟩

/-- A call of the server that does not concern the adapter. -/
theorem admits_server {r : op.Answer} (plain : w.adapter ad (.handle h) op r = some w)
    (admitted : admits ad .server w ⟨⟨h, op⟩, r⟩ = some w') : w.network h op r = some w' := by
  obtain ⟨w₁, adapted, rest⟩ := Option.bind_eq_some_iff.mp admitted
  obtain rfl := Option.some.inj (plain.symm.trans adapted)
  exact rest

theorem admits_listen {errno : Int}
    (admitted : admits ad .server w ⟨⟨h, .listen⟩, errno⟩ = some w') :
    ∃ listening, w' = { w with listening := listening } := by
  have called := admits_server rfl admitted
  simp only [SetupWorld.network] at called
  split at called
  next => exact ⟨_, (Option.some.inj called).symm⟩
  next => exact ⟨w.listening, (Option.some.inj called).symm⟩

theorem admits_accept {got : Option ℕ}
    (admitted : admits ad .server w ⟨⟨h, .accept⟩, got⟩ = some w') :
    got = none ∧ w' = w ∨ ∃ c : Fin N, got = some c.val ∧ (w.links c).state = .queued ∧
      w' = { w.setLink c { w.links c with state := .accepted h } with
        peer := Function.update w.peer h (some c) } := by
  have called := admits_server rfl admitted
  cases got with
  | none => exact .inl ⟨rfl, (Option.some.inj called).symm⟩
  | some c =>
      simp only [SetupWorld.network] at called
      split at called
      next below =>
        split at called
        next waiting => exact .inr ⟨⟨c, below⟩, rfl, waiting.2, (Option.some.inj called).symm⟩
        next => cases called
      next => cases called

theorem admits_close_server {r : Unit}
    (admitted : admits ad .server w ⟨⟨h, .close .sockfd⟩, r⟩ = some w') :
    w' = { w with
      listening := none
      links := fun c =>
        if (w.links c).state = .queued then { w.links c with state := .refused }
        else w.links c } :=
  (Option.some.inj (admits_server rfl admitted)).symm

section Accepted

variable {c : Fin N} (peer : w.peer h = some c)

include peer

theorem admits_write_server {bytes : Bytes} {n : Int}
    (admitted : admits ad .server w ⟨⟨h, .write .connfd bytes⟩, n⟩ = some w') :
    ∃ part, takes bytes n = some part ∧
      w' = w.setLink c { w.links c with answered := (w.links c).answered ++ part } := by
  have called := admits_server rfl admitted
  simp only [SetupWorld.network, peer, Link.serve, Option.map_map] at called
  obtain ⟨part, taken, same⟩ := Option.map_eq_some_iff.mp called
  exact ⟨part, taken, same.symm⟩

theorem admits_read_server {n : ℕ} {got : Option Bytes}
    (admitted : admits ad .server w ⟨⟨h, .read .connfd n⟩, got⟩ = some w') :
    got = none ∧ w' = w ∨ ∃ bytes, got = some bytes ∧
      bytes <+: (w.links c).asked.drop (w.links c).heard ∧
      w' = w.setLink c { w.links c with heard := (w.links c).heard + bytes.length } := by
  have called := admits_server rfl admitted
  cases got with
  | none =>
      simp only [SetupWorld.network, peer, Link.serve, Option.map_some,
        SetupWorld.setLink_self] at called
      exact .inl ⟨rfl, (Option.some.inj called).symm⟩
  | some bytes =>
      simp only [SetupWorld.network, peer, Link.serve] at called
      split at called
      next given => exact .inr ⟨bytes, rfl, prefix_of_gives given, (Option.some.inj called).symm⟩
      next => cases called

theorem admits_drop_server {r : Unit}
    (admitted : admits ad .server w ⟨⟨h, .close .connfd⟩, r⟩ = some w') :
    w' = w.setLink c { w.links c with dropped := true } := by
  have called := admits_server rfl admitted
  simp only [SetupWorld.network, peer, Link.serve, Option.map_some] at called
  exact (Option.some.inj called).symm

end Accepted

/-- A whole message is taken, or it is noticed. -/
theorem takes_all {bytes part : Bytes} {n : Int} (taken : takes bytes n = some part) :
    part <+: bytes ∧ (n = (bytes.length : Int) → part = bytes) := by
  simp only [takes] at taken
  split at taken
  next negative =>
    obtain rfl := Option.some.inj taken
    exact ⟨List.nil_prefix, fun whole => by omega⟩
  next =>
    split at taken
    next =>
      obtain rfl := Option.some.inj taken
      exact ⟨List.take_prefix _ _, fun whole => by rw [whole, Int.toNat_natCast, List.take_length]⟩
    next => cases taken

end Calls

/-! ## Promises -/

/-- Nothing that was said or connected is taken back. -/
structure Later (w w' : SetupWorld N) : Prop where
  qps : ∀ s remote psn, w.qps s = .rts remote psn → w'.qps s = .rts remote psn
  state : ∀ c i, (w.links c).state = .accepted i → (w'.links c).state = .accepted i
  asked : ∀ c, (w.links c).asked <+: (w'.links c).asked
  answered : ∀ c, (w.links c).answered <+: (w'.links c).answered

/-- What belongs to a party is as it was. -/
def Frame : Party N → SetupWorld N → SetupWorld N → Prop
  | .server, w, w' => (∀ i, w'.qps (.handle i) = w.qps (.handle i)) ∧ w'.peer = w.peer ∧
    ∀ c, (w'.links c).answered = (w.links c).answered ∧ (w'.links c).heard = (w.links c).heard
  | .client c, w, w' => w'.qps (.client c) = w.qps (.client c) ∧
    (w'.links c).asked = (w.links c).asked ∧ (w'.links c).taken = (w.links c).taken

/-- The destination of a site: its LID, its queue pair and a masked PSN. -/
structure Dest.Of (ad : Adapters N) (s : Site N) (dest : Dest) : Prop where
  lid : dest.lid = (ad.lid s).toUInt32
  qpn : dest.qpn = ad.qpn s
  psn : dest.psn.toNat < 2 ^ 24

/-- What a queue pair is told of the other end. -/
def Dest.remote (dest : Dest) : Remote := ⟨dest.qpn, dest.psn, dest.lid.toUInt16⟩

/-- The client has sent its destination. -/
def Asked (ad : Adapters N) (w : SetupWorld N) (c : Fin N) (dest : Dest) : Prop :=
  dest.Of ad (.client c) ∧ ∃ order, (w.links c).asked.take msgSize = dest.message order

/-- The queue pair of a handle is connected with a destination, and sends from its own PSN. -/
def Ready (ad : Adapters N) (w : SetupWorld N) (i : ℕ) (own dest : Dest) : Prop :=
  own.Of ad (.handle i) ∧ w.qps (.handle i) = .rts dest.remote own.psn

/-- The server has accepted the client for a handle, heard its destination, and connected. -/
def Met (ad : Adapters N) (w : SetupWorld N) (c : Fin N) (i : ℕ) (dest own : Dest) : Prop :=
  (w.links c).state = .accepted i ∧ Asked ad w c dest ∧ Ready ad w i own dest

structure Sound (ad : Adapters N) (w : SetupWorld N) : Prop where
  peers : ∀ c i, (w.links c).state = .accepted i ↔ w.peer i = some c
  unheard : ∀ c, (∀ i, (w.links c).state ≠ .accepted i) →
    (w.links c).heard = 0 ∧ (w.links c).answered = []
  asks : ∀ c, ∃ order dest, Dest.Of ad (.client c) dest ∧
    (w.links c).asked <+: dest.message order ++ Setup.doneText
  answers : ∀ c, (w.links c).answered ≠ [] → ∃ i dest own, Met ad w c i dest own ∧
    ∃ order, (w.links c).answered <+: own.message order
  clients : ∀ c remote, (w.qps (.client c)).remote = some remote →
    ∃ i dest own, Met ad w c i dest own ∧ remote = own.remote ∧
      ∀ psn, w.qps (.client c) = .rts remote psn → psn = dest.psn
  handles : ∀ i remote, (w.qps (.handle i)).remote = some remote →
    ∃ c dest, w.peer i = some c ∧ Asked ad w c dest ∧ remote = dest.remote

section Promises

variable {w w' w'' : SetupWorld N} {c : Fin N} {i : ℕ} {dest dest' own : Dest}
  {order order' : ByteOrder} {party : Party N}

theorem Later.refl (w : SetupWorld N) : Later w w where
  qps _ _ _ := id
  state _ _ := id
  asked _ := List.prefix_rfl
  answered _ := List.prefix_rfl

theorem Later.trans (first : Later w w') (second : Later w' w'') : Later w w'' where
  qps s remote psn holds := second.qps s remote psn (first.qps s remote psn holds)
  state c i holds := second.state c i (first.state c i holds)
  asked c := (first.asked c).trans (second.asked c)
  answered c := (first.answered c).trans (second.answered c)

theorem Frame.refl (party : Party N) (w : SetupWorld N) : Frame party w w := by
  cases party with
  | server => exact ⟨fun _ => rfl, rfl, fun _ => ⟨rfl, rfl⟩⟩
  | client c => exact ⟨rfl, rfl, rfl⟩

theorem Frame.trans (first : Frame party w w') (second : Frame party w' w'') :
    Frame party w w'' := by
  cases party with
  | server =>
      obtain ⟨qps, peer, links⟩ := first
      obtain ⟨qps', peer', links'⟩ := second
      exact ⟨fun i => (qps' i).trans (qps i), peer'.trans peer,
        fun c => ⟨(links' c).1.trans (links c).1, (links' c).2.trans (links c).2⟩⟩
  | client c =>
      exact ⟨second.1.trans first.1, second.2.1.trans first.2.1, second.2.2.trans first.2.2⟩

/-- A party counts on the others to take nothing back, to leave it alone and to be sound. It
promises the same, and to leave the handles alone that are not `mine`. -/
def contract (ad : Adapters N) (mine : ℕ → Prop) (party : Party N) : Contract (SetupWorld N) where
  rely w w' := Later w w' ∧ Frame party w w' ∧ (Sound ad w → Sound ad w')
  guar w w' := (Later w w' ∧ (∀ other, other ≠ party → Frame other w w') ∧
    (Sound ad w → Sound ad w')) ∧ ∀ j, ¬ mine j →
      w'.qps (.handle j) = w.qps (.handle j) ∧ w'.peer j = w.peer j
  refl w := ⟨.refl w, .refl party w, id⟩
  trans first second := ⟨first.1.trans second.1, first.2.1.trans second.2.1,
    second.2.2 ∘ first.2.2⟩

/-- The contract of a party while it opens the handle `h`. No handle is a client's. -/
abbrev contractFor (ad : Adapters N) (party : Party N) (h : ℕ) : Contract (SetupWorld N) :=
  contract ad (fun j => party = .server ∧ j = h) party

theorem guar_refl {h : ℕ} : (contractFor ad party h).guar w w :=
  ⟨⟨.refl w, fun other _ => .refl other w, id⟩, fun _ _ => ⟨rfl, rfl⟩⟩

theorem contract_relied {mine : ℕ → Prop} (party other : Party N) (apart : party ≠ other)
    (w w' : SetupWorld N) (promised : (contract ad mine party).guar w w') :
    (contract ad mine other).rely w w' :=
  ⟨promised.1.1, promised.1.2.1 other (Ne.symm apart), promised.1.2.2⟩

/-! ### Destinations -/

theorem Dest.Of.fits {s : Site N} (is : dest.Of ad s) : dest.Fits where
  lid := by
    rw [is.lid, UInt16.toNat_toUInt32]
    exact (ad.lid s).toNat_lt
  qpn := by
    rw [is.qpn]
    exact ad.narrow s
  psn := is.psn

/-- A message names one destination. -/
theorem message_injective (same : dest.message order = dest'.message order') : dest = dest' := by
  have read : readDest .big [] (dest.message order) = some dest := readDest_message (Nat.zero_le _)
  rw [same, readDest_message (Nat.zero_le _)] at read
  exact (Option.some.inj read).symm

theorem Dest.Of.length {s : Site N} (is : dest.Of ad s) :
    (dest.message order).length = msgSize :=
  le_antisymm (length_message_le_iff.mpr is.fits) msgSize_le_length_message

theorem Asked.unique (first : Asked ad w c dest) (second : Asked ad w c dest') : dest = dest' := by
  obtain ⟨-, order, said⟩ := first
  obtain ⟨-, order', said'⟩ := second
  exact message_injective (said.symm.trans said')

/-- What was said stays said. -/
theorem Asked.later (asked : Asked ad w c dest) (later : Later w w') : Asked ad w' c dest := by
  obtain ⟨is, order, said⟩ := asked
  refine ⟨is, order, ?_⟩
  obtain ⟨more, longer⟩ := later.asked c
  have long : msgSize ≤ (w.links c).asked.length := by
    have whole := congrArg List.length said
    rw [is.length, List.length_take] at whole
    omega
  rw [← longer, List.take_append_of_le_length long, said]

theorem Ready.later (ready : Ready ad w i own dest) (later : Later w w') :
    Ready ad w' i own dest :=
  ⟨ready.1, later.qps _ _ _ ready.2⟩

theorem Met.later (met : Met ad w c i dest own) (later : Later w w') : Met ad w' c i dest own :=
  ⟨later.state c i met.1, met.2.1.later later, met.2.2.later later⟩

/-- Soundness is shown where something changes. -/
theorem Sound.later (sound : Sound ad w) (later : Later w w')
    (peers : ∀ c i, (w'.links c).state = .accepted i ↔ w'.peer i = some c)
    (unheard : ∀ c, (∀ i, (w'.links c).state ≠ .accepted i) →
      (w'.links c).heard = 0 ∧ (w'.links c).answered = [])
    (asks : ∀ c, (w'.links c).asked = (w.links c).asked ∨ ∃ order dest,
      Dest.Of ad (.client c) dest ∧
        (w'.links c).asked <+: dest.message order ++ Setup.doneText)
    (answers : ∀ c, (w'.links c).answered = (w.links c).answered ∨ ∃ i dest own,
      Met ad w' c i dest own ∧ ∃ order, (w'.links c).answered <+: own.message order)
    (clients : ∀ c, w'.qps (.client c) = w.qps (.client c) ∨
      ∀ remote, (w'.qps (.client c)).remote = some remote →
        ∃ i dest own, Met ad w' c i dest own ∧ remote = own.remote ∧
          ∀ psn, w'.qps (.client c) = .rts remote psn → psn = dest.psn)
    (handles : ∀ i, w'.qps (.handle i) = w.qps (.handle i) ∨
      ∀ remote, (w'.qps (.handle i)).remote = some remote →
        ∃ c dest, w'.peer i = some c ∧ Asked ad w' c dest ∧ remote = dest.remote) :
    Sound ad w' where
  peers := peers
  unheard := unheard
  asks c := by
    rcases asks c with same | new
    · rw [same]
      exact sound.asks c
    · exact new
  answers c some := by
    rcases answers c with same | new
    · rw [same] at some ⊢
      obtain ⟨i, dest, own, met, said⟩ := sound.answers c some
      exact ⟨i, dest, own, met.later later, said⟩
    · exact new
  clients c := by
    rcases clients c with same | new
    · rw [same]
      intro remote connected
      obtain ⟨i, dest, own, met, rest⟩ := sound.clients c remote connected
      exact ⟨i, dest, own, met.later later, rest⟩
    · exact new
  handles i := by
    rcases handles i with same | new
    · rw [same]
      intro remote connected
      obtain ⟨c, dest, peer, asked, rest⟩ := sound.handles i remote connected
      have state := later.state c i ((sound.peers c i).mpr peer)
      exact ⟨c, dest, (peers c i).mp state, asked.later later, rest⟩
    · exact new

end Promises

/-! ## What one call promises -/

section Guarantees

variable {w : SetupWorld N} {c : Fin N} {h i : ℕ} {qp : QpState} {link : Link}

theorem later_setQp {s : Site N} (unsent : ∀ remote psn, w.qps s ≠ .rts remote psn) :
    Later w (w.setQp s qp) where
  qps s' remote psn holds := by
    rcases eq_or_ne s' s with rfl | other
    · exact absurd holds (unsent remote psn)
    · simpa [SetupWorld.setQp, other] using holds
  state _ _ := id
  asked _ := List.prefix_rfl
  answered _ := List.prefix_rfl

/-- A client changes its queue pair. -/
theorem guar_setQp_client (unsent : ∀ remote psn, w.qps (.client c) ≠ .rts remote psn)
    (connected : Sound ad w → ∀ remote, qp.remote = some remote →
      ∃ i dest own, Met ad w c i dest own ∧ remote = own.remote ∧
        ∀ psn, qp = .rts remote psn → psn = dest.psn) :
    (contractFor ad (.client c) h).guar w (w.setQp (.client c) qp) := by
  have later : Later w (w.setQp (.client c) qp) := later_setQp unsent
  refine ⟨⟨later, fun other apart => ?_, fun sound => ?_⟩, fun _ _ => ⟨by simp [SetupWorld.setQp], rfl⟩⟩
  · cases other with
    | server => exact ⟨fun i => by simp [SetupWorld.setQp], rfl, fun _ => ⟨rfl, rfl⟩⟩
    | client c' =>
        have sites : Site.client c' ≠ Site.client c := fun same => apart (by cases same; rfl)
        exact ⟨by simp [SetupWorld.setQp, sites], rfl, rfl⟩
  · refine sound.later later sound.peers sound.unheard (fun _ => .inl rfl) (fun _ => .inl rfl)
      (fun c' => ?_) fun i => .inl (by simp [SetupWorld.setQp])
    rcases eq_or_ne c' c with rfl | other
    · refine .inr fun remote named => ?_
      simp only [SetupWorld.setQp, Function.update_self] at named ⊢
      obtain ⟨i, dest, own, met, rest⟩ := connected sound remote named
      exact ⟨i, dest, own, met.later later, rest⟩
    · exact .inl (by simp [SetupWorld.setQp, other])

/-- The server changes the queue pair of a handle. -/
theorem guar_setQp_server (unsent : ∀ remote psn, w.qps (.handle i) ≠ .rts remote psn)
    (connected : Sound ad w → ∀ remote, qp.remote = some remote →
      ∃ c dest, w.peer i = some c ∧ Asked ad w c dest ∧ remote = dest.remote) :
    (contractFor ad .server i).guar w (w.setQp (.handle i) qp) := by
  have later : Later w (w.setQp (.handle i) qp) := later_setQp unsent
  refine ⟨⟨later, fun other apart => ?_, fun sound => ?_⟩, fun j other =>
    ⟨by simp [SetupWorld.setQp, show j ≠ i from fun same => other ⟨rfl, same⟩], rfl⟩⟩
  · cases other with
    | server => exact absurd rfl apart
    | client c' => exact ⟨by simp [SetupWorld.setQp], rfl, rfl⟩
  · refine sound.later later sound.peers sound.unheard (fun _ => .inl rfl) (fun _ => .inl rfl)
      (fun c' => .inl (by simp [SetupWorld.setQp])) fun j => ?_
    rcases eq_or_ne j i with rfl | other
    · refine .inr fun remote named => ?_
      simp only [SetupWorld.setQp, Function.update_self] at named
      obtain ⟨c, dest, peer, asked, rest⟩ := connected sound remote named
      exact ⟨c, dest, peer, asked.later later, rest⟩
    · exact .inl (by simp [SetupWorld.setQp, other])

theorem later_setLink
    (state : ∀ i, (w.links c).state = .accepted i → link.state = .accepted i)
    (asked : (w.links c).asked <+: link.asked)
    (answered : (w.links c).answered <+: link.answered) : Later w (w.setLink c link) where
  qps _ _ _ := id
  state c' i := by
    rcases eq_or_ne c' c with rfl | other
    · simpa [SetupWorld.setLink] using state i
    · simp [SetupWorld.setLink, other]
  asked c' := by
    rcases eq_or_ne c' c with rfl | other
    · simpa [SetupWorld.setLink] using asked
    · simp [SetupWorld.setLink, other]
  answered c' := by
    rcases eq_or_ne c' c with rfl | other
    · simpa [SetupWorld.setLink] using answered
    · simp [SetupWorld.setLink, other]

/-- A client changes its side of its connection. -/
theorem guar_setLink_client
    (state : link.state = (w.links c).state ∨
      (w.links c).state = .unconnected ∧ link.state = .queued)
    (asked : (w.links c).asked <+: link.asked)
    (answered : link.answered = (w.links c).answered) (heard : link.heard = (w.links c).heard)
    (asks : link.asked = (w.links c).asked ∨ ∃ order dest, Dest.Of ad (.client c) dest ∧
      link.asked <+: dest.message order ++ Setup.doneText) :
    (contractFor ad (.client c) h).guar w (w.setLink c link) := by
  have accepted : ∀ i, link.state = .accepted i ↔ (w.links c).state = .accepted i := by
    intro i
    rcases state with same | ⟨before, after⟩
    · rw [same]
    · simp [before, after]
  have later := later_setLink (fun i => (accepted i).mpr) asked (by rw [answered])
  refine ⟨⟨later, fun other apart => ?_, fun sound => ?_⟩, fun _ _ => ⟨rfl, rfl⟩⟩
  · cases other with
    | server =>
        refine ⟨fun _ => rfl, rfl, fun c' => ?_⟩
        rcases eq_or_ne c' c with rfl | other
        · simp [SetupWorld.setLink, answered, heard]
        · simp [SetupWorld.setLink, other]
    | client c' =>
        have other : c' ≠ c := fun same => apart (by rw [same])
        simp [Frame, SetupWorld.setLink, other]
  · refine sound.later later (fun c' i => ?_) (fun c' => ?_) (fun c' => ?_) (fun c' => .inl ?_)
      (fun _ => .inl rfl) fun _ => .inl rfl
    all_goals rcases eq_or_ne c' c with rfl | other
    · simpa [SetupWorld.setLink, accepted i] using sound.peers c' i
    · simpa [SetupWorld.setLink, other] using sound.peers c' i
    · simpa [SetupWorld.setLink, accepted, answered, heard] using sound.unheard c'
    · simpa [SetupWorld.setLink, other] using sound.unheard c'
    · simpa [SetupWorld.setLink] using asks
    · exact .inl (by simp [SetupWorld.setLink, other])
    · simpa [SetupWorld.setLink] using answered
    · simp [SetupWorld.setLink, other]

/-- The server changes its side of a connection that it has accepted. -/
theorem guar_setLink_server (accepted : (w.links c).state = .accepted i)
    (state : link.state = (w.links c).state) (asked : link.asked = (w.links c).asked)
    (taken : link.taken = (w.links c).taken) (answered : (w.links c).answered <+: link.answered)
    (answers : link.answered = (w.links c).answered ∨ ∃ dest own, Met ad w c i dest own ∧
      ∃ order, link.answered <+: own.message order) :
    (contractFor ad .server h).guar w (w.setLink c link) := by
  have later := later_setLink (fun i => by rw [state]; exact id) (by rw [asked]) answered
  refine ⟨⟨later, fun other apart => ?_, fun sound => ?_⟩, fun _ _ => ⟨rfl, rfl⟩⟩
  · cases other with
    | server => exact absurd rfl apart
    | client c' =>
        rcases eq_or_ne c' c with rfl | other
        · simp [Frame, SetupWorld.setLink, asked, taken]
        · simp [Frame, SetupWorld.setLink, other]
  · refine sound.later later (fun c' j => ?_) (fun c' => ?_) (fun c' => .inl ?_) (fun c' => ?_)
      (fun _ => .inl rfl) fun _ => .inl rfl
    all_goals rcases eq_or_ne c' c with rfl | other
    · simpa [SetupWorld.setLink, state] using sound.peers c' j
    · simpa [SetupWorld.setLink, other] using sound.peers c' j
    · intro never
      exact absurd accepted (by simpa [SetupWorld.setLink, state] using never i)
    · simpa [SetupWorld.setLink, other] using sound.unheard c'
    · simpa [SetupWorld.setLink] using asked
    · simp [SetupWorld.setLink, other]
    · rcases answers with same | ⟨dest, own, met, said⟩
      · exact .inl (by simpa [SetupWorld.setLink] using same)
      · exact .inr ⟨i, dest, own, met.later later, by simpa [SetupWorld.setLink] using said⟩
    · exact .inl (by simp [SetupWorld.setLink, other])

/-- The server listens. -/
theorem guar_listen (listening : Option ℕ) :
    (contractFor ad .server h).guar w { w with listening := listening } := by
  refine ⟨⟨⟨fun _ _ _ => id, fun _ _ => id, fun _ => List.prefix_rfl, fun _ => List.prefix_rfl⟩,
    fun other apart => ?_, fun sound => ⟨sound.peers, sound.unheard, sound.asks, sound.answers,
      sound.clients, sound.handles⟩⟩, fun _ _ => ⟨rfl, rfl⟩⟩
  cases other with
  | server => exact absurd rfl apart
  | client c => exact ⟨rfl, rfl, rfl⟩

/-- The server accepts a client from its queue for a handle that has none. -/
theorem guar_accept (queued : (w.links c).state = .queued) (free : w.peer i = none) :
    (contractFor ad .server i).guar w { w.setLink c { w.links c with state := .accepted i } with
      peer := Function.update w.peer i (some c) } := by
  have later : Later w { w.setLink c { w.links c with state := .accepted i } with
      peer := Function.update w.peer i (some c) } := by
    have linked : Later w (w.setLink c { w.links c with state := .accepted i }) := later_setLink
      (fun j holds => by rw [queued] at holds; cases holds) List.prefix_rfl List.prefix_rfl
    exact ⟨linked.qps, linked.state, linked.asked, linked.answered⟩
  refine ⟨⟨later, fun other apart => ?_, fun sound => ?_⟩, fun j other =>
    ⟨rfl, by simp [show j ≠ i from fun same => other ⟨rfl, same⟩]⟩⟩
  · cases other with
    | server => exact absurd rfl apart
    | client c' =>
        rcases eq_or_ne c' c with rfl | other
        · simp [Frame, SetupWorld.setLink]
        · simp [Frame, SetupWorld.setLink, other]
  · have none : ∀ j, w.peer j ≠ some c := fun j found => by
      rw [(sound.peers c j).mpr found] at queued
      cases queued
    refine sound.later later (fun c' j => ?_) (fun c' => ?_) (fun c' => .inl ?_)
      (fun c' => .inl ?_) (fun _ => .inl rfl) fun _ => .inl rfl
    · rcases eq_or_ne c' c with rfl | other
      · rcases eq_or_ne j i with rfl | different
        · simp [SetupWorld.setLink]
        · simp [SetupWorld.setLink, different, Ne.symm different, none j]
      · rcases eq_or_ne j i with rfl | different
        · have before := sound.peers c' j
          simp [SetupWorld.setLink, other, Ne.symm other, before, free]
        · simpa [SetupWorld.setLink, other, different] using sound.peers c' j
    all_goals rcases eq_or_ne c' c with rfl | other
    · exact fun never => absurd (by simp [SetupWorld.setLink]) (never i)
    · simpa [SetupWorld.setLink, other] using sound.unheard c'
    all_goals simp [SetupWorld.setLink, *]

/-- The server closes its listening socket. -/
theorem guar_stopListening : (contractFor ad .server h).guar w { w with
    listening := none
    links := fun c =>
      if (w.links c).state = .queued then { w.links c with state := .refused } else w.links c } := by
  have fields : ∀ c : Fin N, ∀ link : Link, link = (if (w.links c).state = .queued then
        { w.links c with state := .refused } else w.links c) →
      link.asked = (w.links c).asked ∧ link.answered = (w.links c).answered ∧
        link.heard = (w.links c).heard ∧ link.taken = (w.links c).taken ∧
        ∀ i, link.state = .accepted i ↔ (w.links c).state = .accepted i := by
    rintro c link rfl
    split
    next queued => exact ⟨rfl, rfl, rfl, rfl, fun i => by simp [queued]⟩
    next => exact ⟨rfl, rfl, rfl, rfl, fun i => Iff.rfl⟩
  have later : Later w { w with
      listening := none
      links := fun c =>
        if (w.links c).state = .queued then { w.links c with state := .refused }
        else w.links c } := by
    refine ⟨fun _ _ _ => id, fun c i holds => ?_, fun c => ?_, fun c => ?_⟩
    · exact ((fields c _ rfl).2.2.2.2 i).mpr holds
    · exact (fields c _ rfl).1 ▸ List.prefix_rfl
    · exact (fields c _ rfl).2.1 ▸ List.prefix_rfl
  refine ⟨⟨later, fun other apart => ?_, fun sound => ?_⟩, fun _ _ => ⟨rfl, rfl⟩⟩
  · cases other with
    | server => exact absurd rfl apart
    | client c => exact ⟨rfl, (fields c _ rfl).1, (fields c _ rfl).2.2.2.1⟩
  · refine sound.later later (fun c i => ?_) (fun c never => ?_) (fun c => .inl ?_)
      (fun c => .inl ?_) (fun _ => .inl rfl) fun _ => .inl rfl
    · exact ((fields c _ rfl).2.2.2.2 i).trans (sound.peers c i)
    · have before := sound.unheard c fun i holds =>
        never i (((fields c _ rfl).2.2.2.2 i).mpr holds)
      exact ⟨(fields c _ rfl).2.2.1.trans before.1, (fields c _ rfl).2.1.trans before.2⟩
    · exact (fields c _ rfl).1
    · exact (fields c _ rfl).2.1

end Guarantees

end RdmaWiki
