import RdmaWiki.Promises

/-!
Opening a handle, up to the exchange.

`KeptBy` says that a program keeps the contract of its party and ends in a postcondition, and has
a rule for each way in which a program goes on. What the client and the server do alike is
verified here: the objects of the queue pair, the posted receives and the own destination.
-/

namespace RdmaWiki

open CText HexText Interference LibraryCalls StepMachine

variable {N : ℕ} {ad : Adapters N}

/-! ## Keeping the promises -/

/-- The others do not make it false. -/
def Stable (ad : Adapters N) (party : Party N) (P : SetupWorld N → Prop) : Prop :=
  ∀ w w', (contractFor ad party 0).rely w w' → P w → P w'

/-- The program keeps the promises of its party. -/
def KeptBy {β : Type} (ad : Adapters N) (party : Party N) (h : ℕ)
    (post : Except Stop β → SetupWorld N → Prop)
    (p : Setup β) (w : SetupWorld N) : Prop :=
  Keeps (admits ad party) (contractFor ad party h) post p w

/-- The program does not stop, and `Q` holds of its result. -/
def ensures {β : Type} (Q : β → SetupWorld N → Prop) : Except Stop β → SetupWorld N → Prop
  | .ok b => Q b
  | .error _ => fun _ => False

/-- `Q` holds of what is not NULL. -/
def given {β : Type} (Q : β → SetupWorld N → Prop) : Option β → SetupWorld N → Prop
  | some b => Q b
  | none => fun _ => True

/-- `Q` holds where the result is a success. -/
def succeeds (Q : SetupWorld N → Prop) : Ret → SetupWorld N → Prop
  | .exitSuccess => Q
  | .exitFailure => fun _ => True

section Rules

variable {β γ : Type} {party : Party N} {h : ℕ} {op : SetupOp} {w : SetupWorld N}
  {P P' : SetupWorld N → Prop} {Q : β → SetupWorld N → Prop} {Q' : γ → SetupWorld N → Prop}

theorem Stable.and (first : Stable ad party P) (second : Stable ad party P') :
    Stable ad party fun w => P w ∧ P' w :=
  fun w w' rely holds => ⟨first w w' rely holds.1, second w w' rely holds.2⟩

/-- What is never taken back is stable. -/
theorem stable_of_later (kept : ∀ w w', Later w w' → P w → P w') : Stable ad party P :=
  fun w w' rely => kept w w' rely.1

theorem stable_sound : Stable ad party (Sound ad) := fun _ _ rely => rely.2.2

theorem KeptBy.bind {p : Setup β} {f : β → Setup γ} (first : KeptBy ad party h (ensures Q) p w)
    (second : ∀ b w, Q b w → KeptBy ad party h (ensures Q') (f b) w) :
    KeptBy ad party h (ensures Q') (p >>= f) w :=
  Keeps.bind first (fun _ _ no => no) second

theorem KeptBy.mono {Q' : β → SetupWorld N → Prop} {p : Setup β}
    (kept : KeptBy ad party h (ensures Q) p w) (weaker : ∀ b w, Q b w → Q' b w) :
    KeptBy ad party h (ensures Q') p w :=
  Keeps.mono kept fun out w holds => by
    cases out with
    | ok b => exact weaker b w holds
    | error s => exact holds

theorem kept_done {b : β} (holds : P w) (stable : Stable ad party P) (gives : ∀ w, P w → Q b w) :
    KeptBy ad party h (ensures Q) (.done b) w :=
  keeps_done holds stable gives

/-- Nothing is said of NULL. -/
theorem kept_none {Q : β → SetupWorld N → Prop} :
    KeptBy ad party h (ensures (given Q)) (.done none) w :=
  fun _ _ => True.intro

theorem kept_failure {Q : SetupWorld N → Prop} :
    KeptBy ad party h (ensures (succeeds Q)) (.done .exitFailure) w :=
  fun _ _ => True.intro

theorem kept_lib {f : op.Answer → Setup β} (holds : P w) (stable : Stable ad party P)
    (answered : ∀ w r w', P w → admits ad party w ⟨⟨h, op⟩, r⟩ = some w' →
      (contractFor ad party h).guar w w' ∧ KeptBy ad party h (ensures Q) (f r) w') :
    KeptBy ad party h (ensures Q) (Setup.lib h op >>= f) w :=
  keeps_call holds stable answered

/-- The rule for a call that changes nothing. -/
theorem kept_quiet {f : op.Answer → Setup β} (quiet : op.quiet = true) (holds : P w)
    (stable : Stable ad party P)
    (answered : ∀ r w, P w → KeptBy ad party h (ensures Q) (f r) w) :
    KeptBy ad party h (ensures Q) (Setup.lib h op >>= f) w := by
  refine kept_lib holds stable fun w r w' holds admitted => ?_
  obtain rfl := admits_quiet quiet admitted
  exact ⟨guar_refl, answered r w' holds⟩

end Rules

/-! ### Up to the exchange -/

/-- A party has brought the queue pair of a handle to a state, and `I` holds. -/
structure Opening (ad : Adapters N) (party : Party N) (h : ℕ) (I : SetupWorld N → Prop)
    (qp : QpState) (w : SetupWorld N) : Prop where
  sound : Sound ad w
  qp : w.qps (party.site h) = qp
  rest : I w

section Opening

variable {party : Party N} {h : ℕ} {opts : Options} {isServer : Bool} {I : SetupWorld N → Prop}
  {qp : QpState} {w : SetupWorld N}

theorem stable_qp : Stable ad party fun w => w.qps (party.site h) = qp := by
  intro w w' rely holds
  cases party with
  | server => exact (rely.2.1.1 h).trans holds
  | client c => exact rely.2.1.1.trans holds

theorem stable_opening (rest : Stable ad party I) : Stable ad party (Opening ad party h I qp) :=
  fun w w' rely opening => ⟨stable_sound w w' rely opening.sound, stable_qp w w' rely opening.qp,
    rest w w' rely opening.rest⟩

/-- A queue pair that is not connected yet. -/
theorem guar_setQp_unnamed (unsent : ∀ remote psn, w.qps (party.site h) ≠ .rts remote psn)
    (unnamed : qp.remote = none) :
    (contractFor ad party h).guar w (w.setQp (party.site h) qp) := by
  have never : ∀ remote, qp.remote ≠ some remote := fun remote named => by
    rw [unnamed] at named
    cases named
  cases party with
  | server => exact guar_setQp_server unsent fun _ remote named => absurd named (never remote)
  | client c => exact guar_setQp_client unsent fun _ remote named => absurd named (never remote)

variable (rest : Stable ad party I)
  (apart : ∀ w qp, I w → I (w.setQp (party.site h) qp))

include rest apart

omit rest in
theorem Opening.setQp {qp' : QpState} (opening : Opening ad party h I qp w)
    (promised : (contractFor ad party h).guar w (w.setQp (party.site h) qp')) :
    Opening ad party h I qp' (w.setQp (party.site h) qp') where
  sound := promised.1.2.2 opening.sound
  qp := Function.update_self ..
  rest := apart w qp' opening.rest

theorem kept_initQp (opening : Opening ad party h I .absent w) :
    KeptBy ad party h (ensures (given fun ctx w => ctx.qpNum = ad.qpn (party.site h) ∧
      Opening ad party h I .init w)) (Setup.initQp h opts isServer) w := by
  refine kept_lib opening (stable_opening rest) fun w num w' opening admitted => ?_
  rcases admits_createQp admitted with ⟨rfl, rfl⟩ | ⟨rfl, absent, rfl⟩
  · exact ⟨guar_refl, kept_none⟩
  have created : (contractFor ad party h).guar w (w.setQp (party.site h) .reset) :=
    guar_setQp_unnamed (by simp [absent]) rfl
  refine ⟨created, ?_⟩
  refine kept_lib (opening.setQp apart created) (stable_opening rest)
    fun w errno w' opening admitted => ?_
  rcases admits_modifyQp admitted with ⟨failed, rfl⟩ | ⟨rfl, qp, changed, rfl⟩
  · rw [if_pos failed]
    exact ⟨guar_refl, kept_none⟩
  · rw [opening.qp] at changed
    obtain rfl := Option.some.inj changed
    have started : (contractFor ad party h).guar w (w.setQp (party.site h) .init) :=
      guar_setQp_unnamed (by simp [opening.qp]) rfl
    exact ⟨started, kept_done (opening.setQp apart started) (stable_opening rest)
      fun w opening => ⟨rfl, opening⟩⟩

theorem kept_initQueues (opening : Opening ad party h I .absent w) :
    KeptBy ad party h (ensures (given fun ctx w => ctx.qpNum = ad.qpn (party.site h) ∧
      Opening ad party h I .init w)) (Setup.initQueues h opts isServer) w := by
  refine kept_quiet rfl opening (stable_opening rest) fun pd w opening => ?_
  split
  · exact kept_none
  refine kept_quiet rfl opening (stable_opening rest) fun mr w opening => ?_
  split
  · exact kept_none
  refine kept_quiet rfl opening (stable_opening rest) fun cq w opening => ?_
  split
  · exact kept_none
  exact kept_initQp rest apart opening

theorem kept_ppInitCtx (opening : Opening ad party h I .absent w) (pageSize : ℕ) :
    KeptBy ad party h (ensures (given fun ctx w => ctx.qpNum = ad.qpn (party.site h) ∧
      Opening ad party h I .init w)) (Setup.ppInitCtx h opts isServer pageSize) w := by
  refine kept_quiet rfl opening (stable_opening rest) fun ctx w opening => ?_
  split
  · exact kept_none
  refine kept_quiet rfl opening (stable_opening rest) fun buf w opening => ?_
  split
  · exact kept_none
  refine kept_quiet rfl opening (stable_opening rest) fun context w opening => ?_
  split
  · exact kept_none
  split
  · refine kept_quiet rfl opening (stable_opening rest) fun channel w opening => ?_
    split
    · exact kept_none
    exact kept_initQueues rest apart opening
  · exact kept_initQueues rest apart opening

omit apart in
theorem kept_ppPostRecv (n i : ℕ) (opening : Opening ad party h I qp w) :
    KeptBy ad party h (ensures fun _ w => Opening ad party h I qp w) (Setup.ppPostRecv h n i) w := by
  induction n generalizing i w with
  | zero => exact kept_done opening (stable_opening rest) fun _ opening => opening
  | succ n ih =>
      refine kept_quiet rfl opening (stable_opening rest) fun posted w opening => ?_
      split
      · exact kept_done opening (stable_opening rest) fun _ opening => opening
      · exact ih (i + 1) opening

theorem kept_openDevice (opening : Opening ad party h I .absent w) :
    KeptBy ad party h (ensures (given fun ctx w => ctx.qpNum = ad.qpn (party.site h) ∧
      Opening ad party h I .init w)) (Setup.openDevice h opts isServer) w := by
  refine kept_quiet rfl opening (stable_opening rest) fun pageSize w opening => ?_
  refine kept_quiet rfl opening (stable_opening rest) fun devices w opening => ?_
  rcases devices with - | - | devices
  · exact kept_none
  · exact kept_none
  refine (kept_ppInitCtx rest apart opening pageSize).bind fun ctx w opened => ?_
  cases ctx with
  | none => exact kept_none
  | some ctx =>
      obtain ⟨num, opening⟩ := opened
      refine (kept_ppPostRecv rest _ _ opening).bind fun routs w opening => ?_
      split
      · exact kept_none
      split
      · refine kept_quiet rfl opening (stable_opening rest) fun notified w opening => ?_
        split
        · exact kept_none
        · exact kept_done opening (stable_opening rest) fun _ opening => ⟨num, opening⟩
      · exact kept_done opening (stable_opening rest) fun _ opening => ⟨num, opening⟩

omit apart in
/-- What a party tells the other end is its destination. -/
theorem kept_localDest (opening : Opening ad party h I qp w) {qpNum : UInt32}
    (num : qpNum = ad.qpn (party.site h)) :
    KeptBy ad party h (ensures (given fun dest w => dest.Of ad (party.site h) ∧
      Opening ad party h I qp w)) (Setup.localDest h opts qpNum) w := by
  refine kept_lib opening (stable_opening rest) fun w attr w' opening admitted => ?_
  obtain rfl := admits_quiet rfl admitted
  refine ⟨guar_refl, ?_⟩
  cases attr with
  | none => exact kept_none
  | some attr =>
      have lid := admits_queryPort admitted
      dsimp only
      split
      · exact kept_none
      have gid : KeptBy ad party h (ensures fun _ w => Opening ad party h I qp w)
          (Setup.localGid h opts) w' := by
        unfold Setup.localGid
        split
        · refine kept_quiet (f := .done) rfl opening (stable_opening rest) fun gid w opening => ?_
          exact kept_done opening (stable_opening rest) fun _ opening => opening
        · exact kept_done opening (stable_opening rest) fun _ opening => opening
      refine gid.bind fun gid w opening => ?_
      cases gid with
      | none => exact kept_none
      | some gid =>
          refine kept_quiet rfl opening (stable_opening rest) fun psn w opening => ?_
          refine kept_done opening (stable_opening rest) fun w opening => ⟨⟨?_, num, ?_⟩, opening⟩
          · rw [← lid]
          · have masked : (psn &&& 0xffffff).toNat ≤ 0xffffff := by
              rw [UInt32.toNat_and]
              exact Nat.and_le_right
            exact lt_of_le_of_lt masked (by decide)

end Opening

/-! ### The texts -/

section Texts

variable {β : Type} {party : Party N} {h : ℕ} {opts : Options} {w : SetupWorld N}
  {Q : β → SetupWorld N → Prop} {dest : Dest} {s : Site N}

/-- A destination of an adapter fits the buffer. -/
theorem format_of (is : dest.Of ad s) : Setup.format opts dest = .done (dest.message opts.order) :=
  if_pos is.length.le

/-- A destination is scanned. -/
theorem scan_message {order : ByteOrder} {gid : Bytes} (known : gid.length ≤ gidSize) :
    Setup.scan opts gid (dest.message order) = .done dest := by
  rw [Setup.scan, readDest_message known]
  rfl

theorem kept_withAddresses {P : SetupWorld N → Prop} {loop : ℕ → Setup Bool} (holds : P w)
    (stable : Stable ad party P)
    (looped : ∀ n w, P w → KeptBy ad party h (ensures fun _ w => P w) (loop n) w) :
    KeptBy ad party h (ensures fun _ w => P w) (Setup.withAddresses h opts loop) w := by
  refine kept_quiet rfl holds stable fun service w holds => ?_
  split
  · exact kept_done holds stable fun _ holds => holds
  refine kept_quiet rfl holds stable fun addresses w holds => ?_
  cases addresses with
  | none =>
      refine kept_quiet rfl holds stable fun _ w holds => ?_
      exact kept_done holds stable fun _ holds => holds
  | some n =>
      refine (looped n w holds).bind fun opened w holds => ?_
      refine kept_quiet rfl holds stable fun _ w holds => ?_
      refine kept_quiet rfl holds stable fun _ w holds => ?_
      exact kept_done holds stable fun _ holds => holds

end Texts

end RdmaWiki
