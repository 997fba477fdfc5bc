import Mathlib.Data.Set.Function
import RdmaWiki.Opening

/-!
The handshake.

Each program keeps its contract, whatever the others do (`kept_kvOpen_client`,
`keeps_openHandles`), so all of them do in every run. A client that has opened its handle is
connected with a handle of the server that is connected with it, and with no handle twice
(`joined_of_run`). No queue pair of a client is connected before the server's is
(`serverFirst_of_run`). A handle that the server has opened is connected with a client, which
need not have got that far, and nothing of what is traded on the way is undefined, only the print
of `servername` in the end, which is NULL on the server (`opened_of_run`).
-/

namespace RdmaWiki

open CText HexText Interference LibraryCalls StepMachine

variable {N : ℕ} {ad : Adapters N}

/-! ### The client -/

/-- The queue pairs of a client and of a handle are connected with each other: each knows the
other's number and LID, and expects the PSN from which the other sends. -/
structure Joined (ad : Adapters N) (w : SetupWorld N) (c : Fin N) (i : ℕ) : Prop where
  peer : w.peer i = some c
  qps : ∃ psn psn', w.qps (.client c) = .rts ⟨ad.qpn (.handle i), psn', ad.lid (.handle i)⟩ psn ∧
    w.qps (.handle i) = .rts ⟨ad.qpn (.client c), psn, ad.lid (.client c)⟩ psn'

section Client

variable {c : Fin N} {h : ℕ} {opts : Options} {w : SetupWorld N} {myDest own : Dest}

/-- What the client has written and how much it has read. -/
def Silent (c : Fin N) (asked : Bytes) (w : SetupWorld N) : Prop :=
  (w.links c).asked = asked ∧ (w.links c).taken = 0

theorem stable_silent {asked : Bytes} : Stable ad (.client c) (Silent c asked) :=
  fun _ _ rely holds => ⟨rely.2.1.2.1.trans holds.1, rely.2.1.2.2.trans holds.2⟩

theorem stable_asked {asked : Bytes} :
    Stable ad (.client c) fun w => (w.links c).asked = asked :=
  fun _ _ rely holds => rely.2.1.2.1.trans holds

/-- The server has met the client for one of its handles. -/
def MetBy (ad : Adapters N) (c : Fin N) (dest own : Dest) (w : SetupWorld N) : Prop :=
  ∃ i, Met ad w c i dest own

theorem metBy_later {dest : Dest} (w w' : SetupWorld N) (later : Later w w')
    (met : MetBy ad c dest own w) : MetBy ad c dest own w' :=
  met.imp fun _ met => met.later later

theorem stable_metBy {party : Party N} {dest : Dest} : Stable ad party (MetBy ad c dest own) :=
  stable_of_later metBy_later

/-- Destinations name the LID that an adapter has. -/
theorem Dest.Of.remote {s : Site N} {dest : Dest} (is : dest.Of ad s) :
    dest.remote = ⟨ad.qpn s, dest.psn, ad.lid s⟩ := by
  rw [Dest.remote, is.lid, is.qpn, UInt16.toUInt16_toUInt32]

theorem kept_connectLoop (n : ℕ)
    (opening : Opening ad (.client c) h (Silent c []) .init w) :
    KeptBy ad (.client c) h (ensures fun _ w => Opening ad (.client c) h (Silent c []) .init w)
      (Setup.connectLoop h n) w := by
  induction n generalizing w with
  | zero => exact kept_done opening (stable_opening stable_silent) fun _ opening => opening
  | succ n ih =>
      refine kept_quiet rfl opening (stable_opening stable_silent) fun sockfd w opening => ?_
      split
      · exact ih opening
      refine kept_lib opening (stable_opening stable_silent) fun w connected w' opening admitted => ?_
      have after : (contractFor ad (.client c) h).guar w w' ∧
          Opening ad (.client c) h (Silent c []) .init w' := by
        rcases admits_connect admitted with rfl | ⟨free, rfl⟩
        · exact ⟨guar_refl, opening⟩
        · have promised : (contractFor ad (.client c) h).guar w
              (w.setLink c { w.links c with state := .queued }) :=
            guar_setLink_client (.inr ⟨free, rfl⟩) List.prefix_rfl rfl rfl (.inl rfl)
          refine ⟨promised, promised.1.2.2 opening.sound, opening.qp, ?_⟩
          simpa [Silent, SetupWorld.setLink] using opening.rest
      refine ⟨after.1, ?_⟩
      split
      · exact kept_done after.2 (stable_opening stable_silent) fun _ opening => opening
      refine kept_lib after.2 (stable_opening stable_silent) fun w _ w' opening admitted => ?_
      obtain ⟨left, rfl⟩ := admits_close_client admitted
      have promised : (contractFor ad (.client c) h).guar w
          (w.setLink c { w.links c with left := left }) :=
        guar_setLink_client (.inl rfl) List.prefix_rfl rfl rfl (.inl rfl)
      refine ⟨promised, ih ⟨promised.1.2.2 opening.sound, opening.qp, ?_⟩⟩
      simpa [Silent, SetupWorld.setLink] using opening.rest

/-- What the client reads, if it is whole, is from the server that has met it. -/
theorem metBy_of_answer (is : myDest.Of ad (.client c)) {order : ByteOrder} {bytes : Bytes}
    (opening : Opening ad (.client c) h (Silent c (myDest.message order)) .init w)
    (whole : bytes.length = msgSize)
    (read : bytes <+: (w.links c).answered.drop (w.links c).taken) :
    ∃ own order', bytes = own.message order' ∧ MetBy ad c myDest own w := by
  rw [opening.rest.2, List.drop_zero] at read
  have some : (w.links c).answered ≠ [] := by
    intro none
    rw [none, List.prefix_nil] at read
    rw [read] at whole
    cases whole
  obtain ⟨i, dest, own, met, order', answered⟩ := opening.sound.answers c some
  have asked : Asked ad w c myDest := by
    refine ⟨is, order, ?_⟩
    rw [opening.rest.1, ← @Dest.Of.length _ _ _ order _ is, List.take_length]
  obtain rfl := met.2.1.unique asked
  refine ⟨own, order', ?_, i, met⟩
  apply (read.trans answered).eq_of_length
  rw [whole, met.2.2.1.length]

theorem kept_clientTrade (is : myDest.Of ad (.client c))
    (opening : Opening ad (.client c) h (Silent c []) .init w) :
    KeptBy ad (.client c) h (ensures (given fun own w =>
      Opening ad (.client c) h (MetBy ad c myDest own) .init w))
      (Setup.clientTrade h opts myDest) w := by
  unfold Setup.clientTrade
  rw [format_of is]
  refine kept_lib opening (stable_opening stable_silent) fun w sent w' opening admitted => ?_
  obtain ⟨part, taken, rfl⟩ := admits_write_client admitted
  obtain ⟨within, all⟩ := takes_all taken
  have promised : (contractFor ad (.client c) h).guar w
      (w.setLink c { w.links c with asked := (w.links c).asked ++ part }) := by
    refine guar_setLink_client (.inl rfl) (List.prefix_append _ _) rfl rfl (.inr ?_)
    refine ⟨opts.order, myDest, is, ?_⟩
    rw [opening.rest.1]
    exact within.trans (List.prefix_append _ _)
  refine ⟨promised, ?_⟩
  split
  · exact kept_none
  next complete =>
    rw [ne_eq, not_not] at complete
    have message : part = myDest.message opts.order := by
      apply all
      rw [complete, is.length]
    have said : Opening ad (.client c) h (Silent c (myDest.message opts.order)) .init
        (w.setLink c { w.links c with asked := (w.links c).asked ++ part }) := by
      refine ⟨promised.1.2.2 opening.sound, opening.qp, ?_⟩
      simp [Silent, SetupWorld.setLink, opening.rest.1, opening.rest.2, message]
    refine kept_lib said (stable_opening stable_silent) fun w got w' opening admitted => ?_
    rcases admits_read_client admitted with ⟨rfl, rfl⟩ | ⟨bytes, rfl, read, rfl⟩
    · exact ⟨guar_refl, kept_none⟩
    have promised : (contractFor ad (.client c) h).guar w
        (w.setLink c { w.links c with taken := (w.links c).taken + bytes.length }) :=
      guar_setLink_client (.inl rfl) List.prefix_rfl rfl rfl (.inl rfl)
    refine ⟨promised, ?_⟩
    dsimp only
    split
    · exact kept_none
    next whole =>
      obtain ⟨own, order', rfl, met⟩ := metBy_of_answer is opening (not_not.mp whole) read
      have heard : Opening ad (.client c) h
          (fun w => (w.links c).asked = myDest.message opts.order ∧ MetBy ad c myDest own w) .init
          (w.setLink c { w.links c with
            taken := (w.links c).taken + (own.message order').length }) := by
        refine ⟨promised.1.2.2 opening.sound, opening.qp, ?_, metBy_later _ _ promised.1.1 met⟩
        simpa [SetupWorld.setLink] using opening.rest.1
      refine kept_lib heard (stable_opening (stable_asked.and stable_metBy))
        fun w sent w' opening admitted => ?_
      obtain ⟨part, taken, rfl⟩ := admits_write_client admitted
      have promised : (contractFor ad (.client c) h).guar w
          (w.setLink c { w.links c with asked := (w.links c).asked ++ part }) := by
        refine guar_setLink_client (.inl rfl) (List.prefix_append _ _) rfl rfl (.inr ?_)
        refine ⟨opts.order, myDest, is, ?_⟩
        rw [opening.rest.1, List.prefix_append_right_inj]
        exact (takes_all taken).1
      refine ⟨promised, ?_⟩
      have met : Opening ad (.client c) h (MetBy ad c myDest own) .init
          (w.setLink c { w.links c with asked := (w.links c).asked ++ part }) :=
        ⟨promised.1.2.2 opening.sound, opening.qp, metBy_later _ _ promised.1.1 opening.rest.2⟩
      refine kept_quiet rfl met (stable_opening stable_metBy) fun remDest w met => ?_
      split
      · exact kept_none
      rw [scan_message (by rw [List.length_append, length_gidToWireGid]; decide)]
      exact kept_done met (stable_opening stable_metBy) fun _ met => met

theorem kept_ppClientExchDest (is : myDest.Of ad (.client c))
    (opening : Opening ad (.client c) h (Silent c []) .init w) :
    KeptBy ad (.client c) h (ensures (given fun own w =>
      Opening ad (.client c) h (MetBy ad c myDest own) .init w))
      (Setup.ppClientExchDest h opts myDest) w := by
  refine (kept_withAddresses opening (stable_opening stable_silent)
    fun n w opening => kept_connectLoop n opening).bind fun connected w opening => ?_
  split
  · exact kept_none
  refine (kept_clientTrade is opening).bind fun remDest w met => ?_
  have stable : Stable ad (.client c) (given (fun own w =>
      Opening ad (.client c) h (MetBy ad c myDest own) .init w) remDest) := by
    cases remDest with
    | none => exact fun _ _ _ _ => True.intro
    | some own => exact stable_opening stable_metBy
  refine kept_lib met stable fun w _ w' met admitted => ?_
  obtain ⟨left, rfl⟩ := admits_close_client admitted
  have promised : (contractFor ad (.client c) h).guar w
      (w.setLink c { w.links c with left := left }) :=
    guar_setLink_client (.inl rfl) List.prefix_rfl rfl rfl (.inl rfl)
  refine ⟨promised, ?_⟩
  cases remDest with
  | none => exact kept_none
  | some own =>
      refine kept_done (P := Opening ad (.client c) h (MetBy ad c myDest own) .init) ?_
        (stable_opening stable_metBy) fun _ met => met
      exact ⟨promised.1.2.2 met.sound, met.qp, metBy_later _ _ promised.1.1 met.rest⟩

/-- A client that has connected its queue pair with the handle that has met it. -/
theorem joined_of_met (sound : Sound ad w) {i : ℕ} (met : Met ad w c i myDest own)
    (qp : w.qps (.client c) = .rts own.remote myDest.psn) : Joined ad w c i where
  peer := (sound.peers c i).mp met.1
  qps := by
    refine ⟨myDest.psn, own.psn, ?_, ?_⟩
    · rw [qp, met.2.2.1.remote]
    · rw [met.2.2.2, met.2.1.1.remote]

theorem kept_ppConnectCtx_client
    (opening : Opening ad (.client c) h (MetBy ad c myDest own) .init w) :
    KeptBy ad (.client c) h (ensures (succeeds fun w => ∃ i, Joined ad w c i))
      (Setup.ppConnectCtx h opts myDest.psn own) w := by
  refine kept_lib opening (stable_opening stable_metBy) fun w errno w' opening admitted => ?_
  rcases admits_modifyQp admitted with ⟨failed, rfl⟩ | ⟨rfl, qp, changed, rfl⟩
  · rw [if_pos failed]
    exact ⟨guar_refl, kept_failure⟩
  rw [opening.qp] at changed
  obtain rfl := Option.some.inj changed
  have unsent : ∀ remote psn, w.qps (.client c) ≠ .rts remote psn := fun remote psn sends => by
    have init : w.qps (.client c) = .init := opening.qp
    rw [init] at sends
    cases sends
  have ready : (contractFor ad (.client c) h).guar w
      (w.setQp (.client c) (.rtr own.remote)) := by
    refine guar_setQp_client unsent fun _ remote named => ?_
    obtain ⟨i, met⟩ := opening.rest
    exact ⟨i, myDest, own, met, (Option.some.inj named).symm, fun psn sends => by cases sends⟩
  have opening' : Opening ad (.client c) h (MetBy ad c myDest own) (.rtr own.remote)
      (w.setQp (.client c) (.rtr own.remote)) :=
    ⟨ready.1.2.2 opening.sound, Function.update_self .., metBy_later _ _ ready.1.1 opening.rest⟩
  refine ⟨ready, ?_⟩
  refine kept_lib opening' (stable_opening stable_metBy) fun w errno w' opening admitted => ?_
  rcases admits_modifyQp admitted with ⟨failed, rfl⟩ | ⟨rfl, qp, changed, rfl⟩
  · rw [if_pos failed]
    exact ⟨guar_refl, kept_failure⟩
  rw [opening.qp] at changed
  obtain rfl := Option.some.inj changed
  have unsent : ∀ remote psn, w.qps (.client c) ≠ .rts remote psn := fun remote psn sends => by
    have rtr : w.qps (.client c) = .rtr own.remote := opening.qp
    rw [rtr] at sends
    cases sends
  have sending : (contractFor ad (.client c) h).guar w
      (w.setQp (.client c) (.rts own.remote myDest.psn)) := by
    refine guar_setQp_client unsent fun _ remote named => ?_
    obtain ⟨i, met⟩ := opening.rest
    refine ⟨i, myDest, own, met, (Option.some.inj named).symm, fun psn sends => ?_⟩
    injection sends with _ same
    exact same.symm
  have opening' : Opening ad (.client c) h (MetBy ad c myDest own) (.rts own.remote myDest.psn)
      (w.setQp (.client c) (.rts own.remote myDest.psn)) :=
    ⟨sending.1.2.2 opening.sound, Function.update_self .., metBy_later _ _ sending.1.1 opening.rest⟩
  refine ⟨sending, kept_done opening' (stable_opening stable_metBy) fun w opening => ?_⟩
  obtain ⟨i, met⟩ := opening.rest
  exact ⟨i, joined_of_met opening.sound met opening.qp⟩

/-- A client keeps its promises, and is joined when it has opened its handle. -/
theorem kept_kvOpen_client (opening : Opening ad (.client c) h (Silent c []) .absent w) :
    KeptBy ad (.client c) h (ensures (succeeds fun w => ∃ i, Joined ad w c i))
      (Setup.kvOpen h opts false) w := by
  rw [Setup.kvOpen_eq fun server => by cases server]
  refine (kept_openDevice stable_silent (fun _ _ silent => silent) opening).bind
    fun ctx w opened => ?_
  cases ctx with
  | none => exact kept_failure
  | some ctx =>
      obtain ⟨num, opening⟩ := opened
      refine (kept_localDest stable_silent opening num).bind fun myDest w told => ?_
      cases myDest with
      | none => exact kept_failure
      | some myDest =>
          obtain ⟨is, opening⟩ := told
          refine (kept_ppClientExchDest is opening).bind fun remDest w met => ?_
          cases remDest with
          | none => exact kept_failure
          | some own => exact kept_ppConnectCtx_client met

end Client

/-! ### The server -/

section Server

variable {c : Fin N} {h : ℕ} {opts : Options} {w : SetupWorld N} {myDest dest : Dest}
  {qp : QpState} {I : SetupWorld N → Prop}

/-- The handle has no client. -/
def Unmet (h : ℕ) (w : SetupWorld N) : Prop := w.peer h = none

theorem stable_unmet : Stable ad .server (Unmet h : SetupWorld N → Prop) := by
  intro w w' rely unmet
  rw [Unmet, rely.2.1.2.1]
  exact unmet

/-- The client of the handle, and what the server has answered. -/
structure Serving (h : ℕ) (c : Fin N) (answered : Bytes) (w : SetupWorld N) : Prop where
  peer : w.peer h = some c
  answered : (w.links c).answered = answered

theorem stable_serving {answered : Bytes} : Stable ad .server (Serving h c answered) :=
  fun _ _ rely serving => ⟨(congrFun rely.2.1.2.1 h).trans serving.peer,
    (rely.2.1.2.2 c).1.trans serving.answered⟩

theorem stable_unheard :
    Stable ad .server fun w => Serving h c [] w ∧ (w.links c).heard = 0 :=
  stable_serving.and fun _ _ rely unheard => (rely.2.1.2.2 c).2.trans unheard

theorem stable_told : Stable ad .server fun w => Asked ad w c dest :=
  stable_of_later fun _ _ later asked => asked.later later

/-- The server closes a socket that listens or does not. -/
theorem Opening.stopListening (opening : Opening ad .server h I qp w)
    (kept : ∀ w' : SetupWorld N, w'.peer = w.peer →
      (∀ c i, (w.links c).state = .accepted i → w'.links c = w.links c) → Later w w' → I w') :
    Opening ad .server h I qp { w with
      listening := none
      links := fun c =>
        if (w.links c).state = .queued then { w.links c with state := .refused }
        else w.links c } where
  sound := (guar_stopListening (h := h)).1.2.2 opening.sound
  qp := opening.qp
  rest := by
    refine kept _ rfl (fun c i accepted => ?_) (@guar_stopListening N ad w h).1.1
    simp [accepted]

theorem kept_bindLoop (n : ℕ) (opening : Opening ad .server h (Unmet h) .init w) :
    KeptBy ad .server h (ensures fun _ w => Opening ad .server h (Unmet h) .init w)
      (Setup.bindLoop h n) w := by
  induction n generalizing w with
  | zero => exact kept_done opening (stable_opening stable_unmet) fun _ opening => opening
  | succ n ih =>
      refine kept_quiet rfl opening (stable_opening stable_unmet) fun sockfd w opening => ?_
      split
      · exact ih opening
      refine kept_quiet rfl opening (stable_opening stable_unmet) fun _ w opening => ?_
      refine kept_quiet rfl opening (stable_opening stable_unmet) fun bound w opening => ?_
      split
      · exact kept_done opening (stable_opening stable_unmet) fun _ opening => opening
      refine kept_lib opening (stable_opening stable_unmet) fun w _ w' opening admitted => ?_
      obtain rfl := admits_close_server admitted
      exact ⟨guar_stopListening, ih (opening.stopListening fun w' peer _ _ => by
        rw [Unmet, peer]
        exact opening.rest)⟩

/-- The server uses the connection that it has accepted. -/
theorem guar_serving {answered : Bytes} (link : Link)
    (sound : Sound ad w) (serving : Serving h c answered w)
    (state : link.state = (w.links c).state) (asked : link.asked = (w.links c).asked)
    (taken : link.taken = (w.links c).taken) (longer : (w.links c).answered <+: link.answered)
    (answers : link.answered = (w.links c).answered ∨ ∃ dest own, Met ad w c h dest own ∧
      ∃ order, link.answered <+: own.message order) :
    (contractFor ad .server h).guar w (w.setLink c link) ∧
      Serving h c link.answered (w.setLink c link) := by
  refine ⟨guar_setLink_server ((sound.peers c h).mpr serving.peer) state asked taken longer answers,
    serving.peer, ?_⟩
  simp [SetupWorld.setLink]

/-- What the server hears, if it is whole, is the destination of its client. -/
theorem asked_of_heard {bytes : Bytes} (sound : Sound ad w) (whole : bytes.length = msgSize)
    (heard : bytes <+: (w.links c).asked) :
    ∃ dest order, bytes = dest.message order ∧ Asked ad w c dest := by
  obtain ⟨order, dest, is, asked⟩ := sound.asks c
  have message : bytes = dest.message order := by
    have both := heard.trans asked
    rw [List.prefix_iff_eq_take, whole, ← @Dest.Of.length _ _ _ order _ is, List.take_left] at both
    exact both
  refine ⟨dest, order, message, is, order, ?_⟩
  rw [← message, ← whole]
  exact (List.prefix_iff_eq_take.mp heard).symm

/-- The client of the handle has told its destination, and was not answered yet. -/
def Told (ad : Adapters N) (h : ℕ) (c : Fin N) (dest : Dest) (w : SetupWorld N) : Prop :=
  Serving h c [] w ∧ Asked ad w c dest

theorem stable_tells : Stable ad .server (Told ad h c dest) := stable_serving.and stable_told

theorem Told.setQp (told : Told ad h c dest w)
    (promised : (contractFor ad .server h).guar w (w.setQp (.handle h) qp)) :
    Told ad h c dest (w.setQp (.handle h) qp) :=
  ⟨⟨told.1.peer, told.1.answered⟩, told.2.later promised.1.1⟩

/-- A handle that still has its connection. -/
def Holding (ad : Adapters N) (h : ℕ) (c : Fin N) (w : SetupWorld N) : Prop :=
  Sound ad w ∧ w.peer h = some c

theorem stable_holding : Stable ad .server (Holding ad h c) :=
  fun w w' rely holding => ⟨stable_sound w w' rely holding.1,
    (congrFun rely.2.1.2.1 h).trans holding.2⟩

/-- The connection is still there when something has failed. -/
theorem Opening.holding (opening : Opening ad .server h (Told ad h c dest) qp w) :
    Holding ad h c w :=
  ⟨opening.sound, opening.rest.1.peer⟩

theorem kept_notConnected {Q : SetupWorld N → Prop} (holding : Holding ad h c w) :
    KeptBy ad .server h (ensures fun ret w => Holding ad h c w ∧ succeeds Q ret w)
      (.done .exitFailure) w :=
  kept_done holding stable_holding fun _ holding => ⟨holding, True.intro⟩

theorem kept_ppConnectCtx_server (opening : Opening ad .server h (Told ad h c dest) .init w) :
    KeptBy ad .server h (ensures fun ret w => Holding ad h c w ∧ succeeds
      (Opening ad .server h (Told ad h c dest) (.rts dest.remote myDest.psn)) ret w)
      (Setup.ppConnectCtx h opts myDest.psn dest) w := by
  refine kept_lib opening (stable_opening stable_tells) fun w errno w' opening admitted => ?_
  rcases admits_modifyQp admitted with ⟨failed, rfl⟩ | ⟨rfl, qp, changed, rfl⟩
  · rw [if_pos failed]
    exact ⟨guar_refl, kept_notConnected opening.holding⟩
  rw [opening.qp] at changed
  obtain rfl := Option.some.inj changed
  have unsent : ∀ remote psn, w.qps (.handle h) ≠ .rts remote psn := fun remote psn sends => by
    have init : w.qps (.handle h) = .init := opening.qp
    rw [init] at sends
    cases sends
  have ready : (contractFor ad .server h).guar w (w.setQp (.handle h) (.rtr dest.remote)) :=
    guar_setQp_server unsent fun _ remote named =>
      ⟨c, dest, opening.rest.1.peer, opening.rest.2, (Option.some.inj named).symm⟩
  refine ⟨ready, ?_⟩
  refine kept_lib (P := Opening ad .server h (Told ad h c dest) (.rtr dest.remote))
    ⟨ready.1.2.2 opening.sound, Function.update_self .., opening.rest.setQp ready⟩
    (stable_opening stable_tells) fun w errno w' opening admitted => ?_
  rcases admits_modifyQp admitted with ⟨failed, rfl⟩ | ⟨rfl, qp, changed, rfl⟩
  · rw [if_pos failed]
    exact ⟨guar_refl, kept_notConnected opening.holding⟩
  rw [opening.qp] at changed
  obtain rfl := Option.some.inj changed
  have unsent : ∀ remote psn, w.qps (.handle h) ≠ .rts remote psn := fun remote psn sends => by
    have rtr : w.qps (.handle h) = .rtr dest.remote := opening.qp
    rw [rtr] at sends
    cases sends
  have sending : (contractFor ad .server h).guar w
      (w.setQp (.handle h) (.rts dest.remote myDest.psn)) :=
    guar_setQp_server unsent fun _ remote named =>
      ⟨c, dest, opening.rest.1.peer, opening.rest.2, (Option.some.inj named).symm⟩
  refine ⟨sending, kept_done
    (P := Opening ad .server h (Told ad h c dest) (.rts dest.remote myDest.psn))
    ⟨sending.1.2.2 opening.sound, Function.update_self .., opening.rest.setQp sending⟩
    (stable_opening stable_tells) fun _ opening => ⟨opening.holding, opening⟩⟩

/-- The handle has met its client and answered it. -/
def Opened (ad : Adapters N) (h : ℕ) (w : SetupWorld N) : Prop :=
  ∃ c dest own, Met ad w c h dest own ∧ ∃ order, own.message order <+: (w.links c).answered

theorem opened_later (w w' : SetupWorld N) (later : Later w w') (opened : Opened ad h w) :
    Opened ad h w' := by
  obtain ⟨c, dest, own, met, order, answered⟩ := opened
  exact ⟨c, dest, own, met.later later, order, answered.trans (later.answered c)⟩

/-- `kv_open` has opened the handle and got past its print. -/
def Announced (opts : Options) (ad : Adapters N) (h : ℕ) (w : SetupWorld N) : Prop :=
  opts.printsNull = true ∧ Opened ad h w

theorem succeeds_later {ret : Ret} (w w' : SetupWorld N) (later : Later w w')
    (opened : succeeds (Announced opts ad h) ret w) : succeeds (Announced opts ad h) ret w' := by
  cases ret with
  | exitSuccess => exact ⟨opened.1, opened_later w w' later opened.2⟩
  | exitFailure => exact True.intro

/-- `Q` holds of the result; a program that stops does so at a print of NULL, and `R` holds. -/
def printed {β : Type} (opts : Options) (R : SetupWorld N → Prop) (Q : β → SetupWorld N → Prop) :
    Except Stop β → SetupWorld N → Prop
  | .ok b => Q b
  | .error reason => fun w => opts.printsNull = false ∧ reason = .undefined ∧ R w

theorem stable_opened {party : Party N} : Stable ad party (Opened ad h) :=
  stable_of_later opened_later

/-- What is left to do with a connection when its destinations have been traded. -/
theorem Holding.serve (link : Link) (holding : Holding ad h c w)
    (state : link.state = (w.links c).state) (asked : link.asked = (w.links c).asked)
    (taken : link.taken = (w.links c).taken) (answered : link.answered = (w.links c).answered) :
    (contractFor ad .server h).guar w (w.setLink c link) ∧ Holding ad h c (w.setLink c link) := by
  have promised : (contractFor ad .server h).guar w (w.setLink c link) :=
    guar_setLink_server ((holding.1.peers c h).mpr holding.2) state asked taken (by rw [answered])
      (.inl answered)
  exact ⟨promised, promised.1.2.2 holding.1, holding.2⟩

theorem kept_answerClient (is : myDest.Of ad (.handle h))
    (opening : Opening ad .server h (Told ad h c dest) (.rts dest.remote myDest.psn) w) :
    KeptBy ad .server h (ensures fun remDest w => Holding ad h c w ∧
      given (fun _ => Opened ad h) remDest w) (Setup.answerClient h opts myDest dest) w := by
  unfold Setup.answerClient
  rw [format_of is]
  refine kept_lib opening (stable_opening stable_tells) fun w sent w' opening admitted => ?_
  obtain ⟨part, taken, rfl⟩ := admits_write_server opening.rest.1.peer admitted
  obtain ⟨within, all⟩ := takes_all taken
  have met : Met ad w c h dest myDest :=
    ⟨(opening.sound.peers c h).mpr opening.rest.1.peer, opening.rest.2, is, opening.qp⟩
  obtain ⟨promised, serving⟩ := guar_serving
    { w.links c with answered := (w.links c).answered ++ part } opening.sound
    opening.rest.1 rfl rfl rfl (List.prefix_append _ _) (.inr ⟨dest, myDest, met, opts.order, by
      rw [opening.rest.1.answered]
      exact within⟩)
  have holding : Holding ad h c
      (w.setLink c { w.links c with answered := (w.links c).answered ++ part }) :=
    ⟨promised.1.2.2 opening.sound, serving.peer⟩
  refine ⟨promised, ?_⟩
  split
  · refine kept_quiet rfl holding stable_holding fun _ w holding => ?_
    exact kept_done holding stable_holding fun w holding => ⟨holding, True.intro⟩
  next complete =>
    have message : part = myDest.message opts.order := by
      apply all
      rw [not_not.mp complete, is.length]
    have opened : Opened ad h
        (w.setLink c { w.links c with answered := (w.links c).answered ++ part }) := by
      refine ⟨c, dest, myDest, met.later promised.1.1, opts.order, ?_⟩
      rw [serving.answered]
      simp only [opening.rest.1.answered, List.nil_append, message, List.prefix_rfl]
    refine kept_lib (P := fun w => Holding ad h c w ∧ Opened ad h w) ⟨holding, opened⟩
      (stable_holding.and stable_opened) fun w got w' both admitted => ?_
    obtain ⟨holding, opened⟩ := both
    have after : (contractFor ad .server h).guar w w' ∧ Holding ad h c w' := by
      rcases admits_read_server holding.2 admitted with ⟨-, rfl⟩ | ⟨bytes, -, -, rfl⟩
      · exact ⟨guar_refl, holding⟩
      · exact holding.serve _ rfl rfl rfl rfl
    refine ⟨after.1, kept_done (P := fun w => Holding ad h c w ∧ Opened ad h w)
      ⟨after.2, opened_later _ _ after.1.1.1 opened⟩ (stable_holding.and stable_opened)
      fun _ both => both⟩

/-- NULL is returned with the connection still there. -/
theorem kept_noDest (holding : Holding ad h c w) :
    KeptBy ad .server h (ensures fun (remDest : Option Dest) w => Holding ad h c w ∧
      given (fun _ => Opened ad h) remDest w) (.done none) w :=
  kept_done holding stable_holding fun _ holding => ⟨holding, True.intro⟩

theorem kept_serverTrade (is : myDest.Of ad (.handle h))
    (opening : Opening ad .server h (fun w => Serving h c [] w ∧ (w.links c).heard = 0) .init w) :
    KeptBy ad .server h (ensures fun remDest w => Holding ad h c w ∧
      given (fun _ => Opened ad h) remDest w) (Setup.serverTrade h opts myDest) w := by
  refine kept_lib opening (stable_opening stable_unheard) fun w got w' opening admitted => ?_
  obtain ⟨serving, unheard⟩ := opening.rest
  rcases admits_read_server serving.peer admitted with ⟨rfl, rfl⟩ | ⟨bytes, rfl, heard, rfl⟩
  · exact ⟨guar_refl, kept_noDest ⟨opening.sound, serving.peer⟩⟩
  obtain ⟨promised, serving'⟩ := guar_serving
    { w.links c with heard := (w.links c).heard + bytes.length } opening.sound serving
    rfl rfl rfl List.prefix_rfl (.inl rfl)
  have sound := promised.1.2.2 opening.sound
  refine ⟨promised, ?_⟩
  dsimp only
  split
  · exact kept_noDest ⟨sound, serving'.peer⟩
  next whole =>
    rw [unheard, List.drop_zero] at heard
    obtain ⟨dest, order, rfl, asked⟩ := asked_of_heard opening.sound (not_not.mp whole) heard
    rw [serving.answered] at serving'
    have told : Opening ad .server h (Told ad h c dest) .init (w.setLink c { w.links c with
        heard := (w.links c).heard + (dest.message order).length }) :=
      ⟨sound, opening.qp, serving', asked.later promised.1.1⟩
    refine kept_quiet rfl told (stable_opening stable_tells) fun remDest w told => ?_
    split
    · exact kept_noDest ⟨told.sound, told.rest.1.peer⟩
    rw [scan_message (Nat.zero_le _)]
    refine (kept_ppConnectCtx_server told).bind fun connected w ended => ?_
    cases connected with
    | exitFailure =>
        rw [if_pos rfl]
        refine kept_quiet rfl ended.1 stable_holding fun _ w holding => ?_
        exact kept_noDest holding
    | exitSuccess =>
        rw [if_neg (by decide)]
        exact kept_answerClient is ended.2

theorem kept_ppServerExchDest (is : myDest.Of ad (.handle h))
    (opening : Opening ad .server h (Unmet h) .init w) :
    KeptBy ad .server h (ensures (given fun _ => Opened ad h))
      (Setup.ppServerExchDest h opts myDest) w := by
  refine (kept_withAddresses opening (stable_opening stable_unmet)
    fun n w opening => kept_bindLoop n opening).bind fun bound w opening => ?_
  split
  · exact kept_none
  refine kept_lib opening (stable_opening stable_unmet) fun w errno w' opening admitted => ?_
  obtain ⟨listening, rfl⟩ := admits_listen admitted
  have promised := @guar_listen N ad w h listening
  refine ⟨promised, ?_⟩
  refine kept_lib (P := Opening ad .server h (Unmet h) .init)
    ⟨promised.1.2.2 opening.sound, opening.qp, opening.rest⟩ (stable_opening stable_unmet)
    fun w got w' opening admitted => ?_
  rcases admits_accept admitted with ⟨rfl, rfl⟩ | ⟨c, rfl, queued, rfl⟩
  · refine ⟨guar_refl, ?_⟩
    refine kept_lib opening (stable_opening stable_unmet) fun w _ w' opening admitted => ?_
    obtain rfl := admits_close_server admitted
    exact ⟨guar_stopListening, kept_none⟩
  have promised := @guar_accept N ad w c h queued opening.rest
  have fresh := opening.sound.unheard c fun i accepted => by
    rw [queued] at accepted
    cases accepted
  refine ⟨promised, ?_⟩
  refine kept_lib
    (P := Opening ad .server h (fun w => Serving h c [] w ∧ (w.links c).heard = 0) .init)
    ⟨promised.1.2.2 opening.sound, opening.qp, ⟨?_, ?_⟩, ?_⟩ (stable_opening stable_unheard)
    fun w _ w' opening admitted => ?_
  · simp
  · simpa [SetupWorld.setLink] using fresh.2
  · simpa [SetupWorld.setLink] using fresh.1
  obtain rfl := admits_close_server admitted
  have accepted := (opening.sound.peers c h).mpr opening.rest.1.peer
  refine ⟨guar_stopListening, ?_⟩
  refine (kept_serverTrade is (opening.stopListening fun w' peer links _ => ?_)).bind
    fun remDest w traded => ?_
  · refine ⟨⟨?_, ?_⟩, ?_⟩
    · rw [peer]
      exact opening.rest.1.peer
    · rw [links c h accepted]
      exact opening.rest.1.answered
    · rw [links c h accepted]
      exact opening.rest.2
  have stable : Stable ad .server fun w => Holding ad h c w ∧
      given (fun _ => Opened ad h) remDest w := by
    cases remDest with
    | none => exact stable_holding.and fun _ _ _ _ => True.intro
    | some dest => exact stable_holding.and stable_opened
  refine kept_lib traded stable fun w _ w' traded admitted => ?_
  obtain rfl := admits_drop_server traded.1.2 admitted
  obtain ⟨promised, -⟩ := traded.1.serve { w.links c with dropped := true } rfl rfl rfl rfl
  refine ⟨promised, ?_⟩
  cases remDest with
  | none => exact kept_none
  | some dest =>
      exact kept_done (opened_later _ _ promised.1.1 traded.2) stable_opened fun _ opened => opened

theorem kept_initConnection_server (opening : Opening ad .server h (Unmet h) .absent w) :
    KeptBy ad .server h (ensures (succeeds (Opened ad h))) (Setup.initConnection h opts true) w := by
  refine (kept_openDevice stable_unmet (fun _ _ unmet => unmet) opening).bind fun ctx w opened => ?_
  cases ctx with
  | none => exact kept_failure
  | some ctx =>
      obtain ⟨num, opening⟩ := opened
      refine (kept_localDest stable_unmet opening num).bind fun myDest w told => ?_
      cases myDest with
      | none => exact kept_failure
      | some myDest =>
          obtain ⟨is, opening⟩ := told
          refine (kept_ppServerExchDest is opening).bind fun remDest w met => ?_
          cases remDest with
          | none => exact kept_failure
          | some dest => exact kept_done met stable_opened fun _ opened => opened

/-- The server keeps its promises while it opens a handle. -/
theorem kept_kvOpen_server (opening : Opening ad .server h (Unmet h) .absent w) :
    KeptBy ad .server h (printed opts (Opened ad h) (succeeds (Announced opts ad h)))
      (Setup.kvOpen h opts true) w := by
  have first : KeptBy ad .server h (ensures (succeeds (Opened ad h)))
      (Setup.initConnection h opts true) w := kept_initConnection_server opening
  cases prints : opts.printsNull with
  | true =>
      rw [Setup.kvOpen_eq fun _ => prints]
      refine Keeps.mono first fun out w holds => ?_
      cases out with
      | error reason => exact holds.elim
      | ok ret =>
          cases ret with
          | exitFailure => exact True.intro
          | exitSuccess => exact ⟨prints, holds⟩
  | false =>
      refine Keeps.bind first (fun _ _ no => no.elim) fun ret w opened => ?_
      cases ret with
      | exitFailure => exact fun _ _ => True.intro
      | exitSuccess =>
          change Keeps _ _ _ (if true = true ∧ opts.printsNull = false then .stop Stop.undefined
            else .done Ret.exitSuccess) w
          rw [if_pos ⟨rfl, prints⟩]
          exact fun w' rely => ⟨prints, rfl, stable_opened w w' rely opened⟩

/-- Handles that are still to be opened. -/
structure Untouched (ad : Adapters N) (handles : List ℕ) (w : SetupWorld N) : Prop where
  sound : Sound ad w
  qps : ∀ h ∈ handles, w.qps (.handle h) = .absent
  peers : ∀ h ∈ handles, w.peer h = none

/-- The server keeps its promises while it opens its handles, and each that it has opened has met
a client. -/
theorem keeps_openHandles {mine : ℕ → Prop} {handles : List ℕ} (nodup : handles.Nodup)
    (own : ∀ h ∈ handles, mine h) (untouched : Untouched ad handles w) :
    Keeps (admits ad .server) (contract ad mine .server)
      (printed opts (fun w => ∃ h ∈ handles, Opened ad h w) fun rets w =>
        List.Forall₂ (fun h ret => succeeds (Announced opts ad h) ret w) handles rets)
      (Setup.openHandles opts handles) w := by
  induction handles generalizing w with
  | nil => exact fun w' _ => .nil
  | cons h rest ih =>
      obtain ⟨new, nodup⟩ := List.nodup_cons.mp nodup
      have first : KeptBy ad .server h (printed opts (Opened ad h) (succeeds (Announced opts ad h)))
          (Setup.kvOpen h opts true) w :=
        kept_kvOpen_server ⟨untouched.sound, untouched.qps h List.mem_cons_self,
          untouched.peers h List.mem_cons_self⟩
      have framed := first.frame (Untouched ad rest)
        ⟨untouched.sound, fun j member => untouched.qps j (List.mem_cons_of_mem h member),
          fun j member => untouched.peers j (List.mem_cons_of_mem h member)⟩
        (fun w w' rely untouched => ⟨rely.2.2 untouched.sound,
          fun j member => (rely.2.1.1 j).trans (untouched.qps j member),
          fun j member => (congrFun rely.2.1.2.1 j).trans (untouched.peers j member)⟩)
        (fun w w' guar untouched => ⟨guar.1.2.2 untouched.sound,
          fun j member => ((guar.2 j fun same => new (same.2 ▸ member)).1).trans
            (untouched.qps j member),
          fun j member => ((guar.2 j fun same => new (same.2 ▸ member)).2).trans
            (untouched.peers j member)⟩)
      have weaker : ∀ w w', (contractFor ad .server h).guar w w' →
          (contract ad mine .server).guar w w' := fun w w' guar =>
        ⟨guar.1, fun j other => guar.2 j fun same => other (same.2 ▸ own h List.mem_cons_self)⟩
      have promised : Keeps (admits ad .server) (contract ad mine .server) (fun out w =>
          printed opts (Opened ad h) (succeeds (Announced opts ad h)) out w ∧ Untouched ad rest w)
          (Setup.kvOpen h opts true) w := framed.weaken (fun _ _ => id) weaker
      refine promised.bind (fun _ _ stopped => ?_) fun ret w opened => ?_
      · obtain ⟨⟨prints, reason, opened⟩, -⟩ := stopped
        exact ⟨prints, reason, h, List.mem_cons_self, opened⟩
      refine ((ih nodup (fun j member => own j (List.mem_cons_of_mem h member)) opened.2).frame
        (succeeds (Announced opts ad h) ret) opened.1 (fun w w' rely => succeeds_later w w' rely.1)
        fun w w' guar => succeeds_later w w' guar.1.1).bind (fun _ _ stopped => ?_)
          fun rets w both => ?_
      · obtain ⟨⟨prints, reason, j, member, opened⟩, -⟩ := stopped
        exact ⟨prints, reason, j, List.mem_cons_of_mem h member, opened⟩
      intro w' rely
      exact .cons (succeeds_later w w' rely.1 both.2)
        (both.1.imp fun h ret => succeeds_later w w' rely.1)

end Server

/-! ## The runs -/

section Runs

variable {opts : Party N → Options} {handles : List ℕ} {s : SetupState N}
  {trace : List (Turn (Party N) SetupCall SetupCall.Answer)}

/-- What a party has achieved when it ends. -/
def achieves (ad : Adapters N) (opts : Options) (handles : List ℕ) :
    (party : Party N) → Except Stop party.Result → SetupWorld N → Prop
  | .server => printed opts (fun w => ∃ h ∈ handles, Opened ad h w) fun rets w =>
      List.Forall₂ (fun h ret => succeeds (Announced opts ad h) ret w) handles rets
  | .client c => ensures (succeeds fun w => ∃ i, Joined ad w c i)

theorem sound_start : Sound ad (SetupWorld.start N) where
  peers _ _ := ⟨nofun, nofun⟩
  unheard _ _ := ⟨rfl, rfl⟩
  asks c := ⟨.little, ⟨(ad.lid (.client c)).toUInt32, ad.qpn (.client c), 0, .zero⟩,
    ⟨rfl, rfl, Nat.two_pow_pos 24⟩, List.nil_prefix⟩
  answers _ some := absurd rfl some
  clients _ _ := nofun
  handles _ _ := nofun

theorem keeps_start (nodup : handles.Nodup) (party : Party N) :
    Keeps (admits ad party) (contract ad (· ∈ handles) party)
      (achieves ad (opts .server) handles party)
      ((startOpening opts handles).programs party) (startOpening opts handles).world := by
  cases party with
  | server =>
      exact keeps_openHandles nodup (fun _ member => member)
        ⟨sound_start, fun _ _ => rfl, fun _ _ => rfl⟩
  | client c =>
      refine Keeps.weaken (kept_kvOpen_client (h := 0) ⟨sound_start, rfl, rfl, rfl⟩) (fun _ _ => id) ?_
      exact fun w w' guar => ⟨guar.1, fun j _ => guar.2 j fun same => by cases same.1⟩

variable (nodup : handles.Nodup) (run : (handshake ad opts handles).Run always trace s)

include nodup run

theorem keeps_of_handshake (party : Party N) :
    Keeps (admits ad party) (contract ad (· ∈ handles) party)
      (achieves ad (opts .server) handles party) (s.programs party) s.world :=
  keeps_of_run contract_relied (keeps_start nodup) run party

theorem sound_of_handshake : Sound ad s.world ∧ ∀ i c, s.world.peer i = some c → i ∈ handles := by
  refine world_of_run contract_relied (keeps_start nodup)
    (fun w => Sound ad w ∧ ∀ i c, w.peer i = some c → i ∈ handles)
    ⟨sound_start, fun i c => nofun⟩ (fun party w w' guar holds => ?_) run
  refine ⟨guar.1.2.2 holds.1, fun i c peer => ?_⟩
  by_contra other
  rw [(guar.2 i other).2] at peer
  exact other (holds.2 i c peer)

theorem exists_joined {c : Fin N} (opened : s.programs (.client c) = .done .exitSuccess) :
    ∃ i, Joined ad s.world c i :=
  post_of_run contract_relied (keeps_start nodup) run (i := .client c) opened

/-- Clients that have opened their handles are joined with different handles of the server. -/
theorem joined_of_run :
    ∃ handle : Fin N → ℕ,
      Set.InjOn handle {c | s.programs (.client c) = .done .exitSuccess} ∧
      ∀ c, s.programs (.client c) = .done .exitSuccess →
        handle c ∈ handles ∧ Joined ad s.world c (handle c) := by
  classical
  have joined : ∀ c, s.programs (.client c) = .done .exitSuccess →
      ∃ i, Joined ad s.world c i := fun c => exists_joined nodup run
  refine ⟨fun c => if opened : s.programs (.client c) = .done .exitSuccess
    then (joined c opened).choose else 0, ?_, fun c opened => ?_⟩
  · intro c opened c' opened' same
    simp only [dif_pos (show s.programs (.client c) = .done .exitSuccess from opened),
      dif_pos (show s.programs (.client c') = .done .exitSuccess from opened')] at same
    have first := (joined c opened).choose_spec.peer
    rw [same, (joined c' opened').choose_spec.peer] at first
    exact (Option.some.inj first).symm
  · simp only [dif_pos opened]
    have spec := (joined c opened).choose_spec
    exact ⟨(sound_of_handshake nodup run).2 _ c spec.peer, spec⟩

/-- A client whose queue pair is connected is connected with a handle that sends to it already. -/
theorem serverFirst_of_run {c : Fin N} {remote : Remote}
    (connected : (s.world.qps (.client c)).remote = some remote) :
    ∃ i ∈ handles, ∃ psn psn', s.world.peer i = some c ∧
      remote = ⟨ad.qpn (.handle i), psn', ad.lid (.handle i)⟩ ∧
      s.world.qps (.handle i) = .rts ⟨ad.qpn (.client c), psn, ad.lid (.client c)⟩ psn' := by
  obtain ⟨sound, mine⟩ := sound_of_handshake nodup run
  obtain ⟨i, dest, own, met, rfl, -⟩ := sound.clients c remote connected
  have peer := (sound.peers c i).mp met.1
  refine ⟨i, mine i c peer, dest.psn, own.psn, peer, met.2.2.1.remote, ?_⟩
  rw [met.2.2.2, met.2.1.1.remote]

/-- The handle is connected with the queue pair of a client, and no other handle has met it. -/
theorem opened_world {i : ℕ} (opened : Opened ad i s.world) :
    ∃ c, s.world.peer i = some c ∧ (∀ j, s.world.peer j = some c → j = i) ∧ ∃ psn psn',
      s.world.qps (.handle i) = .rts ⟨ad.qpn (.client c), psn, ad.lid (.client c)⟩ psn' := by
  obtain ⟨sound, -⟩ := sound_of_handshake nodup run
  obtain ⟨c, dest, own, met, -⟩ := opened
  refine ⟨c, (sound.peers c i).mp met.1, fun j peer => ?_, dest.psn, own.psn, ?_⟩
  · have other := (sound.peers c j).mpr peer
    rw [met.1] at other
    injection other with same
    exact same.symm
  · rw [met.2.2.2, met.2.1.1.remote]

/-- No client ends because something is undefined, and the server only where NULL cannot be
printed, at the print after a handle was connected with a client. When the server has gone through
its handles, those that it has opened are connected with the queue pairs of different clients,
and there are such only where NULL can be printed. -/
theorem opened_of_run :
    (∀ c reason, s.programs (.client c) ≠ .stop reason) ∧
    (∀ reason, s.programs .server = .stop reason → reason = .undefined ∧
      (opts .server).printsNull = false ∧ ∃ i ∈ handles, ∃ c, s.world.peer i = some c ∧
        ∃ psn psn', s.world.qps (.handle i) =
          .rts ⟨ad.qpn (.client c), psn, ad.lid (.client c)⟩ psn') ∧
    ∀ rets, s.programs .server = .done rets →
      List.Forall₂ (fun i ret => ret = .exitSuccess → (opts .server).printsNull = true ∧
        ∃ c, s.world.peer i = some c ∧
          (∀ j, s.world.peer j = some c → j = i) ∧ ∃ psn psn',
            s.world.qps (.handle i) = .rts ⟨ad.qpn (.client c), psn, ad.lid (.client c)⟩ psn')
        handles rets := by
  refine ⟨fun c reason stopped => ?_, fun reason stopped => ?_, fun rets ended => ?_⟩
  · have keeps := keeps_of_handshake nodup run (.client c)
    rw [stopped] at keeps
    exact keeps s.world ((contract ad (· ∈ handles) (.client c)).refl _)
  · have keeps := keeps_of_handshake nodup run .server
    rw [stopped] at keeps
    obtain ⟨prints, undefined, i, member, opened⟩ :=
      keeps s.world ((contract ad (· ∈ handles) .server).refl _)
    obtain ⟨c, peer, -, qps⟩ := opened_world nodup run opened
    exact ⟨undefined, prints, i, member, c, peer, qps⟩
  · have opened : List.Forall₂ (fun h ret => succeeds (Announced (opts .server) ad h) ret s.world)
        handles rets := post_of_run contract_relied (keeps_start nodup) run (i := .server) ended
    refine opened.imp fun i ret holds success => ?_
    subst success
    exact ⟨holds.1, opened_world nodup run holds.2⟩

end Runs

/-! ## A run -/

/-- An answer that lets a call succeed. -/
def SetupWorld.oblige (ad : Adapters N) (party : Party N) (w : SetupWorld N) (h : ℕ) :
    (op : SetupOp) → op.Answer
  | .getDeviceList | .getaddrinfo => some 1
  | .accept => ((List.finRange N).find? fun c => (w.links c).state = .queued).map Fin.val
  | .sysconf => 4096
  | .calloc | .mallocBuf _ | .openDevice | .createCompChannel | .allocPd | .regMr _
  | .createCq _ | .asprintf _ | .socket | .connect | .bind | .mallocDest => true
  | .createQp _ _ => some (ad.qpn (party.site h))
  | .queryPort _ => some ⟨ad.lid (party.site h), true⟩
  | .queryGid _ _ => some .zero
  | .lrand48 => 0x1234567
  | .read _ n =>
    match party with
    | .server =>
      match w.peer h with
      | none => none
      | some c => some (((w.links c).asked.drop (w.links c).heard).take n)
    | .client c => some (((w.links c).answered.drop (w.links c).taken).take n)
  | .write _ bytes => (bytes.length : Int)
  | .modifyQp _ | .postRecv | .reqNotifyCq | .listen | .destroyQp | .destroyCq
  | .deregMr | .deallocPd | .destroyCompChannel | .closeDevice => (0 : Int)
  | .setsockopt | .close _ | .freeaddrinfo | .freeService | .freeDest | .freeBuf | .freeCtx => ()

/-- The turns of the parties in an order, every call being obliged. -/
def obligedTurns (ad : Adapters N) :
    SetupState N → List (Party N) → List (Turn (Party N) SetupCall SetupCall.Answer)
  | _, [] => []
  | s, party :: rest =>
    match s.programs party with
    | .call call _ =>
      let turn : Turn (Party N) SetupCall SetupCall.Answer :=
        (party, ⟨call, s.world.oblige ad party call.handle call.op⟩)
      match Joint.next (admits ad) s turn with
      | none => []
      | some (s', _) => turn :: obligedTurns ad s' rest
    | _ => []

def isDone {β : Type} [DecidableEq β] (p : Setup β) (b : β) : Bool :=
  match p with
  | .done result => result = b
  | _ => false

theorem eq_of_isDone {β : Type} [DecidableEq β] {p : Setup β} {b : β}
    (ended : isDone p b = true) : p = .done b := by
  cases p with
  | done result => rw [of_decide_eq_true ended]
  | stop reason => cases ended
  | call call next => cases ended

/-- Adapters of one subnet. -/
def twoAdapters : Adapters 2 where
  lid
    | .handle i => (1 + i).toUInt16
    | .client c => (5 + c.val).toUInt16
  qpn
    | .handle i => UInt32.ofNat (i % 2 + 0x11)
    | .client c => UInt32.ofNat (c.val + 0xabcde)
  narrow
    | .handle i => by
        rcases Nat.mod_two_eq_zero_or_one i with even | odd
        · simp [even]
        · simp [odd]
    | .client c => by
        revert c
        decide

/-- One receive, and hosts of both byte orders. -/
def twoOptions : Party 2 → Options
  | .server => { Options.source .little true with rxDepth := 1 }
  | .client _ => { Options.source .big true with rxDepth := 1 }

/-- The clients come one after the other, each when the server listens for it. -/
def twoOrder : List (Party 2) :=
  [0, 1].flatMap fun c =>
    List.replicate 21 .server ++ List.replicate 20 (.client c) ++ List.replicate 7 .server ++
      List.replicate 6 (.client c) ++ List.replicate 2 .server

/-- Both clients get through, and so does the server. -/
theorem twoOrder_opens : ∃ trace s,
    (handshake twoAdapters twoOptions [0, 1]).Run always trace s ∧
      (∀ c, s.programs (.client c) = .done .exitSuccess) ∧
      s.programs .server = .done [.exitSuccess, .exitSuccess] := by
  obtain ⟨trace, s, run, ended⟩ := Machine.Run.of_exec (handshake twoAdapters twoOptions [0, 1])
    always (obligedTurns twoAdapters (startOpening twoOptions [0, 1]) twoOrder)
    (fun _ s => isDone (s.programs (.client 0)) .exitSuccess &&
      isDone (s.programs (.client 1)) .exitSuccess &&
      isDone (s.programs .server) [.exitSuccess, .exitSuccess]) (by decide +kernel)
  simp only [Bool.and_eq_true] at ended
  refine ⟨trace, s, run, fun c => ?_, eq_of_isDone ended.2⟩
  fin_cases c
  · exact eq_of_isDone ended.1.1
  · exact eq_of_isDone ended.1.2

theorem joined_of_run_two : ∃ trace s,
    (handshake twoAdapters twoOptions [0, 1]).Run always trace s ∧
      ∃ handle : Fin 2 → ℕ, Function.Injective handle ∧
        ∀ c, handle c ∈ [0, 1] ∧ Joined twoAdapters s.world c (handle c) := by
  obtain ⟨trace, s, run, clients, -⟩ := twoOrder_opens
  obtain ⟨handle, different, joined⟩ := joined_of_run (by decide) run
  exact ⟨trace, s, run, handle, fun c c' same => different (clients c) (clients c') same,
    fun c => joined c (clients c)⟩

theorem serverFirst_of_run_two : ∃ trace s,
    (handshake twoAdapters twoOptions [0, 1]).Run always trace s ∧
      ∃ i ∈ [0, 1], s.world.peer i = some 1 ∧
        ((s.world.qps (.handle i)).remote.map Remote.destQpNum) = some (0xabcdf : UInt32) := by
  obtain ⟨trace, s, run, clients, -⟩ := twoOrder_opens
  obtain ⟨j, joined⟩ := exists_joined (by decide) run (clients 1)
  obtain ⟨psn, psn', qp, -⟩ := joined.qps
  obtain ⟨i, mine, psn₁, psn₂, peer, -, handle⟩ := serverFirst_of_run (by decide) run
    (congrArg QpState.remote qp)
  refine ⟨trace, s, run, i, mine, peer, ?_⟩
  rw [handle]
  rfl

theorem opened_of_run_two : ∃ trace s,
    (handshake twoAdapters twoOptions [0, 1]).Run always trace s ∧
      ∃ c, s.world.peer 0 = some c ∧ s.world.peer 1 ≠ some c := by
  obtain ⟨trace, s, run, -, server⟩ := twoOrder_opens
  obtain ⟨-, -, opened⟩ := opened_of_run (by decide) run
  obtain ⟨-, c, peer, only, -⟩ := (List.forall₂_cons.mp (opened _ server)).1 rfl
  exact ⟨trace, s, run, c, peer, fun same => absurd (only 1 same) (by decide)⟩

end RdmaWiki
