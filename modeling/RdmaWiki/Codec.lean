import RdmaWiki.Heap

/-!
The request codec.

A call is faithful when every text that it formats stays inside its buffer and
the server decodes every message as the request that it stands for. `strtok`
skips leading delimiters and cuts at the next one, so this is so exactly for
keys and eager values that are words and fit (`codec_faithful_iff`), and such a
set stores exactly its value under exactly its key. A key with a `':'` fits the
buffers and is decoded as another key (`colon_key_not_faithful`).
-/

namespace RdmaWiki

open CText StepMachine

/-- The messages of a call, each with the request that it stands for. -/
def Call.messages : Call → List (Bytes × Request)
  | .kvSet key value =>
    (flagKey .as key.bytes, .setAsk key.bytes) ::
      if isEager value.bytes then
        [(flagKeyText .se key.bytes value.bytes, .setEager key.bytes value.bytes)]
      else
        [(flagKeyText .sr key.bytes (sizeText value.bytes),
            .setRendezvous key.bytes value.bytes.length),
          (flagKey .fs key.bytes, .setFin key.bytes)]
  | .kvGet key =>
    [(flagKey .ag key.bytes, .getAsk key.bytes), (flagKey .g0 key.bytes, .get key.bytes),
      (flagKey .fg key.bytes, .getFin key.bytes)]

/-- Every text stays inside its buffer and every message is decoded as what it stands
for. -/
def Call.Faithful (call : Call) : Prop :=
  call.fits = true ∧ ∀ message ∈ call.messages,
    parseRequest (onWire message.1) = .request message.2

/-- The key is a word that fits, and so is a value that is sent in a message; the
length of any other value has at most nine digits. -/
def Call.Clean : Call → Prop
  | .kvSet key value =>
    IsWord key.bytes ∧
      if isEager value.bytes then
        IsWord value.bytes ∧ key.bytes.length + value.bytes.length + 6 ≤ 4 * KB
      else
        key.bytes.length + (sizeText value.bytes).length + 6 ≤ 4 * KB ∧
          value.bytes.length < 10 ^ 9
  | .kvGet key => IsWord key.bytes ∧ key.bytes.length + 6 ≤ 4 * KB

instance (call : Call) : Decidable call.Clean := by
  unfold Call.Clean
  split <;> infer_instance

/-- In every reachable state the message of a set that carries its value, or asks for
the memory to write it to, gives the record of exactly its key exactly its value. -/
def Call.StoresExactly : Call → Prop
  | .kvGet _ => True
  | .kvSet key value => ∀ N trace, ∀ cfg : Config N, (protocol N).Run always trace cfg →
    ∀ (c : Fin N) (addr : UInt64) (rkey : UInt32), cfg.mem.block addr = none →
      if isEager value.bytes then
        ∃ ret w item v, parseData (.reliable N addr rkey) ⟨cfg.db, cfg.mem, []⟩
            (onWire (flagKeyText .se key.bytes value.bytes)) c = some (ret, w) ∧
          w.db.find = Function.update cfg.db.find key.bytes (some item) ∧
          item.value = some v ∧ w.mem.block v.value = some (value.bytes ++ [0])
      else
        ∃ ret w item v, parseData (.reliable N addr rkey) ⟨cfg.db, cfg.mem, []⟩
            (onWire (flagKeyText .sr key.bytes (sizeText value.bytes))) c = some (ret, w) ∧
          w.db.find = Function.update cfg.db.find key.bytes (some item) ∧
          item.value = some v ∧ w.sent = [(c, .region rkey addr)] ∧
          (w.mem.rdmaWrite addr rkey value.bytes).block v.value = some (value.bytes ++ [0])

section Lengths

variable {key value : CString}

theorem Call.fits_kvGet : (Call.kvGet key).fits = true ↔ key.bytes.length + 6 ≤ 4 * KB := by
  rw [Call.fits, decide_eq_true_iff, length_flagKey]
  exact Iff.rfl

theorem Call.fits_eager (eager : isEager value.bytes = true) :
    (Call.kvSet key value).fits = true ↔
      key.bytes.length + value.bytes.length + 6 ≤ 4 * KB := by
  simp only [Call.fits, eager, if_true, Bool.and_eq_true, decide_eq_true_iff, length_flagKey,
    length_flagKeyText, bufSize]
  omega

theorem Call.fits_large (large : isEager value.bytes = false) :
    (Call.kvSet key value).fits = true ↔
      key.bytes.length + (sizeText value.bytes).length + 6 ≤ 4 * KB ∧
        value.bytes.length < 10 ^ 9 := by
  have digits : (sizeText value.bytes).length ≤ 9 ↔ value.bytes.length < 10 ^ 9 :=
    length_decimal_le_iff (by decide)
  rw [← digits]
  simp only [Call.fits, large, Bool.false_eq_true, if_false, Bool.and_eq_true,
    decide_eq_true_iff, length_flagKey, length_flagKeyText, bufSize]
  omega

end Lengths

/-! ## Decoding -/

section Decoding

variable {key value : CString}

theorem key_decoded_iff (flag : Flag) (request : Bytes → Request)
    (short : ∀ k, flag.shortRequest k = some (request k))
    (injective : ∀ k k', request k = request k' → k = k') (fits : key.bytes.length < 4 * KB) :
    parseRequest (onWire (flagKey flag key.bytes)) = .request (request key.bytes) ↔
      IsWord key.bytes := by
  rw [parseRequest_onWire, parseRequest_flagKey_iff key.noNul short injective]
  exact and_iff_left fits

theorem Call.faithful_kvGet : (Call.kvGet key).Faithful ↔ (Call.kvGet key).Clean := by
  rw [Call.Faithful, Call.fits_kvGet, Call.Clean, and_comm]
  apply and_congr_left
  intro fits
  have within : key.bytes.length < 4 * KB := by omega
  simp only [Call.messages, List.forall_mem_cons]
  rw [key_decoded_iff .ag .getAsk (fun _ => rfl) (fun _ _ => Request.getAsk.inj) within,
    key_decoded_iff .g0 .get (fun _ => rfl) (fun _ _ => Request.get.inj) within,
    key_decoded_iff .fg .getFin (fun _ => rfl) (fun _ _ => Request.getFin.inj) within]
  simp

theorem Call.faithful_eager (eager : isEager value.bytes = true) :
    (Call.kvSet key value).Faithful ↔ (Call.kvSet key value).Clean := by
  rw [Call.Faithful, Call.fits_eager eager, Call.Clean, if_pos eager, ← and_assoc, and_comm]
  apply and_congr_left
  intro fits
  have within : key.bytes.length < 4 * KB := by omega
  simp only [Call.messages, eager, if_true, List.forall_mem_cons]
  rw [key_decoded_iff .as .setAsk (fun _ => rfl) (fun _ _ => Request.setAsk.inj) within,
    parseRequest_onWire, parseRequest_setEager_iff key.noNul value.noNul, and_iff_left within]
  simp

theorem Call.faithful_large (large : isEager value.bytes = false) :
    (Call.kvSet key value).Faithful ↔ (Call.kvSet key value).Clean := by
  rw [Call.Faithful, Call.fits_large large, Call.Clean, large, if_neg (by simp), and_comm]
  refine and_congr_left fun ⟨fits, short⟩ => ?_
  have within : key.bytes.length < 4 * KB := by omega
  have sized : atoi (sizeText value.bytes) = value.bytes.length := atoi_decimal (by omega)
  simp only [Call.messages, large, Bool.false_eq_true, if_false, List.forall_mem_cons]
  rw [key_decoded_iff .as .setAsk (fun _ => rfl) (fun _ _ => Request.setAsk.inj) within,
    key_decoded_iff .fs .setFin (fun _ => rfl) (fun _ _ => Request.setFin.inj) within,
    parseRequest_onWire, parseRequest_setRendezvous_iff key.noNul, and_iff_left within,
    and_iff_left sized]
  simp

theorem Call.faithful_iff_clean (call : Call) : call.Faithful ↔ call.Clean := by
  cases call with
  | kvGet key => exact Call.faithful_kvGet
  | kvSet key value =>
      cases eager : isEager value.bytes with
      | true => exact Call.faithful_eager eager
      | false => exact Call.faithful_large eager

end Decoding

/-! ## Storing -/

theorem Call.Faithful.storesExactly {call : Call} (faithful : call.Faithful) :
    call.StoresExactly := by
  cases call with
  | kvGet key => exact True.intro
  | kvSet key value =>
      intro N trace cfg run c addr rkey free
      have heap := heap_of_run run
      split
      next eager =>
        have decoded := faithful.2 (flagKeyText .se key.bytes value.bytes,
          .setEager key.bytes value.bytes) (by simp [Call.messages, eager])
        obtain ⟨w, handled, becomes⟩ :=
          handle_setEager addr rkey ⟨cfg.db, cfg.mem, []⟩ c key.bytes value.bytes
        refine ⟨.exitSuccess, w, _, ⟨addr, value.bytes.length, false, none⟩, ?_, becomes.find, ?_,
          ?_⟩
        · rw [parseData, decoded]
          exact handled
        · rw [Item.woken_value]
        · rw [becomes.mem, record_value, (heap.release_fresh _ free).1]
          simp [Mem.alloc]
      next large =>
        have decoded := faithful.2 (flagKeyText .sr key.bytes (sizeText value.bytes),
          .setRendezvous key.bytes value.bytes.length) (by simp [Call.messages, large])
        have short := Call.size_fits faithful.1 (by simpa using large)
        have bounded : (value.bytes.length : Int) < intMax := by
          unfold intMax
          omega
        obtain ⟨w, handled, becomes⟩ :=
          handle_setRendezvous addr rkey ⟨cfg.db, cfg.mem, []⟩ c key.bytes bounded
        refine ⟨.exitSuccess, w, _, ⟨addr, value.bytes.length, true, some ⟨rkey, addr⟩⟩, ?_,
          becomes.find, rfl, becomes.sent, ?_⟩
        · rw [parseData, decoded]
          exact handled
        · -- the region is as long as the value
          obtain ⟨block, region⟩ := heap.release_fresh (k := key.bytes)
            ((cfg.mem.alloc addr (List.replicate (value.bytes.length + 1) 0)).register addr rkey
              value.bytes.length) free
          have zeroed : w.mem.block addr = some (List.replicate (value.bytes.length + 1) 0) := by
            rw [becomes.mem, record_value, block]
            simp [Mem.alloc, Mem.register]
          have registered : w.mem.region addr = some (rkey, value.bytes.length) := by
            rw [becomes.mem, record_value, region]
            simp [Mem.register]
          simp only [Mem.rdmaWrite, zeroed, registered]
          rw [if_pos ⟨True.intro, le_refl _⟩, List.replicate_succ', List.drop_left']
          · exact Function.update_self ..
          · exact List.length_replicate

/-- The codec is faithful for a call, names the record by the key and stores exactly the
value under exactly the key, if and only if the call is clean. -/
theorem codec_faithful_iff (call : Call) :
    (call.Faithful ∧ serverKey call.key.bytes = some call.key.bytes ∧ call.StoresExactly) ↔
      call.Clean := by
  rw [← call.faithful_iff_clean]
  refine ⟨And.left, fun faithful => ⟨faithful, ?_, faithful.storesExactly⟩⟩
  have clean := call.faithful_iff_clean.mp faithful
  cases call with
  | kvSet key value => exact serverKey_isWord clean.1
  | kvGet key => exact serverKey_isWord clean.1

/-- The key `a:b` fits and is decoded as the key `a`. -/
theorem colon_key_not_faithful : ¬ ∀ call : Call, call.fits = true → call.Faithful := by
  intro allFaithful
  have faithful := allFaithful (.kvGet ⟨ascii ['a', ':', 'b'], by decide⟩) (by decide)
  exact absurd ((Call.faithful_iff_clean _).mp faithful) (by decide)

end RdmaWiki
