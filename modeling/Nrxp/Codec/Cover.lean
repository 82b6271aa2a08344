import Nrxp.Codec.Sent
import Nrxp.Tls.Decoy

/-!
# The cover flight

The records of a cover flight as the codec emits them. A record with an empty frame has length 41
already, and `encodeCover` clamps what is asked of it to that; `encodeCovers` says which lengths a
list of requests comes out with. The first record of every flight is to be 30 bytes long, so that no
flight goes out as it was computed.
-/

variable {A : ChaCha20Poly1305}

/-- The length a cover record is given: the one that was asked for, clamped. -/
def coverLen (targetRecordLen : ℕ) : ℕ :=
  max TxCodec.emptyCoverRecord (min targetRecordLen maxRecordLen)

/-- The length fields of records. -/
def lengthFields (rs : List Record) : List ℕ :=
  rs.map fun r ↦ TlsRecord.lengthField (TlsBridge.packAppData r.cipher)

/-- Cover frames are asked for, one after the other, at some times. -/
def coverCalls (requests : List (UInt64 × ℕ)) : List (UInt64 × EncodeCall) :=
  requests.map fun request ↦ (request.1, .cover request.2)

theorem coverLen_le (targetRecordLen : ℕ) : coverLen targetRecordLen ≤ maxRecordLen :=
  Nat.max_le.mpr ⟨by decide, Nat.min_le_right _ _⟩

/-- One cover frame is one record of the clamped length. -/
theorem TxCodec.encodeCover_eq (hA : A.IsCorrect) (hmac : HmacSha256) (now : UInt64)
    (targetRecordLen : ℕ) (tx : TxCodec) :
    ∃ r tx', tx.encodeCover A hmac now targetRecordLen
        = (.ok (TlsBridge.packAppData r.cipher), tx') ∧
      Sends A tx.crypto [r] tx'.crypto ∧ lengthFields [r] = [coverLen targetRecordLen] := by
  let pad := coverLen targetRecordLen - emptyCoverRecord
  have hle := coverLen_le targetRecordLen
  have hlen : frameHeaderSize + pad + aeadTagLen = coverLen targetRecordLen := by
    have hge : emptyCoverRecord ≤ coverLen targetRecordLen := Nat.le_max_left _ _
    simp only [emptyCoverRecord, pad] at hge ⊢
    omega
  have hmax : maxRecordLen < 2 ^ 16 := by decide
  have hlimit : maxRecordLen < aeadPlainLimit := by decide
  have hwire : ([⟨0, .cover, []⟩].map Item.wireLen).sum = frameHeaderSize := rfl
  have hrun : tx.encodeCover A hmac now targetRecordLen
      = flushRecord A (tx.auth.generateCurrentTag hmac now) [⟨0, .cover, []⟩] pad tx := rfl
  have hne : [Item.mk 0 .cover []] ≠ [] := List.cons_ne_nil _ _
  rw [hrun]
  rcases flushRecord_cases (A := A) (tx.auth.generateCurrentTag hmac now) hne pad tx with
    ⟨r, tx', hflush, hsends, -, -, hplain⟩ | ⟨plain, tx', -, -, henc, hplain⟩ <;>
    rw [hwire, Nat.mod_eq_of_lt (by omega)] at hplain
  · obtain ⟨-, -, _, _, _, henc⟩ := hsends.forall_mem (List.mem_singleton_self r)
    have hcipher : r.cipher.length = coverLen targetRecordLen := by
      rw [hA.length_encrypt henc, hplain, hlen]
    refine ⟨r, tx', hflush, hsends, ?_⟩
    rw [lengthFields, List.map_singleton, TlsBridge.lengthField_packAppData, hcipher,
      Nat.mod_eq_of_lt (by omega)]
  · -- a correct cipher does not refuse so short a plaintext
    exact absurd ⟨_, _, plain, by omega, henc⟩ (not_refused hA hlimit)

/-- **Cover frames asked for one after the other** come out as one record each, of the clamped
lengths. -/
theorem encodeCovers (hA : A.IsCorrect) (hmac : HmacSha256) (requests : List (UInt64 × ℕ))
    (tx : TxCodec) :
    ∃ rs tx', encodeAll A hmac (coverCalls requests) tx = (.ok (wireOf rs), tx') ∧
      Sends A tx.crypto rs tx'.crypto ∧
      lengthFields rs = requests.map fun request ↦ coverLen request.2 := by
  induction requests generalizing tx with
  | nil => exact ⟨[], tx, rfl, .nil _, rfl⟩
  | cons request requests ih =>
    obtain ⟨r, tx₁, hfirst, hsends, hlen⟩ :=
      TxCodec.encodeCover_eq hA hmac request.1 request.2 tx
    obtain ⟨rs, tx₂, hrest, hsends', hlens⟩ := ih tx₁
    have hcall : (EncodeCall.cover request.2).run A hmac request.1 tx
        = (.ok (TlsBridge.packAppData r.cipher), tx₁) := hfirst
    refine ⟨[r] ++ rs, tx₂, ?_, hsends.append hsends', ?_⟩
    · rw [coverCalls, List.map_cons, encodeAll, Exec.bind_ok hcall, ← coverCalls,
        Exec.bind_ok hrest, Exec.pure_apply, wireOf_append, wireOf_singleton]
    · rw [lengthFields, List.map_append, ← lengthFields, ← lengthFields, hlen, hlens]
      rfl

/-- The requests come out as asked for: one record each, with that length in its length field. -/
def CoversExactly (A : ChaCha20Poly1305) (hmac : HmacSha256) (requests : List (UInt64 × ℕ))
    (tx : TxCodec) : Prop :=
  ∃ rs tx', encodeAll A hmac (coverCalls requests) tx = (.ok (wireOf rs), tx') ∧
    Sends A tx.crypto rs tx'.crypto ∧ lengthFields rs = requests.map Prod.snd

/-- The state of the cipher tells what was sent. -/
theorem Sends.cipher_eq {s s' : ChaChaStream} {rs rs' : List Record} (h : Sends A s rs s')
    (h' : Sends A s rs' s') : rs.map Record.cipher = rs'.map Record.cipher := by
  have hlog := h.log_eq.symm.trans h'.log_eq
  rw [← map_cipher_sealings s.cipher s.state.baseIv s.state.counter,
    List.append_cancel_left hlog, map_cipher_sealings]

/-- Requests come out as asked for exactly if none of them has to be clamped. -/
theorem coversExactly_iff (hA : A.IsCorrect) (hmac : HmacSha256) (requests : List (UInt64 × ℕ))
    (tx : TxCodec) :
    CoversExactly A hmac requests tx ↔ ∀ request ∈ requests, coverLen request.2 = request.2 := by
  obtain ⟨rs, tx', hrun, hsends, hlens⟩ := encodeCovers hA hmac requests tx
  rw [← List.map_inj_left, ← hlens]
  constructor
  · rintro ⟨rs', tx'', hrun', hsends', hlens'⟩
    rw [hrun] at hrun'
    obtain rfl : tx' = tx'' := congrArg Prod.snd hrun'
    have hciphers := congrArg (List.map (TlsRecord.lengthField ∘ TlsBridge.packAppData))
      (hsends.cipher_eq hsends')
    rw [List.map_map, List.map_map] at hciphers
    exact hciphers.trans hlens'
  · exact fun hexact ↦ ⟨rs, tx', hrun, hsends, hexact⟩

/-! ### The flight of a chain -/

/-- The first record of a flight has to be clamped. -/
theorem not_coversExactly_flight (hA : A.IsCorrect) (hmac : HmacSha256) (certDerLens : List ℕ)
    (signatureLen hashLen : ℕ) {requests : List (UInt64 × ℕ)}
    (hrequests : requests.map Prod.snd
      = (CoverFlight.fromChain certDerLens signatureLen hashLen).records) (tx : TxCodec) :
    ¬CoversExactly A hmac requests tx := by
  rw [coversExactly_iff hA]
  intro hexact
  obtain ⟨request, hmem, hlen⟩ : ∃ request ∈ requests, request.2 = 30 := by
    rw [← List.mem_map, hrequests]
    exact List.mem_cons_self
  have hclamped := hexact request hmem
  rw [hlen] at hclamped
  exact absurd hclamped (by decide)

/-- **A cover flight never goes out as it was computed.** For every chain, signature and hash whose
records stay below the limit: its entries come out in one record each, but those below 41 with the
length 41, and `EncryptedExtensions` always is. -/
theorem coverFlight_lengths (hA : A.IsCorrect) (hmac : HmacSha256) (certDerLens : List ℕ)
    (signatureLen hashLen : ℕ)
    (hmax : ∀ len ∈ (CoverFlight.fromChain certDerLens signatureLen hashLen).records,
      len ≤ maxRecordLen)
    (requests : List (UInt64 × ℕ))
    (hrequests : requests.map Prod.snd
      = (CoverFlight.fromChain certDerLens signatureLen hashLen).records) (tx : TxCodec) :
    ¬CoversExactly A hmac requests tx ∧
      ∃ rs tx', encodeAll A hmac (coverCalls requests) tx = (.ok (wireOf rs), tx') ∧
        Sends A tx.crypto rs tx'.crypto ∧
        lengthFields rs = (CoverFlight.fromChain certDerLens signatureLen hashLen).records.map
          fun len ↦ max 41 len := by
  refine ⟨not_coversExactly_flight hA hmac certDerLens signatureLen hashLen hrequests tx, ?_⟩
  obtain ⟨rs, tx', hrun, hsends, hlens⟩ := encodeCovers hA hmac requests tx
  refine ⟨rs, tx', hrun, hsends, ?_⟩
  rw [hlens, ← hrequests, List.map_map]
  refine List.map_congr_left fun request hmem ↦ ?_
  have hle : request.2 ≤ maxRecordLen := hmax _ (hrequests ▸ List.mem_map_of_mem hmem)
  rw [coverLen, Nat.min_eq_left hle]
  rfl

/-- A sender of cover frames. -/
def coverSender : TxCodec :=
  .new (.new (ByteArr.zero 32) (ByteArr.zero 12)) ⟨ByteArr.zero 32⟩ ⟨[16401], by decide⟩
    (Stream'.const 0)

/-- The flight of a node goes out in records of 41, 2385, 97 and 53 bytes. -/
theorem coverFlight_lengths_default :
    ∃ rs tx', encodeAll .clear .sum (coverCalls [(60, 30), (60, 2385), (60, 97), (60, 53)])
        coverSender = (.ok (wireOf rs), tx') ∧ lengthFields rs = [41, 2385, 97, 53] := by
  obtain ⟨-, rs, tx', hrun, -, hlens⟩ := coverFlight_lengths ChaCha20Poly1305.clear_isCorrect .sum
    [1250, 1100] 72 32 (by decide) [(60, 30), (60, 2385), (60, 97), (60, 53)] (by decide)
    coverSender
  exact ⟨rs, tx', hrun, hlens⟩

/-- **Its first record should be 30 bytes long**: the flight is not the one that was computed. -/
theorem nodeDefault_not_covered :
    ¬CoversExactly .clear .sum
      (CoverFlight.nodeDefault.records.map fun len ↦ ((60 : UInt64), len)) coverSender :=
  not_coversExactly_flight ChaCha20Poly1305.clear_isCorrect .sum [1250, 1100] 72 32 (by decide)
    coverSender
