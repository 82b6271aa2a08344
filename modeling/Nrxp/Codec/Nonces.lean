import Mathlib.Data.List.Nodup
import Nrxp.Codec.Sent

/-!
# Nonces of the TCP leg

Nonces do not travel here: each end counts for itself. The sender's history is its records under the
nonces of the numbers from 0 on, which is why none of them comes twice; the receiver's counter is
the number of records it has opened, because a failed attempt puts it back.

A run of the sender ends with the first error, which asks for the leg to be dropped. The record the
cipher refused has no place in the history, and what was encrypted before it does.
-/

/-- Try byte strings in order, whatever becomes of the tries: the results, and the stream after. -/
def ChaChaStream.decryptAll (A : ChaCha20Poly1305) :
    List Bytes → ChaChaStream → List (Outcome AeadError Bytes) × ChaChaStream
  | [], s => ([], s)
  | data :: attempts, s =>
    let (result, s) := s.decrypt A data
    let (results, s) := decryptAll A attempts s
    (result :: results, s)

variable {A : ChaCha20Poly1305}

/-! ### The sender -/

/-- Some records were sent from the stream `c₀` on, and `out` is what they look like. -/
def Emitted (A : ChaCha20Poly1305) (c₀ : ChaChaStream) (out : Bytes) (tx : TxCodec) : Prop :=
  ∃ rs, Sends A c₀ rs tx.crypto ∧ wireOf rs = out

/-- The encryptions made are those of records sent from `c₀` on. -/
def LoggedFrom (A : ChaCha20Poly1305) (c₀ : ChaChaStream) (tx : TxCodec) : Prop :=
  ∃ rs s, Sends A c₀ rs s ∧ tx.crypto.log = s.log

theorem TxCodec.flushRecord_emitted {c₀ : ChaChaStream} (tag : ByteArr 16) {frames : List Item}
    (hne : frames ≠ []) (pad : ℕ) (out : Bytes) :
    Exec.Triple (Emitted A c₀ out) (TxCodec.flushRecord A tag frames pad)
      (fun record ↦ Emitted A c₀ (out ++ record)) (fun _ ↦ LoggedFrom A c₀) := by
  rintro tx ⟨rs, hsends, hwire⟩
  rcases flushRecord_cases (A := A) tag hne pad tx with
    ⟨r, tx', hrun, hsent, -⟩ | ⟨plain, tx', hrun, hlog, -⟩ <;> rw [hrun]
  · refine ⟨rs ++ [r], hsends.append hsent, ?_⟩
    rw [wireOf_append, hwire, wireOf_singleton]
  · exact ⟨rs, tx.crypto, hsends, hlog⟩

/-- `Emitted` is an invariant of sending, for payloads of any length. -/
theorem TxCodec.sendRule_emitted (c₀ : ChaChaStream) :
    SendRule A (fun _ ↦ True) (fun _ out tx ↦ Emitted A c₀ out tx)
      (fun _ ↦ LoggedFrom A c₀) where
  shaped tag frames _ out hne _ hmax := by
    intro tx htx
    rw [flushShaped_eq tag frames hmax]
    exact flushRecord_emitted tag hne _ out tx htx
  own tag _ _ out _ _ := flushRecord_emitted tag (by simp) 0 out
  cover tag _ _ out _ := flushRecord_emitted tag (by simp) _ out

/-- **The history of a run** grows by that of some records, whether the run fails or not; if it does
not, they are the records on the wire. -/
theorem TxCodec.exists_log_encodeAll (A : ChaCha20Poly1305) (hmac : HmacSha256)
    (calls : List (UInt64 × EncodeCall)) (tx : TxCodec) :
    ∃ rs, (encodeAll A hmac calls tx).2.crypto.log = tx.crypto.log
        ++ sealings tx.crypto.cipher tx.crypto.state.baseIv tx.crypto.state.counter rs ∧
      ∀ out, (encodeAll A hmac calls tx).1 = .ok out → out = wireOf rs := by
  have htriple := (sendRule_emitted (A := A) tx.crypto).calls hmac calls (fun _ _ _ _ ↦ trivial)
    [] [] tx ⟨[], .nil _, rfl⟩
  rcases hrun : encodeAll A hmac calls tx with ⟨out | e | _, tx'⟩ <;> rw [hrun] at htriple
  · obtain ⟨rs, hsends, hwire⟩ : Emitted A tx.crypto ([] ++ out) tx' := htriple
    refine ⟨rs, hsends.log_eq, ?_⟩
    rintro _ ⟨⟩
    rw [hwire, List.nil_append]
  · obtain ⟨rs, s, hsends, hlog⟩ : LoggedFrom A tx.crypto tx' := htriple
    exact ⟨rs, hlog.trans hsends.log_eq, by simp⟩
  · exact htriple.elim

/-- The nonces of a history are those of consecutive numbers. -/
theorem map_nonce_sealings (key : Key) (iv : Nonce) (rs : List Record) :
    (sealings key iv 0 rs).map Sealing.nonce
      = (List.range rs.length).map fun i ↦ nonceAt iv (UInt64.ofNat i) := by
  apply List.ext_getElem?
  intro i
  rw [List.getElem?_map, getElem?_sealings, List.getElem?_map]
  rcases Nat.lt_or_ge i rs.length with hi | hi
  · rw [List.getElem?_eq_getElem hi, List.getElem?_range hi]
    simp
  · rw [List.getElem?_eq_none hi, List.getElem?_eq_none (by simpa using hi)]
    rfl

/-- The records of a history are what is on the wire. -/
theorem flatMap_sealings (key : Key) (iv : Nonce) (n : UInt64) (rs : List Record) :
    ((sealings key iv n rs).flatMap fun r ↦ TlsBridge.packAppData r.cipher) = wireOf rs := by
  induction rs generalizing n with
  | nil => rfl
  | cons r rs ih => rw [sealings, List.flatMap_cons, ih, wireOf, wireOf, List.flatMap_cons]

/-- Fewer than `2 ^ 64` numbers have as many nonces. -/
theorem nodup_nonces (iv : Nonce) {n : ℕ} (hn : n < 2 ^ 64) :
    ((List.range n).map fun i ↦ nonceAt iv (UInt64.ofNat i)).Nodup := by
  refine List.Nodup.map_on (fun i hi j hj heq ↦ ?_) List.nodup_range
  have hcounter := congrArg UInt64.toNat (nonceAt_injective iv heq)
  rwa [UInt64.toNat_ofNat_of_lt' ((List.mem_range.mp hi).trans hn),
    UInt64.toNat_ofNat_of_lt' ((List.mem_range.mp hj).trans hn)] at hcounter

/-! ### The receiver -/

namespace ChaChaStream

/-- The two ways a decryption ends. A failure leaves the stream as it was. -/
theorem decrypt_cases (s : ChaChaStream) (data : Bytes) :
    (∃ p, s.decrypt A data = (.ok p, s.afterOpening)) ∨ s.decrypt A data = (.err .error, s) := by
  rcases hdec : A.decrypt s.cipher s.currentNonce s.currentNonce.val data with - | p
  · exact Or.inr (decrypt_of_none A hdec)
  · exact Or.inl ⟨p, decrypt_of_some A hdec⟩

/-- **After any tries** the counter has moved on by the number of those that succeeded. -/
theorem decryptAll_state (attempts : List Bytes) (s : ChaChaStream) :
    (s.decryptAll A attempts).2.cipher = s.cipher ∧
      (s.decryptAll A attempts).2.state.baseIv = s.state.baseIv ∧
      (s.decryptAll A attempts).2.state.counter = s.state.counter
        + UInt64.ofNat ((s.decryptAll A attempts).1.countP Outcome.isOk) := by
  induction attempts generalizing s with
  | nil => exact ⟨rfl, rfl, by simp [decryptAll]⟩
  | cons data attempts ih =>
    rcases decrypt_cases (A := A) s data with ⟨p, hrun⟩ | hrun
    · obtain ⟨hkey, hiv, hcounter⟩ := ih s.afterOpening
      rw [decryptAll, hrun]
      refine ⟨hkey, hiv, hcounter.trans ?_⟩
      rw [List.countP_cons_of_pos rfl, UInt64.ofNat_add, UInt64.add_comm (UInt64.ofNat _),
        ← UInt64.add_assoc]
      rfl
    · obtain ⟨hkey, hiv, hcounter⟩ := ih s
      rw [decryptAll, hrun]
      refine ⟨hkey, hiv, hcounter.trans ?_⟩
      rw [List.countP_cons_of_neg (by simp [Outcome.isOk])]

end ChaChaStream

/-! ### Both ends -/

/-- **Nonces of the TCP leg.** Whatever calls a new sending codec is given, and however they end,
the encryptions made are under its key and, if there are fewer than `2 ^ 64` of them, under
different nonces; they are the records on the wire. A receiver over the same key and IV that has
opened `k` records, with any failures in between, next tries the nonce record `k` was sealed under;
and a failed try leaves it as it was. -/
theorem tcp_nonces (A : ChaCha20Poly1305) (hmac : HmacSha256) (key : Key) (iv : Nonce)
    (auth : SessionAuth) (shaper : PadShaper) (rng : Entropy)
    (calls : List (UInt64 × EncodeCall)) :
    let run := encodeAll A hmac calls (.new (.new key iv) auth shaper rng)
    let records := run.2.crypto.log
    (∀ out, run.1 = .ok out → out = records.flatMap fun r ↦ TlsBridge.packAppData r.cipher) ∧
    (∀ r ∈ records, r.key = key) ∧
    (records.length < 2 ^ 64 → (records.map Sealing.nonce).Nodup) ∧
    ∀ attempts : List Bytes,
      let tries := ChaChaStream.decryptAll A attempts (.new key iv)
      (∀ r, records[tries.1.countP Outcome.isOk]? = some r →
        tries.2.cipher = key ∧ tries.2.currentNonce = r.nonce) ∧
      ∀ data e, (tries.2.decrypt A data).1 = .err e → (tries.2.decrypt A data).2 = tries.2 := by
  intro run records
  obtain ⟨rs, hrecords, hout⟩ := TxCodec.exists_log_encodeAll A hmac calls
    (.new (.new key iv) auth shaper rng)
  -- the log is a function of the key and of what was sent
  replace hrecords : records = sealings key iv 0 rs := hrecords
  rw [hrecords]
  refine ⟨fun out h ↦ ?_, fun r hr ↦ ?_, fun hlen ↦ ?_, fun attempts ↦ ⟨fun r hr ↦ ?_, ?_⟩⟩
  · rw [hout out h, flatMap_sealings]
  · obtain ⟨i, hi⟩ := List.mem_iff_getElem?.mp hr
    rw [getElem?_sealings] at hi
    obtain ⟨_, -, rfl⟩ := Option.map_eq_some_iff.mp hi
    rfl
  · rw [map_nonce_sealings]
    rw [length_sealings] at hlen
    exact nodup_nonces iv hlen
  · obtain ⟨hkey, hiv, hcounter⟩ :=
      ChaChaStream.decryptAll_state (A := A) attempts (.new key iv)
    rw [getElem?_sealings] at hr
    obtain ⟨_, -, rfl⟩ := Option.map_eq_some_iff.mp hr
    refine ⟨hkey, ?_⟩
    rw [ChaChaStream.currentNonce, hiv, hcounter]
    rfl
  · intro data e herr
    rcases ChaChaStream.decrypt_cases (A := A)
      (ChaChaStream.decryptAll A attempts (.new key iv)).2 data with ⟨p, hrun⟩ | hrun
    · rw [hrun] at herr
      cases herr
    · rw [hrun]
