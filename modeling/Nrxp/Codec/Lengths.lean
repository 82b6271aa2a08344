import Mathlib.Algebra.Order.BigOperators.Group.List
import Nrxp.Codec.Batching

/-!
# Length fields of large frames

A frame too large to share a record travels alone, and nothing bounds it but the cipher. Its length
and the length of its record are then written as `u16`s all the same, and from 65495 bytes of
payload on they wrap: the header and the tag take the other 41. Only what the cipher refuses is an
error.

`Truthful` is what the fields are for, and `encode_lengths` says for which batches it holds.
-/

/-- The payload of the largest frame whose record's length field is still right. -/
def maxLonePayload : ℕ := 65535 - frameHeaderSize - aeadTagLen

/-- Encoding a batch fails, or every length field it writes is right: those of the records, which
count the ciphertext that follows, and those of their frames, which count the payload. -/
def Truthful (A : ChaCha20Poly1305) (hmac : HmacSha256) (now : UInt64) (items : List Item)
    (tx : TxCodec) : Prop :=
  (∃ e tx', tx.encodeBatch A hmac now items = (.err e, tx')) ∨
  ∃ rs tx', tx.encodeBatch A hmac now items = (.ok (wireOf rs), tx') ∧
    Sends A tx.crypto rs tx'.crypto ∧ itemsOf rs = items ∧
    ∀ r ∈ rs, TlsRecord.lengthField (TlsBridge.packAppData r.cipher) = r.cipher.length ∧
      ∀ item ∈ r.items,
        (Frame.new item.streamId item.frameType item.payload).header.payloadLen.toNat
          = item.payload.length

/-- The cipher refuses what is too long for it. -/
def ChaCha20Poly1305.RefusesLong (A : ChaCha20Poly1305) : Prop :=
  ∀ k n aad p, aeadPlainLimit ≤ p.length → A.encrypt k n aad p = none

variable {A : ChaCha20Poly1305}

/-- A frame has room in the plaintext it is laid out in. -/
theorem Laid.wireLen_le {items : List Item} {plain : Bytes} (h : Laid items plain) {item : Item}
    (hitem : item ∈ items) : item.wireLen ≤ plain.length := by
  induction h with
  | nil => cases hitem
  | cons tag first hpad rest ih =>
    rw [List.length_append, length_frameBytes]
    rcases List.mem_cons.mp hitem with rfl | hitem
    · simp only [Item.wireLen, Frame.wireLen, UInt16.toNat_zero]
      omega
    · exact (ih hitem).trans (Nat.le_add_left _ _)

/-- Every frame sent is in a record, whose ciphertext is longer than the frame. -/
theorem Sends.exists_record (hA : A.IsCorrect) {s s' : ChaChaStream} {rs : List Record}
    (h : Sends A s rs s') {item : Item} (hitem : item ∈ itemsOf rs) :
    ∃ r ∈ rs, item ∈ r.items ∧ item.wireLen ≤ r.plain.length ∧
      r.cipher.length = r.plain.length + aeadTagLen ∧
      ∃ k n aad, A.encrypt k n aad r.plain = some r.cipher := by
  obtain ⟨r, hr, hmem⟩ := List.mem_flatMap.mp hitem
  obtain ⟨-, hlaid, k, n, aad, henc⟩ := h.forall_mem hr
  exact ⟨r, hr, hmem, hlaid.wireLen_le hmem, hA.length_encrypt henc, k, n, aad, henc⟩

/-- How a batch ends whose frames are all below a bound. -/
theorem TxCodec.encodeBatch_cases {M : ℕ} (hM : maxRecordPlaintext ≤ M) (hmac : HmacSha256)
    (now : UInt64) {items : List Item} (hitems : ∀ item ∈ items, item.wireLen ≤ M) (tx : TxCodec) :
    (∃ rs tx', tx.encodeBatch A hmac now items = (.ok (wireOf rs), tx') ∧
      Sends A tx.crypto rs tx'.crypto ∧ itemsOf rs = items ∧ ∀ r ∈ rs, r.plain.length ≤ M) ∨
    (∃ e tx', tx.encodeBatch A hmac now items = (.err e, tx')) ∧ Refused A M := by
  refine (encodeBatch_groups hM hmac now hitems tx).imp_left ?_
  rintro ⟨rs, tx', hrun, hsends, hgroups, hlen⟩
  refine ⟨rs, tx', hrun, hsends, ?_, hlen⟩
  rw [itemsOf, List.flatMap_def, hgroups]
  exact (Packing.pack_isSplit items).flatten_eq

/-! ### Which batches -/

theorem Item.wireLen_eq (item : Item) : item.wireLen = frameHeaderSize + item.payload.length := rfl

/-- Small frames: every length fits its field. -/
theorem truthful_of_small (hA : A.IsCorrect) (hmac : HmacSha256) (now : UInt64) {items : List Item}
    (tx : TxCodec) (hsmall : ∀ item ∈ items, item.payload.length ≤ maxLonePayload) :
    Truthful A hmac now items tx := by
  have hlone : frameHeaderSize + maxLonePayload + aeadTagLen = 65535 := rfl
  have hitems : ∀ item ∈ items, item.wireLen ≤ frameHeaderSize + maxLonePayload :=
    fun item hitem ↦ Nat.add_le_add_left (hsmall item hitem) _
  rcases TxCodec.encodeBatch_cases (A := A) (by decide) hmac now hitems tx with
    ⟨rs, tx', hrun, hsends, hdone, hlen⟩ | ⟨herr, -⟩
  · refine Or.inr ⟨rs, tx', hrun, hsends, hdone, fun r hr ↦ ⟨?_, fun item hitem ↦ ?_⟩⟩
    · obtain ⟨-, -, _, _, _, henc⟩ := hsends.forall_mem hr
      have hcipher := hA.length_encrypt henc
      have hplain := hlen r hr
      rw [TlsBridge.lengthField_packAppData, Nat.mod_eq_of_lt (by omega)]
    · have hpayload := hsmall item (hdone ▸ List.mem_flatMap.mpr ⟨r, hr, hitem⟩)
      show (UInt16.ofNat item.payload.length).toNat = item.payload.length
      rw [UInt16.toNat_ofNat', Nat.mod_eq_of_lt (by omega)]
  · exact Or.inl herr

/-- A frame the cipher refuses: the batch fails, for nothing could have encrypted it. -/
theorem truthful_of_refused (hA : A.IsCorrect) (hlong : A.RefusesLong) (hmac : HmacSha256)
    (now : UInt64) {items : List Item} (tx : TxCodec) {item : Item} (hitem : item ∈ items)
    (hlen : aeadPlainLimit ≤ item.wireLen) : Truthful A hmac now items tx := by
  have hbound : ∀ x ∈ items, x.wireLen ≤ maxRecordPlaintext + (items.map Item.wireLen).sum :=
    fun x hx ↦ (List.le_sum_of_mem (List.mem_map_of_mem hx)).trans (Nat.le_add_left _ _)
  rcases TxCodec.encodeBatch_cases (A := A) (Nat.le_add_right _ _) hmac now hbound tx with
    ⟨rs, tx', -, hsends, rfl, -⟩ | ⟨herr, -⟩
  · obtain ⟨r, -, -, hplain, -, k, n, aad, henc⟩ := hsends.exists_record hA hitem
    rw [hlong k n aad r.plain (hlen.trans hplain)] at henc
    cases henc
  · exact Or.inl herr

/-- A frame in between: it is encrypted, and its record's length does not fit the field. -/
theorem not_truthful_of_large (hA : A.IsCorrect) (hmac : HmacSha256) (now : UInt64)
    {items : List Item} (tx : TxCodec) (hall : ∀ item ∈ items, item.wireLen < aeadPlainLimit)
    {item : Item} (hitem : item ∈ items) (hlen : maxLonePayload < item.payload.length) :
    ¬Truthful A hmac now items tx := by
  rintro (⟨e, tx', herr⟩ | ⟨rs, tx', -, hsends, rfl, hfields⟩)
  · -- below its limit the cipher refuses nothing
    have hitems : ∀ x ∈ items, x.wireLen ≤ aeadPlainLimit - 1 := fun x hx ↦ Nat.le_pred_of_lt
      (hall x hx)
    rcases TxCodec.encodeBatch_cases (A := A) (by decide) hmac now hitems tx with
      ⟨rs, tx'', hrun, -⟩ | ⟨-, hrefused⟩
    · rw [herr] at hrun
      cases hrun
    · exact not_refused hA (by decide) hrefused
  · obtain ⟨r, hr, -, hplain, hcipher, -⟩ := hsends.exists_record hA hitem
    have hfield := (hfields r hr).1
    have hlone : frameHeaderSize + maxLonePayload + aeadTagLen = 65535 := rfl
    rw [TlsBridge.lengthField_packAppData] at hfield
    rw [Item.wireLen_eq] at hplain
    -- a remainder is below what it is divided by
    have hlt : r.cipher.length % 2 ^ 16 < 2 ^ 16 := Nat.mod_lt _ (by decide)
    omega

theorem ChaCha20Poly1305.clear_refusesLong : clear.RefusesLong :=
  fun _ _ _ _ hlong ↦ if_neg (Nat.not_lt.mpr hlong)

/-! A diagnostic report, one byte too long. -/

namespace Oversized

/-- The report. -/
def report : Item := ⟨0, .diag, List.replicate 65495 0⟩

/-- A sender. -/
def tx : TxCodec :=
  .new (.new (ByteArr.zero 32) (ByteArr.zero 12)) ⟨ByteArr.zero 32⟩ ⟨[64, 16401], by decide⟩
    (Stream'.const 0)

/-- An authenticator of constant tags. -/
def hmac : HmacSha256 := fun _ _ ↦ ByteArr.zero 32

theorem length_report : report.payload.length = 65495 := List.length_replicate

end Oversized

/-- **Where the length fields are right.** For every batch: exactly when no payload is longer than
65494 bytes, or some frame is so long that the cipher refuses it. -/
theorem encode_lengths (A : ChaCha20Poly1305) (hA : A.IsCorrect) (hlong : A.RefusesLong)
    (hmac : HmacSha256) (now : UInt64) (items : List Item) (tx : TxCodec) :
    Truthful A hmac now items tx ↔
      (∀ item ∈ items, item.payload.length ≤ maxLonePayload) ∨
        ∃ item ∈ items, aeadPlainLimit ≤ item.wireLen := by
  constructor
  · intro htruthful
    by_contra hneither
    push Not at hneither
    obtain ⟨⟨item, hitem, hlen⟩, hall⟩ := hneither
    exact not_truthful_of_large hA hmac now tx hall hitem hlen htruthful
  · rintro (hsmall | ⟨item, hitem, hlen⟩)
    · exact truthful_of_small hA hmac now tx hsmall
    · exact truthful_of_refused hA hlong hmac now tx hitem hlen

/-- Three frames of a few bytes. -/
theorem encode_lengths_small_frames :
    Truthful .clear Oversized.hmac 60 [⟨7, .data, [1, 2, 3]⟩, ⟨8, .close, []⟩, ⟨9, .diag, [4]⟩]
      Oversized.tx :=
  (encode_lengths .clear ChaCha20Poly1305.clear_isCorrect ChaCha20Poly1305.clear_refusesLong
    Oversized.hmac 60 _ Oversized.tx).mpr (Or.inl (by decide))

/-- **The length field of a record wraps.** A report of 65495 bytes is encoded without an error, in
a record of 65536 bytes whose length field says 0. -/
theorem encode_lengths_wrap :
    ¬Truthful .clear Oversized.hmac 60 [Oversized.report] Oversized.tx ∧
    ∃ rs tx', Oversized.tx.encodeBatch .clear Oversized.hmac 60 [Oversized.report]
        = (.ok (wireOf rs), tx') ∧
      ∃ r ∈ rs, r.cipher.length = 65536 ∧
        TlsRecord.lengthField (TlsBridge.packAppData r.cipher) = 0 := by
  have hreport : Oversized.report.wireLen = 65520 := by
    rw [Item.wireLen_eq, Oversized.length_report, frameHeaderSize]
  have hitems : ∀ item ∈ [Oversized.report], item.wireLen ≤ 65520 := by
    simp [hreport]
  have hA := ChaCha20Poly1305.clear_isCorrect
  refine ⟨not_truthful_of_large hA _ _ _ (fun item hitem ↦ ?_) (List.mem_singleton_self _) ?_, ?_⟩
  · exact (hitems item hitem).trans_lt (by decide)
  · rw [Oversized.length_report]
    decide
  · rcases TxCodec.encodeBatch_cases (A := .clear) (by decide) Oversized.hmac 60 hitems Oversized.tx
      with ⟨rs, tx', hrun, hsends, hdone, hlen⟩ | ⟨-, hrefused⟩
    · refine ⟨rs, tx', hrun, ?_⟩
      obtain ⟨r, hr, -, hplain, hcipher, -⟩ := hsends.exists_record hA
        (hdone ▸ List.mem_singleton_self Oversized.report)
      have hfull : r.cipher.length = 65536 := by
        rw [hcipher, le_antisymm (hlen r hr) (hreport ▸ hplain), aeadTagLen]
      refine ⟨r, hr, hfull, ?_⟩
      rw [TlsBridge.lengthField_packAppData, hfull]
      decide
    · exact absurd hrefused (not_refused hA (by decide))
