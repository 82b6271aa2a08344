import Nrxp.Codec.Integrity
import Nrxp.Codec.Segmentation

/-!
# Frame tags on arrival

Every frame carries a tag of its session key and a time step, and the receiving codec is handed a
`SessionAuth` to check it against. It never does: a frame that decrypts is returned, whatever its
tag.

`NextFrame` says which frame an input holds next, without running the codec, and
`NextFrame.decodeInbound` that this is the frame returned. `ChecksTags` is what the tag is for, and
`received_tags` that it comes about exactly when that frame happens to carry a tag that verifies.
-/

/-- A tag a verifier accepts is one of its key, for a step near the clock. -/
theorem SessionAuth.verifyTag_iff {hmac : HmacSha256} {auth : SessionAuth} {now : UInt64}
    {tag : ByteArr 16} :
    auth.verifyTag hmac now tag = true ↔
      ∃ step : UInt64, (now / authTimeStep).toNat - authWindowSize ≤ step.toNat ∧
        step.toNat ≤ (now / authTimeStep).toNat + authWindowSize ∧
        computeTag hmac auth.authKey.val step = tag := by
  rw [verifyTag, matchesWindow_iff]
  exact exists_congr fun step ↦ by rw [mem_stepWindow, and_assoc]

variable {A : ChaCha20Poly1305}

/-! ### The next frame -/

/-- The next frame of an input: the first in the staging area; or, while that holds none, the next
once another record has been opened into it. -/
inductive NextFrame (A : ChaCha20Poly1305) : RxCodec → Bytes → Frame → Prop
  | staged {rx : RxCodec} {buffer staging : Bytes} {f : Frame}
      (hparse : Frame.parse rx.staging = (.ok (some f), staging)) : NextFrame A rx buffer f
  | record {rx : RxCodec} {buffer rest plain : Bytes} {d : ApplicationData} {f : Frame}
      (hparse : Frame.parse rx.staging = (.ok none, rx.staging))
      (hunpack : TlsBridge.unpackAppData buffer = (.ok (some d), rest))
      (hdec : A.decrypt rx.crypto.cipher rx.crypto.currentNonce rx.crypto.currentNonce.val d.payload
        = some plain)
      (next : NextFrame A { rx with
        crypto := rx.crypto.afterOpening, staging := rx.staging ++ plain } rest f) :
      NextFrame A rx buffer f

namespace RxCodec

/-- A call is a parse of the staging area, and then the records. -/
theorem decodeInbound_eq (A : ChaCha20Poly1305) (rx : RxCodec) (buffer : Bytes) :
    rx.decodeInbound A buffer =
      match rx.tryParseFrame with
      | (.ok (some frame), rx) => (.ok (some frame), rx, buffer)
      | (.ok none, rx) => decodeRecords A rx buffer
      | (.err e, rx) => (.err e, rx, buffer)
      | (.panic, rx) => (.panic, rx, buffer) := by
  by_cases hempty : rx.staging.isEmpty
  · have hwaiting := waiting_of_isEmpty hempty
    rw [hwaiting.decodeInbound, show rx.tryParseFrame = _ from hwaiting]
  · rcases tryParseFrame_cases rx with h | ⟨e, h⟩ | ⟨f, staging, h, -⟩ <;>
      rw [decodeInbound, if_neg hempty, h]

/-- Opening a record goes on as a call with the longer staging area. -/
theorem decodeRecords_of_opened_eq {rx : RxCodec} {buffer rest plain : Bytes} {d : ApplicationData}
    (h : TlsBridge.unpackAppData buffer = (.ok (some d), rest))
    (hdec : A.decrypt rx.crypto.cipher rx.crypto.currentNonce rx.crypto.currentNonce.val d.payload
      = some plain) :
    decodeRecords A rx buffer = decodeInbound A { rx with
      crypto := rx.crypto.afterOpening, staging := rx.staging ++ plain } rest := by
  rcases tryParseFrame_cases { rx with
    crypto := rx.crypto.afterOpening, staging := rx.staging ++ plain } with
      hparse | ⟨e, hparse⟩ | ⟨f, staging, hparse, -⟩ <;>
    rw [decodeRecords_of_opened A h hdec, decodeInbound_eq, hparse]

end RxCodec

/-- **The next frame is returned**, and its tag is not looked at. -/
theorem NextFrame.decodeInbound {rx : RxCodec} {buffer : Bytes} {f : Frame}
    (h : NextFrame A rx buffer f) :
    ∃ rx' rest, rx.decodeInbound A buffer = (.ok (some f), rx', rest) := by
  induction h with
  | staged hparse =>
    rw [RxCodec.decodeInbound_eq, RxCodec.tryParseFrame, hparse]
    exact ⟨_, _, rfl⟩
  | record hparse hunpack hdec _ ih =>
    rw [RxCodec.decodeInbound_eq, RxCodec.tryParseFrame, hparse]
    show ∃ rx' rest, RxCodec.decodeRecords A _ _ = _
    rwa [RxCodec.decodeRecords_of_opened_eq hunpack hdec]

/-- A frame that a call returns was staged, or comes from the records. -/
theorem NextFrame.or_decodeRecords {rx rx' : RxCodec} {buffer rest : Bytes} {f : Frame}
    (h : rx.decodeInbound A buffer = (.ok (some f), rx', rest)) :
    NextFrame A rx buffer f ∨ Frame.parse rx.staging = (.ok none, rx.staging) ∧
      rx.decodeRecords A buffer = (.ok (some f), rx', rest) := by
  rw [RxCodec.decodeInbound_eq, RxCodec.tryParseFrame] at h
  rcases Frame.parse_cases rx.staging with hparse | ⟨e, hparse⟩ | ⟨g, staging, hparse, -⟩ <;>
    rw [hparse] at h
  · exact Or.inr ⟨hparse, h⟩
  · cases h
  · cases h
    exact Or.inl (.staged hparse)

/-- Nothing else is returned. -/
theorem NextFrame.of_decodeInbound {rx rx' : RxCodec} {buffer rest : Bytes} {f : Frame}
    (h : rx.decodeInbound A buffer = (.ok (some f), rx', rest)) : NextFrame A rx buffer f := by
  induction rx, buffer using RxCodec.recordInduction A with
  | waiting rx buffer hunpack =>
    refine (or_decodeRecords h).resolve_right fun ⟨_, hrun⟩ ↦ ?_
    rw [RxCodec.decodeRecords_of_none A hunpack] at hrun
    cases hrun
  | refused rx buffer e rest' hunpack =>
    refine (or_decodeRecords h).resolve_right fun ⟨_, hrun⟩ ↦ ?_
    rw [RxCodec.decodeRecords_of_err A hunpack] at hrun
    cases hrun
  | forged rx buffer d rest' hunpack hdec =>
    refine (or_decodeRecords h).resolve_right fun ⟨_, hrun⟩ ↦ ?_
    rw [RxCodec.decodeRecords_of_forged A hunpack hdec] at hrun
    cases hrun
  | opened rx buffer d rest' plain hunpack hdec ih =>
    rcases or_decodeRecords h with hnext | ⟨hparse, hrun⟩
    · exact hnext
    · rw [RxCodec.decodeRecords_of_opened_eq hunpack hdec] at hrun
      exact .record hparse hunpack hdec (ih hrun)

/-! ### The tag -/

/-- What the tag of a frame is for, in one call: a frame that is returned carries a tag of the
session key for a step near the clock, and a frame whose tag does not verify is answered with a
drop. -/
def RxCodec.ChecksTags (A : ChaCha20Poly1305) (hmac : HmacSha256) (now : UInt64) (rx : RxCodec)
    (buffer : Bytes) : Prop :=
  (∀ f rx' rest, rx.decodeInbound A buffer = (.ok (some f), rx', rest) →
    ∃ step : UInt64, (now / authTimeStep).toNat - authWindowSize ≤ step.toNat ∧
      step.toNat ≤ (now / authTimeStep).toNat + authWindowSize ∧
      SessionAuth.computeTag hmac rx.auth.authKey.val step = f.header.authTag) ∧
  ∀ f, NextFrame A rx buffer f → rx.auth.verifyTag hmac now f.header.authTag = false →
    ∃ e rx' rest, rx.decodeInbound A buffer = (.err e, rx', rest) ∧ e.action = .drop

/-- **When received tags are valid.** For every state of the codec, every clock and every buffer:
exactly when the next frame the input holds, if it holds one, carries a tag that verifies. -/
theorem received_tags (A : ChaCha20Poly1305) (hmac : HmacSha256) (now : UInt64) (rx : RxCodec)
    (buffer : Bytes) :
    rx.ChecksTags A hmac now buffer ↔
      ∀ f, NextFrame A rx buffer f → rx.auth.verifyTag hmac now f.header.authTag = true := by
  constructor
  · rintro ⟨hvalid, -⟩ f hnext
    obtain ⟨rx', rest, hrun⟩ := hnext.decodeInbound
    exact SessionAuth.verifyTag_iff.mpr (hvalid f rx' rest hrun)
  · intro hverify
    refine ⟨fun f rx' rest hrun ↦ ?_, fun f hnext hinvalid ↦ ?_⟩
    · exact SessionAuth.verifyTag_iff.mp (hverify f (.of_decodeInbound hrun))
    · rw [hverify f hnext] at hinvalid
      cases hinvalid

/-- A record that opens, and the frame in it. -/
theorem Sample.nextFrame :
    NextFrame .clear rx record (Frame.received (truncateTag (hmac [] [])) 9 .close [] []) := by
  have hlen : (cipher (.new key iv) 9).length = 41 := by decide
  have hunpack := TlsBridge.unpackAppData_packAppData (c := cipher (.new key iv) 9)
    (by rw [hlen]; decide) (by rw [hlen]; decide) []
  rw [List.append_nil] at hunpack
  have hempty : ([] : Bytes).length < 2 ^ 16 := by decide
  have hparse := Frame.parse_frameBytes (truncateTag (hmac [] [])) 9 .close hempty hempty []
  rw [List.append_nil] at hparse
  exact .record (Frame.parse_of_short (by decide)) hunpack
    (ChaCha20Poly1305.clear_isCorrect.decrypt_encrypt (encrypt_plain (.new key iv) 9))
    (.staged hparse)

/-- **A foreign tag is not noticed.** The frame of a record that opens is returned although no step
gives its tag. -/
theorem received_tags_foreign :
    ¬Sample.rx.ChecksTags .clear (fun _ _ ↦ ByteArr.zero 32) 0 Sample.record := by
  intro ⟨hvalid, _⟩
  obtain ⟨rx', rest, hrun⟩ := Sample.nextFrame.decodeInbound
  obtain ⟨step, -, -, htag⟩ := hvalid _ rx' rest hrun
  -- with this authenticator the tag of every step is zero
  change truncateTag (ByteArr.zero 32) = truncateTag (Sample.hmac [] []) at htag
  exact absurd htag (by decide)
