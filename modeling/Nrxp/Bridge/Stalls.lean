import Nrxp.Bridge.Handshake

/-!
# Waiting for bytes that cannot help

A parser that answers neither with a value nor with an error asks for more bytes. The record parser
asks for more whenever `TlsRecord.canParse` is false, and that test also fails for a header no
record can have: a content type that is unknown, or application data too short for a tag and a byte.
On such input it asks for more for ever, and so does everything above it.
-/

namespace TlsBridge

/-- No record begins like this: the content type is unknown, or it announces application data of
fewer than 17 bytes. -/
inductive Dead : Bytes → Prop
  | unknownType {t : UInt8} {rest : Bytes} (h : ∀ c, ContentType.tryFrom t ≠ .ok c) :
      Dead (t :: rest)
  | shortData (v1 v2 : UInt8) {l1 l2 : UInt8} {rest : Bytes} (h : (be16 l1 l2).toNat < 17) :
      Dead (0x17 :: v1 :: v2 :: l1 :: l2 :: rest)

/-- If the parser asks for more bytes, then some would give it an answer. -/
def WaitingHelps {Output : Type} (parse : Exec Bytes TlsError (Option Output)) (b : Bytes) : Prop :=
  (parse b).1 = .ok none → ∃ c, (parse (b ++ c)).1 ≠ .ok none

/-! ### The record parser -/

theorem Dead.append {b : Bytes} (h : Dead b) (c : Bytes) : Dead (b ++ c) := by
  cases h with
  | unknownType h => exact .unknownType h
  | shortData v1 v2 h => exact .shortData v1 v2 h

/-- On dead input the parser asks for more. -/
theorem Dead.parse {b : Bytes} (h : Dead b) : TlsRecord.parse b = (.ok none, b) := by
  by_cases hshort : b.length < 5
  · exact TlsRecord.parse_of_short hshort
  obtain ⟨t, v1, v2, l1, l2, rest, rfl⟩ := TlsRecord.exists_header (Nat.not_lt.mp hshort)
  refine TlsRecord.parse_of_not_fits ?_
  rintro ⟨⟨c, hc⟩, h17, -⟩
  cases h with
  | unknownType h => exact h c hc
  | shortData _ _ h => exact absurd (h17 rfl) (Nat.not_le.mpr h)

/-- Bytes that complete any header, in front of a payload. -/
def filler (payload : Bytes) : Bytes := 0x16 :: 0x16 :: 0x16 :: 0x16 :: 0x16 :: payload

/-- On any other input they give it an answer, if the payload is long enough for every length. -/
theorem parse_append_filler {b : Bytes} (h : ¬Dead b) {payload : Bytes}
    (hpayload : 65535 ≤ payload.length) :
    (TlsRecord.parse (b ++ filler payload)).1 ≠ .ok none := by
  have hanswer : ∀ t v1 v2 l1 l2 rest, b ++ filler payload = t :: v1 :: v2 :: l1 :: l2 :: rest →
      (∃ c, ContentType.tryFrom t = .ok c) → (t = 0x17 → 17 ≤ (be16 l1 l2).toNat) →
      65535 ≤ rest.length → (TlsRecord.parse (b ++ filler payload)).1 ≠ .ok none := by
    intro t v1 v2 l1 l2 rest hb htype h17 hlen
    have hle : (be16 l1 l2).toNat ≤ rest.length := by
      have := (be16 l1 l2).toNat_lt
      omega
    rw [hb, TlsRecord.parse_of_fits v1 v2 ⟨htype, h17, hle⟩]
    obtain ⟨c, hc⟩ := htype
    rw [hc]
    rcases ProtocolVersion.tryFrom (be16 v1 v2) with m | v <;> simp
  have htype : ∀ t rest, b = t :: rest → ∃ c, ContentType.tryFrom t = .ok c := by
    rintro t rest rfl
    by_contra hunknown
    exact h (.unknownType fun c hc ↦ hunknown ⟨c, hc⟩)
  -- the header is the filler's, or partly the input's, or all the input's
  match b with
  | [] =>
    exact hanswer 0x16 0x16 0x16 0x16 0x16 _ rfl ⟨.handshake, rfl⟩ (by decide) hpayload
  | [t] =>
    exact hanswer t 0x16 0x16 0x16 0x16 (0x16 :: _) rfl (htype t _ rfl) (fun _ ↦ by decide)
      (by simp only [List.length_cons]; omega)
  | [t, v1] =>
    exact hanswer t v1 0x16 0x16 0x16 (0x16 :: 0x16 :: _) rfl (htype t _ rfl) (fun _ ↦ by decide)
      (by simp only [List.length_cons]; omega)
  | [t, v1, v2] =>
    exact hanswer t v1 v2 0x16 0x16 (0x16 :: 0x16 :: 0x16 :: _) rfl (htype t _ rfl)
      (fun _ ↦ by decide) (by simp only [List.length_cons]; omega)
  | [t, v1, v2, l1] =>
    have hlow := le_toNat_be16 l1 0x16
    exact hanswer t v1 v2 l1 0x16 (0x16 :: 0x16 :: 0x16 :: 0x16 :: _) rfl (htype t _ rfl)
      (fun _ ↦ (by decide : 17 ≤ (0x16 : UInt8).toNat).trans hlow)
      (by simp only [List.length_cons]; omega)
  | t :: v1 :: v2 :: l1 :: l2 :: rest =>
    refine hanswer t v1 v2 l1 l2 (rest ++ filler payload) rfl (htype t _ rfl) (fun ht ↦ ?_) ?_
    · by_contra hlt
      subst ht
      exact h (.shortData v1 v2 (Nat.not_le.mp hlt))
    · simp only [filler, List.length_append, List.length_cons]
      omega

/-! ### What is built on it -/

/-- A handler that always answers adds no waiting of its own. -/
theorem startProcess_eq_none_iff {Output : Type}
    {handleRecord : TlsRecord → Outcome TlsError (Option Output)}
    (hanswers : ∀ record, handleRecord record ≠ .ok none) (b : Bytes) :
    (startProcess handleRecord b).1 = .ok none ↔ (TlsRecord.parse b).1 = .ok none := by
  rcases hparse : TlsRecord.parse b with ⟨(- | record) | e | _, rest⟩
  · rw [startProcess, Exec.bind_ok hparse]
    simp
  · rw [startProcess, Exec.bind_ok hparse]
    simpa using hanswers record
  · simp [show startProcess handleRecord b = (.err e, rest) from Exec.bind_err hparse]
  · simp [show startProcess handleRecord b = (.panic, rest) from Exec.bind_panic hparse]

theorem handleHandshake_ne_none (record : TlsRecord) : handleHandshake record ≠ .ok none := by
  rw [handleHandshake]
  split
  · simp
  · rcases (parseHello record.payload).1 with hello | e | _ <;> simp

theorem handleAppData_ne_none (record : TlsRecord) : handleAppData record ≠ .ok none := by
  rw [handleAppData]
  split <;> simp

theorem handleMiddleboxCcs_ne_none (record : TlsRecord) :
    handleMiddleboxCcs record ≠ .ok none := by
  rw [handleMiddleboxCcs]
  split <;> simp

/-- Waiting helps exactly where the input is not dead, if the record parser is what waits. -/
theorem waitingHelps_iff {Output : Type} {parse : Exec Bytes TlsError (Option Output)}
    (hparse : ∀ b, (parse b).1 = .ok none ↔ (TlsRecord.parse b).1 = .ok none) (b : Bytes) :
    WaitingHelps parse b ↔ ¬Dead b := by
  constructor
  · intro hhelps hdead
    obtain ⟨c, hc⟩ := hhelps ((hparse b).mpr (congrArg Prod.fst hdead.parse))
    exact hc ((hparse _).mpr (congrArg Prod.fst (hdead.append c).parse))
  · intro h _
    have hlen : 65535 ≤ (List.replicate 65535 (0 : UInt8)).length := List.length_replicate.ge
    exact ⟨_, fun hnone ↦ parse_append_filler h hlen ((hparse _).mp hnone)⟩

end TlsBridge

open TlsBridge in
/-- **When waiting helps.** For every buffer: the record parser and the three parsers built on it
ask for more bytes only where some would help, exactly when no record is ruled out already. -/
theorem waiting_helps (b : Bytes) :
    (WaitingHelps TlsRecord.parse b ↔ ¬Dead b) ∧ (WaitingHelps unpackHandshake b ↔ ¬Dead b) ∧
      (WaitingHelps unpackAppData b ↔ ¬Dead b) ∧ (WaitingHelps unpackMiddleboxCcs b ↔ ¬Dead b) :=
  ⟨waitingHelps_iff (fun _ ↦ Iff.rfl) b,
    waitingHelps_iff (startProcess_eq_none_iff handleHandshake_ne_none) b,
    waitingHelps_iff (startProcess_eq_none_iff handleAppData_ne_none) b,
    waitingHelps_iff (startProcess_eq_none_iff handleMiddleboxCcs_ne_none) b⟩

open TlsBridge in
/-- **A content type that does not exist is waited on.** The record is complete, and the answer is
still to wait, whatever follows. -/
theorem waiting_helps_not :
    ¬WaitingHelps TlsRecord.parse [0x99, 0x03, 0x03, 0x00, 0x01, 0x00] ∧
      ¬WaitingHelps unpackHandshake [0x99, 0x03, 0x03, 0x00, 0x01, 0x00] := by
  have hdead : Dead [0x99, 0x03, 0x03, 0x00, 0x01, 0x00] :=
    .unknownType fun c ↦ by cases c <;> decide
  refine ⟨fun hhelps ↦ ?_, fun hhelps ↦ ?_⟩
  · exact (waitingHelps_iff (fun _ ↦ Iff.rfl) _).mp hhelps hdead
  · exact (waitingHelps_iff (startProcess_eq_none_iff handleHandshake_ne_none) _).mp hhelps hdead
