import Nrxp.Errors
import Nrxp.Lib.Incremental
import Nrxp.Tls.Types

/-!
# TLS records

The envelope of everything on the wire: a content type, a version and a 16-bit length, then that
many bytes. `canParse` looks at the header without moving the cursor and `parse` reads it again, so
that the two agree is a theorem and not a convention; `parse_cons` states the outcome of a parse in
one equation.
-/

/-- A parsed record. -/
structure TlsRecord where
  contentType : ContentType
  version : ProtocolVersion
  len : UInt16
  payload : Bytes
  deriving DecidableEq, Repr

namespace TlsRecord

/-- Build a record; the length field is the payload's length as a `u16`. -/
def new (contentType : ContentType) (version : ProtocolVersion) (payload : Bytes) : TlsRecord :=
  ⟨contentType, version, UInt16.ofNat payload.length, payload⟩

/-- Header and payload. -/
def serialize (r : TlsRecord) : Bytes :=
  r.contentType.toByte :: (beBytes 2 r.version.toU16.toNat
    ++ beBytes 2 (UInt16.ofNat r.payload.length).toNat ++ r.payload)

/-- An application-data record around a finished ciphertext. -/
def buildApplicationData (payload : Bytes) : Bytes :=
  (new .applicationData .tls12 payload).serialize

/-- The record that middleboxes expect after a hello. -/
def buildChangeCipherSpec : Bytes :=
  (new .changeCipherSpec .tls12 [0x01]).serialize

/-- Whether a whole record with a known content type is at the front. -/
def canParse : Exec Bytes TlsError Bool := do
  if (← Buf.remaining) < 5 then return false
  let contentType ← Buf.byteAt 0
  let isValidType := contentType == ContentType.handshake.toByte
    || contentType == ContentType.applicationData.toByte
    || contentType == ContentType.alert.toByte
    || contentType == ContentType.changeCipherSpec.toByte
  if !isValidType then return false
  let recordLen := (be16 (← Buf.byteAt 3) (← Buf.byteAt 4)).toNat
  if contentType == ContentType.applicationData.toByte && decide (recordLen < 17) then
    return false
  return decide (5 + recordLen ≤ (← Buf.remaining))

/-- An error of the record layer: not our traffic, to be proxied. -/
def redirect (message : String) : TlsError := ⟨.tls message, .redirect, []⟩

/-- Take one record off. The header is consumed before the version is checked. -/
def parse : Exec Bytes TlsError (Option TlsRecord) := do
  if !(← canParse) then return none
  let rawContentType ← Buf.getU8
  let rawVersion ← Buf.getU16
  let recordLen ← Buf.getU16
  let contentType ← Exec.lift
    ((Outcome.ofExcept (ContentType.tryFrom rawContentType)).mapErr redirect)
  let version ← Exec.lift
    ((Outcome.ofExcept (ProtocolVersion.tryFrom rawVersion)).mapErr redirect)
  let payload ← Buf.splitTo recordLen.toNat
  return some (new contentType version payload)

/-- The length field of a serialised record. -/
def lengthField (record : Bytes) : ℕ := beVal ((record.drop 3).take 2)

/-! ### What a parse does -/

/-- The header promises no more than is there: the content type is known, application data is long
enough for a tag and a byte, and the payload has arrived. -/
def Fits (type : UInt8) (recordLen available : ℕ) : Prop :=
  (∃ c, ContentType.tryFrom type = .ok c) ∧ (type = 0x17 → 17 ≤ recordLen) ∧ recordLen ≤ available

theorem isValidType_iff (type : UInt8) :
    (type == ContentType.handshake.toByte || type == ContentType.applicationData.toByte
      || type == ContentType.alert.toByte || type == ContentType.changeCipherSpec.toByte) = true
      ↔ ∃ c, ContentType.tryFrom type = .ok c := by
  constructor
  · simp only [Bool.or_eq_true, beq_iff_eq]
    rintro (((rfl | rfl) | rfl) | rfl) <;> exact ⟨_, ContentType.tryFrom_toByte _⟩
  · rintro ⟨c, hc⟩
    unfold ContentType.tryFrom at hc
    split at hc <;> simp [ContentType.toByte] at hc ⊢

theorem canParse_of_short {b : Bytes} (h : b.length < 5) : canParse b = (.ok false, b) := by
  rw [canParse, Exec.bind_ok (Buf.remaining_apply b)]
  simp [h]

/-- `canParse` decides `Fits` and does not move the cursor. -/
theorem canParse_cons (t v1 v2 l1 l2 : UInt8) (rest : Bytes) :
    ∃ r, canParse (t :: v1 :: v2 :: l1 :: l2 :: rest)
        = (.ok r, t :: v1 :: v2 :: l1 :: l2 :: rest) ∧
      (r = true ↔ Fits t (be16 l1 l2).toNat rest.length) := by
  have hlen : ¬(t :: v1 :: v2 :: l1 :: l2 :: rest).length < 5 := by simp
  have h0 := Buf.byteAt_of_lt (ε := TlsError) (b := t :: v1 :: v2 :: l1 :: l2 :: rest) (i := 0)
    (by simp)
  have h3 := Buf.byteAt_of_lt (ε := TlsError) (b := t :: v1 :: v2 :: l1 :: l2 :: rest) (i := 3)
    (by simp)
  have h4 := Buf.byteAt_of_lt (ε := TlsError) (b := t :: v1 :: v2 :: l1 :: l2 :: rest) (i := 4)
    (by simp)
  rw [canParse, Exec.bind_ok (Buf.remaining_apply _), if_neg hlen, Exec.bind_ok h0]
  simp only [List.getElem_cons_zero]
  rcases hv : (t == ContentType.handshake.toByte || t == ContentType.applicationData.toByte
      || t == ContentType.alert.toByte || t == ContentType.changeCipherSpec.toByte) with - | -
  · refine ⟨false, by simp, ?_⟩
    have hbad : ¬∃ c, ContentType.tryFrom t = .ok c := by
      rw [← isValidType_iff, hv]
      simp
    simp [Fits, hbad]
  · have hgood := (isValidType_iff t).mp hv
    simp only [Bool.not_true, Bool.false_eq_true, if_false, Exec.bind_ok h3, Exec.bind_ok h4]
    simp only [List.getElem_cons_succ, List.getElem_cons_zero]
    -- application data too short for a tag and a content type is not waited for
    by_cases hs : t = 0x17 ∧ (be16 l1 l2).toNat < 17
    · refine ⟨false, by simp [hs, ContentType.toByte], ?_⟩
      simp only [Bool.false_eq_true, false_iff]
      rintro ⟨-, h17, -⟩
      exact absurd (h17 hs.1) (by omega)
    · refine ⟨decide (5 + (be16 l1 l2).toNat ≤ rest.length + 5), ?_, ?_⟩
      · rw [if_neg (by simpa [ContentType.toByte] using hs), Exec.bind_ok (Buf.remaining_apply _)]
        simp
      · have hs' : t = 0x17 → 17 ≤ (be16 l1 l2).toNat := fun h ↦ by
          by_contra hlt
          exact hs ⟨h, by omega⟩
        rw [decide_eq_true_iff, Fits]
        constructor
        · exact fun h ↦ ⟨hgood, hs', by omega⟩
        · exact fun ⟨_, _, h⟩ ↦ by omega

theorem parse_of_short {b : Bytes} (h : b.length < 5) : parse b = (.ok none, b) := by
  rw [parse, Exec.bind_ok (canParse_of_short h)]
  rfl

theorem parse_of_not_fits {t v1 v2 l1 l2 : UInt8} {rest : Bytes}
    (h : ¬Fits t (be16 l1 l2).toNat rest.length) :
    parse (t :: v1 :: v2 :: l1 :: l2 :: rest)
      = (.ok none, t :: v1 :: v2 :: l1 :: l2 :: rest) := by
  obtain ⟨r, hr, hiff⟩ := canParse_cons t v1 v2 l1 l2 rest
  have : r = false := by
    rw [← Bool.not_eq_true, hiff]
    exact h
  subst this
  rw [parse, Exec.bind_ok hr]
  rfl

/-- **A record whose header fits is taken off**, unless its version is unknown: then an error leaves
the buffer after the header. -/
theorem parse_of_fits {t l1 l2 : UInt8} (v1 v2 : UInt8) {rest : Bytes}
    (h : Fits t (be16 l1 l2).toNat rest.length) :
    parse (t :: v1 :: v2 :: l1 :: l2 :: rest) =
      match ContentType.tryFrom t, ProtocolVersion.tryFrom (be16 v1 v2) with
      | .ok c, .ok v => (.ok (some (new c v (rest.take (be16 l1 l2).toNat))),
          rest.drop (be16 l1 l2).toNat)
      | _, .error m => (.err (redirect m), rest)
      | .error m, _ => (.err (redirect m), rest) := by
  obtain ⟨r, hr, hiff⟩ := canParse_cons t v1 v2 l1 l2 rest
  have : r = true := hiff.mpr h
  subst this
  obtain ⟨⟨c, hc⟩, -, hle⟩ := h
  rw [parse, Exec.bind_ok hr, hc]
  simp only [Bool.not_true, Bool.false_eq_true, if_false, Exec.bind_ok (Buf.getU8_cons _ _),
    Exec.bind_ok (Buf.getU16_cons _ _ _), hc, Outcome.ofExcept_ok, Outcome.mapErr_ok,
    Exec.lift_ok_bind]
  rcases ProtocolVersion.tryFrom (be16 v1 v2) with m | v
  · simp
  · simp [Exec.bind_ok (Buf.splitTo_of_le hle)]

theorem exists_header {b : Bytes} (h : 5 ≤ b.length) :
    ∃ t v1 v2 l1 l2 rest, b = t :: v1 :: v2 :: l1 :: l2 :: rest := by
  match b, h with
  | t :: v1 :: v2 :: l1 :: l2 :: rest, _ => exact ⟨t, v1, v2, l1, l2, rest, rfl⟩

/-- A type is known by its code. -/
theorem eq_toByte_of_tryFrom {t : UInt8} {c : ContentType} (h : ContentType.tryFrom t = .ok c) :
    t = c.toByte := by
  unfold ContentType.tryFrom at h
  split at h <;> cases h <;> rfl

/-- A whole record of a known version is taken off. -/
theorem parse_record (c : ContentType) {v1 v2 l1 l2 : UInt8} {v : ProtocolVersion}
    {payload : Bytes} (hversion : ProtocolVersion.tryFrom (be16 v1 v2) = .ok v)
    (hlen : payload.length = (be16 l1 l2).toNat)
    (h17 : c = .applicationData → 17 ≤ payload.length) (rest : Bytes) :
    parse (c.toByte :: v1 :: v2 :: l1 :: l2 :: (payload ++ rest))
      = (.ok (some (new c v payload)), rest) := by
  have hfits : Fits c.toByte (be16 l1 l2).toNat (payload ++ rest).length := by
    refine ⟨⟨c, ContentType.tryFrom_toByte c⟩, fun ht ↦ ?_, ?_⟩
    · rw [← hlen]
      exact h17 (by cases c <;> first | rfl | exact absurd ht (by decide))
    · rw [List.length_append, hlen]
      exact Nat.le_add_right _ _
  rw [parse_of_fits v1 v2 hfits, ContentType.tryFrom_toByte, hversion, ← hlen, List.take_left,
    List.drop_left]

/-- **The three ways a parse ends.** It waits; or the version is unknown and the header is gone; or
a record is taken off. -/
theorem parse_cases (b : Bytes) :
    parse b = (.ok none, b) ∨
    (∃ m header rest, parse b = (.err (redirect m), rest) ∧ b = header ++ rest ∧
      header.length = 5) ∨
    ∃ (c : ContentType) (v1 v2 l1 l2 : UInt8) (v : ProtocolVersion) (payload rest : Bytes),
      parse b = (.ok (some (new c v payload)), rest) ∧
      b = c.toByte :: v1 :: v2 :: l1 :: l2 :: (payload ++ rest) ∧
      ProtocolVersion.tryFrom (be16 v1 v2) = .ok v ∧ payload.length = (be16 l1 l2).toNat ∧
      (c = .applicationData → 17 ≤ payload.length) := by
  by_cases hshort : b.length < 5
  · exact Or.inl (parse_of_short hshort)
  obtain ⟨t, v1, v2, l1, l2, rest, rfl⟩ := exists_header (Nat.not_lt.mp hshort)
  by_cases hfits : Fits t (be16 l1 l2).toNat rest.length
  · obtain ⟨⟨c, hc⟩, h17, hle⟩ := id hfits
    obtain rfl := eq_toByte_of_tryFrom hc
    rcases hversion : ProtocolVersion.tryFrom (be16 v1 v2) with m | v
    · refine Or.inr (Or.inl ⟨m, [c.toByte, v1, v2, l1, l2], rest, ?_, rfl, rfl⟩)
      rw [parse_of_fits v1 v2 hfits, hc, hversion]
    · obtain ⟨payload, rest, rfl, hlen⟩ := exists_split hle
      have h17' : c = .applicationData → 17 ≤ payload.length := by
        rintro rfl
        rw [hlen]
        exact h17 rfl
      exact Or.inr (Or.inr ⟨c, v1, v2, l1, l2, v, payload, rest,
        parse_record c hversion hlen h17' rest, rfl, hversion, hlen, h17'⟩)
  · exact Or.inl (parse_of_not_fits hfits)

/-- **A parse that has an answer** gives the same one when more bytes have arrived, and leaves them
alone. -/
theorem parse_append {b : Bytes} (h : (parse b).1 ≠ .ok none) (more : Bytes) :
    parse (b ++ more) = ((parse b).1, (parse b).2 ++ more) := by
  by_cases hshort : b.length < 5
  · rw [parse_of_short hshort] at h
    exact absurd rfl h
  obtain ⟨t, v1, v2, l1, l2, rest, rfl⟩ := exists_header (Nat.not_lt.mp hshort)
  by_cases hfits : Fits t (be16 l1 l2).toNat rest.length
  · have hle := hfits.2.2
    have hfits' : Fits t (be16 l1 l2).toNat (rest ++ more).length :=
      ⟨hfits.1, hfits.2.1, by rw [List.length_append]; omega⟩
    show parse (t :: v1 :: v2 :: l1 :: l2 :: (rest ++ more)) = _
    rw [parse_of_fits v1 v2 hfits, parse_of_fits v1 v2 hfits',
      List.take_append_of_le_length hle, List.drop_append_of_le_length hle]
    obtain ⟨c, hc⟩ := hfits.1
    rw [hc]
    cases ProtocolVersion.tryFrom (be16 v1 v2) with
    | ok v => rfl
    | error m => rfl
  · rw [parse_of_not_fits hfits] at h
    exact absurd rfl h

theorem parse_incremental : Incremental parse where
  keeps b h := by
    rcases parse_cases b with hrun | ⟨m, header, rest, hrun, -⟩ |
        ⟨c, v1, v2, l1, l2, v, payload, rest, hrun, -⟩ <;> rw [hrun] at h ⊢
    · cases h
    · cases h
  append _ h more := parse_append h more

end TlsRecord
