import Nrxp.Tls.Types

/-!
# Frames

The unit of the multiplexed tunnel: a 25-byte header, a payload and padding that the receiver skips.
`Frame.intoBytes` and `Frame.parse` are the two directions. A frame's layout is stated once, as
`frameBytes`; writing produces it and reading inverts it, whatever follows. `Frame.format_exact`
says both at once, and what is waited for and what refused.
-/

/-- The type of a frame. -/
inductive FrameType where
  /-- Open a TCP stream. -/
  | connect
  /-- Data of a TCP stream. -/
  | data
  /-- Close a stream. -/
  | close
  /-- Keep-alive. -/
  | heartbeat
  /-- Open a UDP session. -/
  | udpConnect
  /-- A datagram of a UDP session. -/
  | udpData
  /-- A diagnostic report. -/
  | diag
  /-- Flow-control credit. -/
  | credit
  /-- Padding only. -/
  | cover
  deriving DecidableEq, Repr

namespace FrameType

/-- The code on the wire. -/
def toByte : FrameType → UInt8
  | connect => 0x00
  | data => 0x01
  | close => 0x02
  | heartbeat => 0x03
  | udpConnect => 0x04
  | udpData => 0x05
  | diag => 0x06
  | credit => 0x07
  | cover => 0x08

/-- A byte as two lowercase hexadecimal digits. -/
def hexByte (b : UInt8) : String :=
  String.ofList [Nat.digitChar (b.toNat / 16), Nat.digitChar (b.toNat % 16)]

/-- Read a code. -/
def ofByte (value : UInt8) : Except String FrameType :=
  match value with
  | 0x00 => .ok connect
  | 0x01 => .ok data
  | 0x02 => .ok close
  | 0x03 => .ok heartbeat
  | 0x04 => .ok udpConnect
  | 0x05 => .ok udpData
  | 0x06 => .ok diag
  | 0x07 => .ok credit
  | 0x08 => .ok cover
  | unknown => .error ("Unknown FrameType byte: 0x" ++ hexByte unknown)

@[simp] theorem ofByte_toByte (t : FrameType) : ofByte t.toByte = .ok t := by
  cases t <;> rfl

/-- A byte that is read as a type is the one the type is written as. -/
theorem toByte_of_ofByte {b : UInt8} {t : FrameType} (h : ofByte b = .ok t) :
    t.toByte = b := by
  unfold ofByte at h
  split at h
  all_goals cases h
  all_goals rfl

/-- The bytes that are refused are those no type is written as. -/
theorem ofByte_eq_error_iff {b : UInt8} :
    (∃ e, ofByte b = .error e) ↔ ∀ t : FrameType, t.toByte ≠ b := by
  constructor
  · rintro ⟨e, he⟩ t rfl
    rw [ofByte_toByte] at he
    cases he
  · intro hnone
    rcases hb : ofByte b with e | t
    · exact ⟨e, rfl⟩
    · exact absurd (toByte_of_ofByte hb) (hnone t)

end FrameType

/-- The header of a frame. -/
structure FrameHeader where
  authTag : ByteArr 16
  streamId : UInt32
  payloadLen : UInt16
  paddingLen : UInt16
  frameType : FrameType
  deriving DecidableEq, Repr

/-- A frame. Padding is not kept. -/
structure Frame where
  payload : Bytes
  header : FrameHeader
  deriving DecidableEq, Repr

/-- A frame to be sent: stream, type and payload. -/
structure Item where
  streamId : UInt32
  frameType : FrameType
  payload : Bytes
  deriving DecidableEq, Repr

/-- The frame a receiver reads back, without its tag and lengths. -/
def Frame.item (f : Frame) : Item := ⟨f.header.streamId, f.header.frameType, f.payload⟩

/-- The size of a header: tag, stream id, type and the two lengths. -/
def frameHeaderSize : ℕ := 16 + 4 + 1 + 2 + 2

/-- The most plaintext a record holds. -/
def maxRecordPlaintext : ℕ := 2 ^ 14 + 1

/-- The most payload a frame holds. -/
def maxFramePayload : ℕ := maxRecordPlaintext - frameHeaderSize

namespace FrameHeader

/-- Whether 25 bytes are there. -/
def canParse : Exec Bytes String Bool := do
  return decide (frameHeaderSize ≤ (← Buf.remaining))

/-- Read a header off the buffer. An unknown type leaves the buffer alone. -/
def parse : Exec Bytes String (Option FrameHeader) := do
  if !(← canParse) then return none
  let authTag ← Exec.lift (.expect (ByteArr.ofBytes? 16 (← Buf.slice 0 16)))
  let streamId := UInt32.ofNat (beVal (← Buf.slice 16 4))
  let frameType ← Exec.lift (.ofExcept (FrameType.ofByte (← Buf.byteAt 20)))
  let payloadLen := UInt16.ofNat (beVal (← Buf.slice 21 2))
  let paddingLen := UInt16.ofNat (beVal (← Buf.slice 23 2))
  Buf.advance frameHeaderSize
  return some { authTag, streamId, frameType, payloadLen, paddingLen }

end FrameHeader

namespace Frame

/-- A frame with no tag and no padding yet. The length field is the payload's length as a `u16`. -/
def new (streamId : UInt32) (frameType : FrameType) (payload : Bytes) : Frame where
  payload := payload
  header :=
    { authTag := ByteArr.zero 16
      streamId := streamId
      payloadLen := UInt16.ofNat payload.length
      paddingLen := 0
      frameType := frameType }

/-- The size of a frame before encryption. -/
def wireLen (payloadLen : ℕ) (paddingLen : UInt16) : ℕ :=
  frameHeaderSize + payloadLen + paddingLen.toNat

/-- Serialise a frame under a tag, with random padding. -/
def intoBytes (f : Frame) (authKey : ByteArr 16) (paddingLen : UInt16) (rng : Entropy) :
    Bytes × Entropy :=
  let header := { f.header with paddingLen := paddingLen }
  let headerBuf := authKey.val ++ beBytes 4 header.streamId.toNat ++ [header.frameType.toByte]
    ++ beBytes 2 header.payloadLen.toNat ++ beBytes 2 header.paddingLen.toNat
  (headerBuf ++ f.payload ++ rng.take paddingLen.toNat, rng.drop paddingLen.toNat)

/-- Whether a whole frame is there, looking at the two lengths without moving the cursor. -/
def canParse : Exec Bytes String Bool := do
  if (← Buf.remaining) < frameHeaderSize then return false
  let pLen := (be16 (← Buf.byteAt 21) (← Buf.byteAt 22)).toNat
  let padLen := (be16 (← Buf.byteAt 23) (← Buf.byteAt 24)).toNat
  return decide (frameHeaderSize + pLen + padLen ≤ (← Buf.remaining))

/-- Take one frame off: header, payload, and the padding skipped. -/
def parse : Exec Bytes String (Option Frame) := do
  if !(← canParse) then return none
  let header ← Exec.lift (.expect (← FrameHeader.parse))
  let payload ← Buf.splitTo header.payloadLen.toNat
  Buf.advance header.paddingLen.toNat
  return some { header, payload }

end Frame

/-! ### The layout -/

/-- The header of a frame, with its type still a byte. -/
def headerBytes (tag : ByteArr 16) (streamId : UInt32) (type : UInt8)
    (payloadLen paddingLen : UInt16) : Bytes :=
  tag.val ++ beBytes 4 streamId.toNat ++ [type] ++ beBytes 2 payloadLen.toNat
    ++ beBytes 2 paddingLen.toNat

@[simp] theorem length_headerBytes (tag : ByteArr 16) (streamId : UInt32) (type : UInt8)
    (payloadLen paddingLen : UInt16) :
    (headerBytes tag streamId type payloadLen paddingLen).length = frameHeaderSize := by
  simp [headerBytes, frameHeaderSize]

/-- Any 25 bytes are a header. -/
theorem exists_headerBytes {b : Bytes} (h : frameHeaderSize ≤ b.length) :
    ∃ tag streamId type payloadLen paddingLen rest,
      b = headerBytes tag streamId type payloadLen paddingLen ++ rest := by
  have h25 : 25 ≤ b.length := h
  have field : ∀ i n, i + n ≤ b.length →
      beBytes n (beVal ((b.drop i).take n)) = (b.drop i).take n := fun i n hin ↦ by
    have hlen : ((b.drop i).take n).length = n := by simp; omega
    simpa only [hlen] using beBytes_beVal ((b.drop i).take n)
  have bound : ∀ i n, i + n ≤ b.length → beVal ((b.drop i).take n) < 256 ^ n := fun i n hin ↦ by
    have hlen : ((b.drop i).take n).length = n := by simp; omega
    simpa only [hlen] using beVal_lt ((b.drop i).take n)
  refine ⟨⟨b.take 16, by simp; omega⟩, UInt32.ofNat (beVal ((b.drop 16).take 4)), b[20],
    UInt16.ofNat (beVal ((b.drop 21).take 2)), UInt16.ofNat (beVal ((b.drop 23).take 2)),
    b.drop 25, ?_⟩
  rw [headerBytes, UInt32.toNat_ofNat_of_lt' (bound 16 4 (by omega)),
    UInt16.toNat_ofNat_of_lt' (bound 21 2 (by omega)),
    UInt16.toNat_ofNat_of_lt' (bound 23 2 (by omega)), field 16 4 (by omega),
    field 21 2 (by omega), field 23 2 (by omega)]
  have split : ∀ i n, b.drop i = (b.drop i).take n ++ b.drop (i + n) := fun i n ↦ by
    rw [← List.drop_drop, List.take_append_drop]
  have byte : b.drop 20 = [b[20]] ++ b.drop 21 := List.drop_eq_getElem_cons (by omega)
  have h21 := (split 21 2).trans (congrArg _ (split 23 2))
  have h16 := (split 16 4).trans (congrArg _ (byte.trans (congrArg _ h21)))
  simpa only [List.append_assoc] using (List.take_append_drop 16 b).symm.trans (congrArg _ h16)

/-- Reading a header inverts writing one. -/
theorem FrameHeader.parse_headerBytes (tag : ByteArr 16) (streamId : UInt32) (type : UInt8)
    (payloadLen paddingLen : UInt16) (rest : Bytes) :
    FrameHeader.parse (headerBytes tag streamId type payloadLen paddingLen ++ rest) =
      match FrameType.ofByte type with
      | .ok frameType =>
        (.ok (some { authTag := tag, streamId, payloadLen, paddingLen, frameType }), rest)
      | .error e => (.err e, headerBytes tag streamId type payloadLen paddingLen ++ rest) := by
  set b := headerBytes tag streamId type payloadLen paddingLen ++ rest with hb
  have hcan : FrameHeader.canParse b = (.ok true, b) := by
    rw [FrameHeader.canParse, Exec.bind_ok (Buf.remaining_apply b)]
    simp [hb]
  have htag : (Buf.slice 0 16 : Exec Bytes String Bytes) b = (.ok tag.val, b) := by
    simpa [hb, headerBytes] using Buf.slice_append (ε := String) (a := []) rfl tag.property _
  have hsid : (Buf.slice 16 4 : Exec Bytes String Bytes) b
      = (.ok (beBytes 4 streamId.toNat), b) := by
    simpa only [hb, headerBytes, List.append_assoc] using
      Buf.slice_append (ε := String) tag.property (length_beBytes 4 streamId.toNat)
        ([type] ++ (beBytes 2 payloadLen.toNat ++ (beBytes 2 paddingLen.toNat ++ rest)))
  have htype : (Buf.byteAt 20 : Exec Bytes String UInt8) b = (.ok type, b) := by
    simpa only [hb, headerBytes, List.append_assoc, List.cons_append, List.nil_append] using
      Buf.byteAt_append (ε := String) (a := tag.val ++ beBytes 4 streamId.toNat) (i := 20)
        (by simp) type (beBytes 2 payloadLen.toNat ++ (beBytes 2 paddingLen.toNat ++ rest))
  have hpay : (Buf.slice 21 2 : Exec Bytes String Bytes) b
      = (.ok (beBytes 2 payloadLen.toNat), b) := by
    simpa only [hb, headerBytes, List.append_assoc] using
      Buf.slice_append (ε := String) (a := tag.val ++ beBytes 4 streamId.toNat ++ [type]) (i := 21)
        (by simp) (length_beBytes 2 payloadLen.toNat) (beBytes 2 paddingLen.toNat ++ rest)
  have hpad : (Buf.slice 23 2 : Exec Bytes String Bytes) b
      = (.ok (beBytes 2 paddingLen.toNat), b) := by
    simpa only [hb, headerBytes, List.append_assoc] using
      Buf.slice_append (ε := String) (i := 23)
        (a := tag.val ++ beBytes 4 streamId.toNat ++ [type] ++ beBytes 2 payloadLen.toNat)
        (by simp) (length_beBytes 2 paddingLen.toNat) rest
  rw [FrameHeader.parse, Exec.bind_ok hcan]
  simp only [Bool.not_true, Bool.false_eq_true, if_false, Exec.bind_ok htag, ByteArr.ofBytes?_val,
    Outcome.expect_some, Exec.lift_ok_bind, Exec.bind_ok hsid, Exec.bind_ok htype,
    beVal_beBytes_of_lt (n := 4) streamId.toNat_lt, UInt32.ofNat_toNat]
  rcases FrameType.ofByte type with e | frameType
  · rfl
  · have hadv : (Buf.advance frameHeaderSize : Exec Bytes String Unit) b = (.ok (), rest) :=
      Buf.advance_append (length_headerBytes _ _ _ _ _) rest
    simp only [Outcome.ofExcept_ok, Exec.lift_ok_bind, Exec.bind_ok hpay, Exec.bind_ok hpad,
      beVal_beBytes_of_lt (n := 2) payloadLen.toNat_lt, UInt16.ofNat_toNat,
      beVal_beBytes_of_lt (n := 2) paddingLen.toNat_lt, Exec.bind_ok hadv, Exec.pure_apply]

/-- The lengths of a header fit what follows it. -/
theorem Frame.canParse_headerBytes (tag : ByteArr 16) (streamId : UInt32) (type : UInt8)
    (payloadLen paddingLen : UInt16) (rest : Bytes) :
    Frame.canParse (headerBytes tag streamId type payloadLen paddingLen ++ rest)
      = (.ok (decide (payloadLen.toNat + paddingLen.toNat ≤ rest.length)),
        headerBytes tag streamId type payloadLen paddingLen ++ rest) := by
  set b := headerBytes tag streamId type payloadLen paddingLen ++ rest with hb
  have hlen : b.length = frameHeaderSize + rest.length := by simp [hb]
  have byte : ∀ (a : Bytes) (i : ℕ) (x : UInt8) (c : Bytes), a.length = i → b = a ++ x :: c →
      (Buf.byteAt i : Exec Bytes String UInt8) b = (.ok x, b) := fun a i x c ha hbx ↦ by
    rw [hbx]
    exact Buf.byteAt_append ha x c
  let front := tag.val ++ beBytes 4 streamId.toNat ++ [type]
  have hfront : front.length = 21 := by simp [front]
  have h21 := byte front 21 (UInt8.ofNat (payloadLen.toNat / 256 ^ 1))
    (UInt8.ofNat (payloadLen.toNat / 256 ^ 0) :: (beBytes 2 paddingLen.toNat ++ rest))
    hfront (by simp [hb, headerBytes, front, beBytes])
  have h22 := byte (front ++ [UInt8.ofNat (payloadLen.toNat / 256 ^ 1)]) 22
    (UInt8.ofNat (payloadLen.toNat / 256 ^ 0)) (beBytes 2 paddingLen.toNat ++ rest)
    (by simp [hfront]) (by simp [hb, headerBytes, front, beBytes])
  have h23 := byte (front ++ beBytes 2 payloadLen.toNat) 23
    (UInt8.ofNat (paddingLen.toNat / 256 ^ 1)) (UInt8.ofNat (paddingLen.toNat / 256 ^ 0) :: rest)
    (by simp [hfront]) (by simp [hb, headerBytes, front, beBytes])
  have h24 := byte (front ++ beBytes 2 payloadLen.toNat
      ++ [UInt8.ofNat (paddingLen.toNat / 256 ^ 1)]) 24
    (UInt8.ofNat (paddingLen.toNat / 256 ^ 0)) rest
    (by simp [hfront]) (by simp [hb, headerBytes, front, beBytes])
  rw [Frame.canParse, Exec.bind_ok (Buf.remaining_apply b), if_neg (by omega), Exec.bind_ok h21,
    Exec.bind_ok h22, Exec.bind_ok h23, Exec.bind_ok h24, Exec.bind_ok (Buf.remaining_apply b),
    be16_beBytes, be16_beBytes, Exec.pure_apply]
  congr 2
  exact decide_eq_decide.mpr (by omega)

/-- **What a frame parse does**: wait for the lengths to arrive, then refuse an unknown type or take
the frame off. -/
theorem Frame.parse_headerBytes (tag : ByteArr 16) (streamId : UInt32) (type : UInt8)
    (payloadLen paddingLen : UInt16) (rest : Bytes) :
    Frame.parse (headerBytes tag streamId type payloadLen paddingLen ++ rest) =
      if payloadLen.toNat + paddingLen.toNat ≤ rest.length then
        match FrameType.ofByte type with
        | .ok frameType =>
          (.ok (some ⟨rest.take payloadLen.toNat,
            { authTag := tag, streamId, payloadLen, paddingLen, frameType }⟩),
            rest.drop (payloadLen.toNat + paddingLen.toNat))
        | .error e => (.err e, headerBytes tag streamId type payloadLen paddingLen ++ rest)
      else (.ok none, headerBytes tag streamId type payloadLen paddingLen ++ rest) := by
  have hcan := Frame.canParse_headerBytes tag streamId type payloadLen paddingLen rest
  have hheader := FrameHeader.parse_headerBytes tag streamId type payloadLen paddingLen rest
  rw [Frame.parse, Exec.bind_ok hcan]
  by_cases hle : payloadLen.toNat + paddingLen.toNat ≤ rest.length
  · simp only [hle, decide_true, Bool.not_true, Bool.false_eq_true, if_false, if_true]
    rcases htype : FrameType.ofByte type with e | frameType <;> rw [htype] at hheader
    · exact Exec.bind_err hheader
    · have hpay := Buf.splitTo_of_le (ε := String) (b := rest) (n := payloadLen.toNat) (by omega)
      have hpad := Buf.advance_of_le (ε := String) (b := rest.drop payloadLen.toNat)
        (n := paddingLen.toNat) (by simp; omega)
      rw [Exec.bind_ok hheader]
      simp only [Outcome.expect_some, Exec.lift_ok_bind, Exec.bind_ok hpay, Exec.bind_ok hpad,
        Exec.pure_apply, List.drop_drop]
  · simp [hle]

theorem Frame.parse_of_short {b : Bytes} (h : b.length < frameHeaderSize) :
    Frame.parse b = (.ok none, b) := by
  have hcan : Frame.canParse b = (.ok false, b) := by
    rw [Frame.canParse, Exec.bind_ok (Buf.remaining_apply b), if_pos h]
    rfl
  rw [Frame.parse, Exec.bind_ok hcan]
  rfl

/-- The three ways a parse ends. Only a frame shortens the buffer, by a header at least. -/
theorem Frame.parse_cases (b : Bytes) :
    Frame.parse b = (.ok none, b) ∨ (∃ e, Frame.parse b = (.err e, b)) ∨
    ∃ f rest, Frame.parse b = (.ok (some f), rest) ∧ rest <:+ b ∧
      rest.length + frameHeaderSize ≤ b.length := by
  by_cases hshort : b.length < frameHeaderSize
  · exact Or.inl (parse_of_short hshort)
  obtain ⟨tag, streamId, type, payloadLen, paddingLen, rest, rfl⟩ :=
    exists_headerBytes (Nat.le_of_not_lt hshort)
  have hparse := Frame.parse_headerBytes tag streamId type payloadLen paddingLen rest
  split at hparse
  · rcases htype : FrameType.ofByte type with e | frameType <;> rw [htype] at hparse
    · exact Or.inr (Or.inl ⟨e, hparse⟩)
    · refine Or.inr (Or.inr ⟨_, _, hparse, ?_, by simp; omega⟩)
      exact (List.drop_suffix _ _).trans (List.suffix_append _ _)
  · exact Or.inl hparse

/-! ### Frames on the wire -/

/-- A frame as it is laid out before encryption. -/
def frameBytes (tag : ByteArr 16) (streamId : UInt32) (frameType : FrameType)
    (payload padding : Bytes) : Bytes :=
  headerBytes tag streamId frameType.toByte (UInt16.ofNat payload.length)
    (UInt16.ofNat padding.length) ++ (payload ++ padding)

@[simp] theorem length_frameBytes (tag : ByteArr 16) (streamId : UInt32) (frameType : FrameType)
    (payload padding : Bytes) :
    (frameBytes tag streamId frameType payload padding).length
      = frameHeaderSize + payload.length + padding.length := by
  simp [frameBytes, Nat.add_assoc]

theorem Frame.intoBytes_new (streamId : UInt32) (frameType : FrameType) (payload : Bytes)
    (tag : ByteArr 16) (paddingLen : UInt16) (rng : Entropy) :
    (Frame.new streamId frameType payload).intoBytes tag paddingLen rng
      = (frameBytes tag streamId frameType payload (rng.take paddingLen.toNat),
        rng.drop paddingLen.toNat) := by
  simp [Frame.intoBytes, Frame.new, frameBytes, headerBytes, Stream'.length_take]

/-- The frame a receiver gets from `frameBytes`. -/
def Frame.received (tag : ByteArr 16) (streamId : UInt32) (frameType : FrameType)
    (payload padding : Bytes) : Frame :=
  ⟨payload, { authTag := tag, streamId := streamId, frameType := frameType
              payloadLen := UInt16.ofNat payload.length
              paddingLen := UInt16.ofNat padding.length }⟩

/-- **Parsing inverts laying out**, whatever follows. -/
theorem Frame.parse_frameBytes (tag : ByteArr 16) (streamId : UInt32) (frameType : FrameType)
    {payload padding : Bytes} (hpay : payload.length < 2 ^ 16) (hpad : padding.length < 2 ^ 16)
    (rest : Bytes) :
    Frame.parse (frameBytes tag streamId frameType payload padding ++ rest)
      = (.ok (some (Frame.received tag streamId frameType payload padding)), rest) := by
  have hp : (UInt16.ofNat payload.length).toNat = payload.length := UInt16.toNat_ofNat_of_lt' hpay
  have hd : (UInt16.ofNat padding.length).toNat = padding.length := UInt16.toNat_ofNat_of_lt' hpad
  rw [frameBytes, List.append_assoc, Frame.parse_headerBytes, if_pos (by simp [hp, hd]),
    FrameType.ofByte_toByte]
  simp only [hp, hd, List.append_assoc, List.take_left, Frame.received]
  rw [← List.drop_drop, List.drop_left, List.drop_left]

/-! ### Both directions -/

namespace Frame

/-- A buffer begins with a whole frame that has the given type byte. -/
def BeginsWith (b : Bytes) (type : UInt8) : Prop :=
  ∃ tag streamId payloadLen paddingLen rest,
    b = headerBytes tag streamId type payloadLen paddingLen ++ rest ∧
      payloadLen.toNat + paddingLen.toNat ≤ rest.length

/-- A frame that has not arrived as a whole is waited for. -/
theorem parse_of_prefix {tag : ByteArr 16} {streamId : UInt32} {frameType : FrameType}
    {payload padding p : Bytes} (hpay : payload.length < 2 ^ 16) (hpad : padding.length < 2 ^ 16)
    (hpre : p <+: frameBytes tag streamId frameType payload padding)
    (hne : p ≠ frameBytes tag streamId frameType payload padding) :
    parse p = (.ok none, p) := by
  have hlt : p.length < (frameBytes tag streamId frameType payload padding).length :=
    Nat.lt_of_le_of_ne hpre.length_le fun heq ↦ hne (hpre.eq_of_length heq)
  rw [length_frameBytes] at hlt
  rcases Nat.lt_or_ge p.length frameHeaderSize with hshort | hheader
  · exact parse_of_short hshort
  -- the header has arrived, so what is missing is part of the payload or of the padding
  rw [List.prefix_iff_eq_take.mp hpre, frameBytes, List.take_append, length_headerBytes,
    List.take_of_length_le (by rw [length_headerBytes]; exact hheader), parse_headerBytes,
    UInt16.toNat_ofNat_of_lt' hpay, UInt16.toNat_ofNat_of_lt' hpad, if_neg]
  rw [List.length_take, List.length_append]
  omega

/-- What a parse takes off is the frame it gives, written with the padding it skips. -/
theorem eq_intoBytes_of_parse {b rest : Bytes} {f : Frame}
    (h : parse b = (.ok (some f), rest)) :
    f.payload.length = f.header.payloadLen.toNat ∧
      ∃ rng, b = (f.intoBytes f.header.authTag f.header.paddingLen rng).1 ++ rest := by
  rcases Nat.lt_or_ge b.length frameHeaderSize with hshort | hheader
  · rw [parse_of_short hshort] at h
    cases h
  obtain ⟨tag, streamId, type, payloadLen, paddingLen, body, rfl⟩ := exists_headerBytes hheader
  rw [parse_headerBytes] at h
  split at h
  · rename_i hle
    rcases htype : FrameType.ofByte type with e | frameType <;> rw [htype] at h
    · cases h
    · cases h
      refine ⟨List.length_take_of_le (by omega),
        (body.drop payloadLen.toNat).take paddingLen.toNat ++ₛ Stream'.const 0, ?_⟩
      have hpad : Stream'.take paddingLen.toNat
          ((body.drop payloadLen.toNat).take paddingLen.toNat ++ₛ Stream'.const 0)
            = (body.drop payloadLen.toNat).take paddingLen.toNat := by
        have hle' : paddingLen.toNat
            ≤ ((body.drop payloadLen.toNat).take paddingLen.toNat).length := by
          rw [List.length_take, List.length_drop]
          omega
        rw [Stream'.take_append_of_le_length _ _ _ hle', List.take_take, Nat.min_self]
      have hbody : body = body.take payloadLen.toNat
          ++ ((body.drop payloadLen.toNat).take paddingLen.toNat
            ++ body.drop (payloadLen.toNat + paddingLen.toNat)) := by
        rw [← List.drop_drop, List.take_append_drop, List.take_append_drop]
      rw [intoBytes, hpad]
      show headerBytes tag streamId type payloadLen paddingLen ++ body
        = headerBytes tag streamId frameType.toByte payloadLen paddingLen
          ++ body.take payloadLen.toNat ++ (body.drop payloadLen.toNat).take paddingLen.toNat
          ++ body.drop (payloadLen.toNat + paddingLen.toNat)
      rw [FrameType.toByte_of_ofByte htype, List.append_assoc, List.append_assoc, ← hbody]
  · cases h

/-- Refused are the whole frames of a type that there is not. -/
theorem parse_eq_err_iff (b : Bytes) :
    (∃ e b', parse b = (.err e, b')) ↔
      ∃ type, BeginsWith b type ∧ ∀ t : FrameType, t.toByte ≠ type := by
  constructor
  · rintro ⟨e, b', h⟩
    rcases Nat.lt_or_ge b.length frameHeaderSize with hshort | hheader
    · rw [parse_of_short hshort] at h
      cases h
    obtain ⟨tag, streamId, type, payloadLen, paddingLen, body, rfl⟩ := exists_headerBytes hheader
    rw [parse_headerBytes] at h
    split at h
    · rename_i hle
      refine ⟨type, ⟨tag, streamId, payloadLen, paddingLen, body, rfl, hle⟩,
        FrameType.ofByte_eq_error_iff.mp ?_⟩
      rcases htype : FrameType.ofByte type with e' | frameType <;> rw [htype] at h
      · exact ⟨e', rfl⟩
      · cases h
    · cases h
  · rintro ⟨type, ⟨tag, streamId, payloadLen, paddingLen, body, rfl, hle⟩, hnone⟩
    obtain ⟨e, he⟩ := FrameType.ofByte_eq_error_iff.mpr hnone
    rw [parse_headerBytes, if_pos hle, he]
    exact ⟨e, _, rfl⟩

/-- **The frame format is exact in both directions.** What is written is read back, whatever
follows, and not before it is there; what is read was written, up to the padding; and what is
refused is a whole frame of a type that there is not. -/
theorem format_exact :
    (∀ (tag : ByteArr 16) (streamId : UInt32) (frameType : FrameType) (payload : Bytes)
        (paddingLen : UInt16) (rng : Entropy), payload.length ≤ 65535 →
      let bytes := ((Frame.new streamId frameType payload).intoBytes tag paddingLen rng).1
      (∀ rest, parse (bytes ++ rest) = (.ok (some ⟨payload,
          { authTag := tag, streamId := streamId, payloadLen := UInt16.ofNat payload.length
            paddingLen := paddingLen, frameType := frameType }⟩), rest)) ∧
      ∀ p, p <+: bytes → p ≠ bytes → parse p = (.ok none, p)) ∧
    (∀ b f rest, parse b = (.ok (some f), rest) →
      f.payload.length = f.header.payloadLen.toNat ∧
        ∃ rng, b = (f.intoBytes f.header.authTag f.header.paddingLen rng).1 ++ rest) ∧
    (∀ b, (∃ e b', parse b = (.err e, b')) ↔
      ∃ type, BeginsWith b type ∧ ∀ t : FrameType, t.toByte ≠ type) ∧
    ∀ b e b', parse b = (.err e, b') → b' = b := by
  refine ⟨fun tag streamId frameType payload paddingLen rng hpay ↦ ?_,
    fun b f rest ↦ eq_intoBytes_of_parse, fun b ↦ ?_, fun b e b' h ↦ ?_⟩
  · have hpad : (rng.take paddingLen.toNat).length = paddingLen.toNat := Stream'.length_take _ _
    have hpad' : (rng.take paddingLen.toNat).length < 2 ^ 16 := by
      rw [hpad]
      exact paddingLen.toNat_lt
    have hbytes := congrArg Prod.fst (intoBytes_new streamId frameType payload tag paddingLen rng)
    refine ⟨fun rest ↦ ?_, fun p hpre hne ↦ ?_⟩
    · rw [hbytes, parse_frameBytes tag streamId frameType (Nat.lt_succ_of_le hpay) hpad', received,
        hpad, UInt16.ofNat_toNat]
    · rw [hbytes] at hpre hne
      exact parse_of_prefix (Nat.lt_succ_of_le hpay) hpad' hpre hne
  · exact parse_eq_err_iff b
  · rcases parse_cases b with hnone | ⟨e', herr⟩ | ⟨f, rest, hsome, -, -⟩
    · cases hnone.symm.trans h
    · cases herr.symm.trans h
      rfl
    · cases hsome.symm.trans h

/-- A frame with three bytes of data and two of padding, and a byte after it. -/
theorem format_exact_data :
    parse (((Frame.new 7 .data [1, 2, 3]).intoBytes (.zero 16) 2 (Stream'.const 9)).1 ++ [0xff])
      = (.ok (some ⟨[1, 2, 3],
          { authTag := .zero 16, streamId := 7, payloadLen := 3, paddingLen := 2
            frameType := .data }⟩), [0xff]) :=
  (format_exact.1 (.zero 16) 7 .data [1, 2, 3] 2 (Stream'.const 9) (by decide)).1 [0xff]

end Frame
