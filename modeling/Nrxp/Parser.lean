import Nrxp.Bridge.AppData
import Nrxp.Frame
import Nrxp.Tls.Handshake

/-!
# The parsers

Everything that is read from a buffer comes as a pair: a test whether a whole message is there, and
a parser that takes it off. Each pair keeps one contract, although the pairs look at very different
things: five ask their test first, the raw payload takes whatever there is, and the server hello and
the extension block walk over the lengths once for the test and once more for the parser.

What has arrived is one thing and what may still arrive another. Records, hello headers and frames
are also `Incremental`. The bodies of the hellos and the extension block are not: they are parsed
from a buffer that holds the whole message, and their last field may be absent.
-/

/-! ### Records -/

theorem TlsRecord.parserContract : ParserContract TlsRecord.canParse TlsRecord.parse :=
  .of_guard
    (fun b ↦ by
      by_cases hshort : b.length < 5
      · exact ⟨false, canParse_of_short hshort⟩
      · obtain ⟨t, v1, v2, l1, l2, rest, rfl⟩ := exists_header (Nat.not_lt.mp hshort)
        obtain ⟨ready, hready, -⟩ := canParse_cons t v1 v2 l1 l2 rest
        exact ⟨ready, hready⟩)
    (.bind fun _ ↦ .bind fun _ ↦ .bind fun _ ↦ .bind fun _ ↦ .bind fun _ ↦ .bind fun _ ↦ .some _)
    (.bind .getU8 fun _ ↦ .bind .getU16 fun _ ↦ .bind .getU16 fun _ ↦ .bind (.lift _) fun _ ↦
      .bind (.lift _) fun _ ↦ .bind (.splitTo _) fun _ ↦ .pure _)

theorem TlsRecord.parse_ne_panic (b : Bytes) : (TlsRecord.parse b).1 ≠ .panic := by
  rcases parse_cases b with hrun | ⟨m, header, rest, hrun, -⟩ |
      ⟨c, v1, v2, l1, l2, v, payload, rest, hrun, -⟩ <;> rw [hrun] <;> simp

theorem ApplicationData.parserContract :
    ParserContract ApplicationData.canParse ApplicationData.parse where
  decides b := by
    cases b with
    | nil => exact Or.inl ⟨rfl, rfl⟩
    | cons x b =>
      refine Or.inr ⟨rfl, ?_⟩
      rw [parse, Exec.bind_ok (Buf.remaining_apply _), if_neg (by simp)]
      exact Answers.bind (fun _ ↦ .some _) _
  takesFront := .bind .remaining fun _ ↦ .ite (.pure _) (.bind (.splitTo _) fun _ ↦ .pure _)

theorem ApplicationData.parse_ne_panic (b : Bytes) : (ApplicationData.parse b).1 ≠ .panic := by
  cases b with
  | nil => simp [parse, Exec.bind_ok (Buf.remaining_apply _)]
  | cons x b =>
    rw [parse, Exec.bind_ok (Buf.remaining_apply _), if_neg (by simp),
      Exec.bind_ok (Buf.splitTo_of_le le_rfl)]
    simp

/-! ### Hellos -/

theorem HelloHeader.parserContract : ParserContract HelloHeader.canParse HelloHeader.parse :=
  .of_guard
    (fun b ↦ by
      match b with
      | [] | [_] | [_, _] | [_, _, _] => exact ⟨false, rfl⟩
      | t :: n1 :: n2 :: n3 :: body =>
        refine ⟨t == HelloType.client.toByte || t == HelloType.server.toByte, ?_⟩
        rw [canParse, Exec.bind_ok (Buf.remaining_apply _), if_neg (by simp),
          Exec.bind_ok (Buf.byteAt_zero_cons _ _), Exec.pure_apply])
    (.bind fun _ ↦ .bind fun _ ↦ .bind fun _ ↦ .some _)
    (.bind .getU8 fun _ ↦ .bind (.lift _) fun _ ↦ .bind .getU24 fun _ ↦ .pure _)

theorem HelloHeader.parse_incremental : Incremental HelloHeader.parse where
  keeps b h := by
    rcases parse_cases b with hrun | ⟨type, n1, n2, n3, body, rfl⟩
    · rw [hrun]
    · rw [parse_cons] at h
      cases h
  append b h more := by
    rcases parse_cases b with hrun | ⟨type, n1, n2, n3, body, rfl⟩
    · rw [hrun] at h
      exact absurd rfl h
    · rw [parse_cons]
      exact parse_cons type n1 n2 n3 (body ++ more)

theorem HelloHeader.parse_ne_panic (b : Bytes) : (HelloHeader.parse b).1 ≠ .panic := by
  rcases parse_cases b with hrun | ⟨type, n1, n2, n3, body, rfl⟩
  · rw [hrun]
    simp
  · rw [parse_cons]
    simp

namespace ClientHello

theorem takesFront_readExtensions : TakesFront readExtensions :=
  .bind .remaining fun _ ↦ .ite (.bind .getU16 fun _ ↦ .splitTo _) (.pure _)

theorem parserContract : ParserContract ClientHello.canParse ClientHello.parse :=
  .of_guard
    (fun b ↦ by
      rcases exists_layout b with hwait | ⟨l, rfl⟩
      · exact ⟨false, hwait⟩
      · exact ⟨_, canParse_bytes l⟩)
    (.bind fun _ ↦ .bind fun _ ↦ .bind fun _ ↦ .bind fun _ ↦ .bind fun _ ↦ .bind fun _ ↦
      .bind fun _ ↦ .bind fun _ ↦ .bind fun _ ↦ .bind fun _ ↦ .bind fun _ ↦ .some _)
    (.bind .getU16 fun _ ↦ .bind (.lift _) fun _ ↦ .bind (.copyToSlice _) fun _ ↦ .bind .getU8
      fun _ ↦ .bind (.splitTo _) fun _ ↦ .bind .getU16 fun _ ↦ .bind (.splitTo _) fun _ ↦
      .bind (.lift _) fun _ ↦ .bind .getU8 fun _ ↦ .bind (.advance _) fun _ ↦
      .bind takesFront_readExtensions fun _ ↦ .pure _)

end ClientHello

namespace ServerHello

theorem answers_readMessage : Answers parse.readMessage :=
  .bind fun _ ↦ .bind fun _ ↦ .bind fun _ ↦ .bind fun _ ↦ .bind fun _ ↦ .bind fun _ ↦
    .bind fun _ ↦ .bind fun _ ↦ .some _

/-- Where the message ends that a buffer begins with, by the lengths in it. -/
def messageEnd (b : Bytes) : ℕ :=
  let front := 34 + (1 + (b.getD 34 0).toNat) + 3
  if front + 2 ≤ b.length then front + (2 + (be16 (b.getD front 0) (b.getD (front + 1) 0)).toNat)
  else front

theorem byteAt_getD {b : Bytes} {i : ℕ} (h : i < b.length) :
    (Buf.byteAt i : Exec Bytes TlsError UInt8) b = (.ok (b.getD i 0), b) := by
  rw [Buf.byteAt_of_lt h, List.getD_eq_getElem?_getD, List.getElem?_eq_getElem h, Option.getD_some]

theorem canParse_eq {b : Bytes} (h : ¬b.length < 34 + 1) :
    canParse b = (.ok (decide (messageEnd b ≤ b.length)), b) := by
  rw [canParse, Exec.bind_ok (Buf.remaining_apply _), if_neg h,
    Exec.bind_ok (byteAt_getD (by omega)), Exec.bind_ok (Buf.remaining_apply _), messageEnd]
  dsimp only
  split
  · rw [Exec.bind_ok (byteAt_getD (by omega)), Exec.bind_ok (byteAt_getD (by omega))]
    rfl
  · rfl

/-- The parser cuts the message out there. -/
theorem parse_eq_of_length {b : Bytes} (h : ¬b.length < 34 + 1) :
    parse b = if messageEnd b ≤ b.length then
        ((parse.readMessage (b.take (messageEnd b))).1, b.drop (messageEnd b))
      else (.ok none, b) := by
  have hend (offset : ℕ) : (Buf.remaining >>= fun remaining ↦
      if remaining < offset then pure none
      else Buf.splitTo offset >>= fun msg ↦ Exec.lift (parse.readMessage msg).1 :
        Exec Bytes TlsError (Option ServerHello)) b
      = if offset ≤ b.length then ((parse.readMessage (b.take offset)).1, b.drop offset)
        else (.ok none, b) := by
    rw [Exec.bind_ok (Buf.remaining_apply _)]
    by_cases hle : offset ≤ b.length
    · rw [if_neg (Nat.not_lt.mpr hle), if_pos hle, Exec.bind_ok (Buf.splitTo_of_le hle),
        Exec.lift_apply]
    · rw [if_pos (Nat.not_le.mp hle), if_neg hle, Exec.pure_apply]
  rw [parse, Exec.bind_ok (Buf.remaining_apply _), if_neg h,
    Exec.bind_ok (byteAt_getD (by omega)), Exec.bind_ok (Buf.remaining_apply _)]
  by_cases hlength : 34 + (1 + (b.getD 34 0).toNat) + 3 + 2 ≤ b.length
  · rw [if_pos hlength, Exec.bind_ok (byteAt_getD (by omega)),
      Exec.bind_ok (byteAt_getD (by omega)), messageEnd, if_pos hlength]
    exact hend _
  · rw [if_neg hlength, messageEnd, if_neg hlength]
    exact hend _

/-- Test and parser find the same end. -/
theorem parserContract : ParserContract ServerHello.canParse ServerHello.parse where
  decides b := by
    by_cases hshort : b.length < 34 + 1
    · left
      constructor
      · rw [canParse, Exec.bind_ok (Buf.remaining_apply _), if_pos hshort, Exec.pure_apply]
      · rw [parse, Exec.bind_ok (Buf.remaining_apply _), if_pos hshort, Exec.pure_apply]
    rw [canParse_eq hshort, parse_eq_of_length hshort]
    by_cases hle : messageEnd b ≤ b.length
    · rw [decide_eq_true hle, if_pos hle]
      exact Or.inr ⟨rfl, answers_readMessage _⟩
    · rw [decide_eq_false hle, if_neg hle]
      exact Or.inl ⟨rfl, rfl⟩
  takesFront b := by
    by_cases hshort : b.length < 34 + 1
    · rw [parse, Exec.bind_ok (Buf.remaining_apply _), if_pos hshort, Exec.pure_apply]
    rw [parse_eq_of_length hshort]
    split
    · exact List.drop_suffix _ _
    · exact List.suffix_rfl

end ServerHello

/-! ### Extensions -/

namespace ExtensionStack

theorem takesFront_readAll : ∀ fuel, TakesFront (readAll fuel)
  | 0 => .pure _
  | fuel + 1 => .bind .remaining fun _ ↦ .ite (.pure _) <| .bind .getU16 fun _ ↦
    .bind .getU16 fun _ ↦ .bind (.splitTo _) fun _ ↦ .bind (takesFront_readAll fuel) fun _ ↦ .pure _

theorem parserContract : ParserContract ExtensionStack.canParse ExtensionStack.parse where
  decides b := by
    obtain ⟨n, hn, -⟩ := skim_append [] b
    have hskim : (Exec.lift (skim b 0) : Exec Bytes TlsError ℕ) b = (.ok n, b) := by
      rw [Exec.lift_apply]
      exact congrArg (·, b) hn
    rw [canParse, parse, Exec.bind_ok (Buf.remaining_apply _), Exec.bind_ok (Exec.get_apply _),
      Exec.bind_ok hskim, Exec.bind_ok (Buf.remaining_apply _), Exec.bind_ok (Exec.get_apply _),
      Exec.bind_ok hskim]
    by_cases hle : n ≤ b.length
    · right
      rw [if_neg (Nat.not_lt.mpr hle), decide_eq_true hle]
      refine ⟨rfl, ?_⟩
      split
      · exact Answers.throw _ _
      · exact Answers.bind (fun _ ↦ .some _) _
    · left
      rw [if_pos (Nat.not_le.mp hle), decide_eq_false hle]
      exact ⟨rfl, rfl⟩
  takesFront := .bind .remaining fun _ ↦ .bind .get fun _ ↦ .bind (.lift _) fun _ ↦
    .ite (.pure _) <| .ite (.throw _) <| .bind (takesFront_readAll _) fun _ ↦ .pure _

end ExtensionStack

/-! ### Frames -/

namespace FrameHeader

theorem parserContract : ParserContract FrameHeader.canParse FrameHeader.parse :=
  .of_guard (fun b ↦ ⟨_, Exec.bind_ok (Buf.remaining_apply b)⟩)
    (.bind fun _ ↦ .bind fun _ ↦ .bind fun _ ↦ .bind fun _ ↦ .bind fun _ ↦ .bind fun _ ↦
      .bind fun _ ↦ .bind fun _ ↦ .some _)
    (.bind (.slice _ _) fun _ ↦ .bind (.lift _) fun _ ↦ .bind (.slice _ _) fun _ ↦
      .bind (.byteAt _) fun _ ↦ .bind (.lift _) fun _ ↦ .bind (.slice _ _) fun _ ↦
      .bind (.slice _ _) fun _ ↦ .bind (.advance _) fun _ ↦ .pure _)

theorem parse_of_short {b : Bytes} (h : b.length < frameHeaderSize) :
    FrameHeader.parse b = (.ok none, b) := by
  have hcan : FrameHeader.canParse b = (.ok false, b) := by
    rw [canParse, Exec.bind_ok (Buf.remaining_apply b), decide_eq_false (Nat.not_le.mpr h),
      Exec.pure_apply]
  rw [parse, Exec.bind_ok hcan]
  rfl

theorem parse_incremental : Incremental FrameHeader.parse where
  keeps b h := by
    rcases parserContract.decides b with ⟨-, hwait⟩ | ⟨-, hanswer⟩
    · rw [hwait]
    · exact absurd h hanswer
  append b h more := by
    by_cases hshort : b.length < frameHeaderSize
    · rw [parse_of_short hshort] at h
      exact absurd rfl h
    obtain ⟨tag, streamId, type, payloadLen, paddingLen, rest, rfl⟩ :=
      exists_headerBytes (Nat.le_of_not_lt hshort)
    rw [List.append_assoc, parse_headerBytes, parse_headerBytes]
    cases FrameType.ofByte type with
    | ok frameType => rfl
    | error e => rw [List.append_assoc]

theorem parse_ne_panic (b : Bytes) : (FrameHeader.parse b).1 ≠ .panic := by
  by_cases hshort : b.length < frameHeaderSize
  · rw [parse_of_short hshort]
    simp
  obtain ⟨tag, streamId, type, payloadLen, paddingLen, rest, rfl⟩ :=
    exists_headerBytes (Nat.le_of_not_lt hshort)
  rw [parse_headerBytes]
  cases FrameType.ofByte type <;> simp

end FrameHeader

namespace Frame

theorem parserContract : ParserContract Frame.canParse Frame.parse :=
  .of_guard
    (fun b ↦ by
      by_cases hshort : b.length < frameHeaderSize
      · refine ⟨false, ?_⟩
        rw [Frame.canParse, Exec.bind_ok (Buf.remaining_apply b), if_pos hshort, Exec.pure_apply]
      · obtain ⟨tag, streamId, type, payloadLen, paddingLen, rest, rfl⟩ :=
          exists_headerBytes (Nat.le_of_not_lt hshort)
        exact ⟨_, Frame.canParse_headerBytes tag streamId type payloadLen paddingLen rest⟩)
    (.bind fun _ ↦ .bind fun _ ↦ .bind fun _ ↦ .bind fun _ ↦ .some _)
    (.bind FrameHeader.parserContract.takesFront fun _ ↦ .bind (.lift _) fun _ ↦
      .bind (.splitTo _) fun _ ↦ .bind (.advance _) fun _ ↦ .pure _)

theorem parse_incremental : Incremental Frame.parse where
  keeps b h := by
    rcases parserContract.decides b with ⟨-, hwait⟩ | ⟨-, hanswer⟩
    · rw [hwait]
    · exact absurd h hanswer
  append b h more := by
    by_cases hshort : b.length < frameHeaderSize
    · rw [parse_of_short hshort] at h
      exact absurd rfl h
    obtain ⟨tag, streamId, type, payloadLen, paddingLen, rest, rfl⟩ :=
      exists_headerBytes (Nat.le_of_not_lt hshort)
    rw [parse_headerBytes] at h
    rw [List.append_assoc, parse_headerBytes, parse_headerBytes]
    by_cases hle : payloadLen.toNat + paddingLen.toNat ≤ rest.length
    · have hle' : payloadLen.toNat + paddingLen.toNat ≤ (rest ++ more).length := by
        rw [List.length_append]
        omega
      rw [if_pos hle, if_pos hle']
      cases FrameType.ofByte type with
      | ok frameType =>
        rw [List.take_append_of_le_length (by omega), List.drop_append_of_le_length hle]
      | error e => rw [List.append_assoc]
    · rw [if_neg hle] at h
      exact absurd rfl h

theorem parse_ne_panic (b : Bytes) : (Frame.parse b).1 ≠ .panic := by
  rcases parse_cases b with hrun | ⟨e, hrun⟩ | ⟨f, rest, hrun, -⟩ <;> rw [hrun] <;> simp

end Frame

/-! ### All of them -/

/-- **The contract of the parsers.** Each of the eight has a test that always answers and never
moves the cursor; it says no exactly where the parser waits, which then takes nothing; whatever
happens, the parser takes from the front only. None but that of the client hello can panic. And what
records, hello headers, frame headers and frames parse to does not depend on what follows them. -/
theorem parsers_keep_contract :
    (ParserContract TlsRecord.canParse TlsRecord.parse ∧
      ParserContract ApplicationData.canParse ApplicationData.parse ∧
      ParserContract HelloHeader.canParse HelloHeader.parse ∧
      ParserContract ClientHello.canParse ClientHello.parse ∧
      ParserContract ServerHello.canParse ServerHello.parse ∧
      ParserContract ExtensionStack.canParse ExtensionStack.parse ∧
      ParserContract FrameHeader.canParse FrameHeader.parse ∧
      ParserContract Frame.canParse Frame.parse) ∧
    (∀ b : Bytes, (TlsRecord.parse b).1 ≠ .panic ∧ (ApplicationData.parse b).1 ≠ .panic ∧
      (HelloHeader.parse b).1 ≠ .panic ∧ (ServerHello.parse b).1 ≠ .panic ∧
      (ExtensionStack.parse b).1 ≠ .panic ∧ (FrameHeader.parse b).1 ≠ .panic ∧
      (Frame.parse b).1 ≠ .panic) ∧
    Incremental TlsRecord.parse ∧ Incremental HelloHeader.parse ∧
      Incremental FrameHeader.parse ∧ Incremental Frame.parse :=
  ⟨⟨TlsRecord.parserContract, ApplicationData.parserContract, HelloHeader.parserContract,
      ClientHello.parserContract, ServerHello.parserContract, ExtensionStack.parserContract,
      FrameHeader.parserContract, Frame.parserContract⟩,
    fun b ↦ ⟨TlsRecord.parse_ne_panic b, ApplicationData.parse_ne_panic b,
      HelloHeader.parse_ne_panic b, ServerHello.parse_ne_panic b, ExtensionStack.parse_ne_panic b,
      FrameHeader.parse_ne_panic b, Frame.parse_ne_panic b⟩,
    TlsRecord.parse_incremental, HelloHeader.parse_incremental, FrameHeader.parse_incremental,
    Frame.parse_incremental⟩
