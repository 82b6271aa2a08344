import Nrxp.Codec.Rx
import Nrxp.Codec.Sent

/-!
# The round trip of the TCP leg

The receiver's state between two calls is described by what is still to come: the frames waiting in
the staging area, then the records not yet taken off the wire. `Awaits` says so, tying the nonce
counter, the staging area and the cut of the byte stream to one list of records; a call that returns
a frame takes the first frame off that description, and a call that returns none changes nothing.
-/

variable {A : ChaCha20Poly1305}

/-- Two streams with the same key, IV and counter. -/
def ChaChaStream.Matches (s t : ChaChaStream) : Prop := s.cipher = t.cipher ∧ s.state = t.state

theorem ChaChaStream.Matches.currentNonce {s t : ChaChaStream} (h : s.Matches t) :
    s.currentNonce = t.currentNonce := by
  rw [ChaChaStream.currentNonce, ChaChaStream.currentNonce, h.2]

theorem ChaChaStream.Matches.afterOpening {s t : ChaChaStream} (h : s.Matches t) (plain c : Bytes) :
    s.afterOpening.Matches (t.afterSealing plain c) :=
  ⟨h.1, by simp [ChaChaStream.afterOpening, ChaChaStream.afterSealing, h.2]⟩

/-! ### Laid-out frames -/

theorem Laid.length_le {item : Item} {items : List Item} {plain : Bytes}
    (h : Laid (item :: items) plain) :
    frameHeaderSize ≤ plain.length ∧ item.payload.length ≤ plain.length := by
  cases h with
  | cons tag _ hpad rest =>
    simp only [List.length_append, length_frameBytes]
    omega

/-- Parsing a laid-out area of less than 64 KiB yields its first frame and leaves the others. -/
theorem Laid.tryParseFrame {rx : RxCodec} {item : Item} {items : List Item}
    (h : Laid (item :: items) rx.staging) (hsmall : rx.staging.length < 2 ^ 16) :
    ∃ f staging, rx.tryParseFrame = (.ok (some f), { rx with staging }) ∧ f.item = item ∧
      Laid items staging ∧ staging.length < 2 ^ 16 := by
  have hpay := (h.length_le).2
  generalize hplain : rx.staging = plain at h hsmall hpay
  cases h with
  | @cons tag _ padding _ staging hpad rest =>
    refine ⟨.received tag item.streamId item.frameType item.payload padding, staging, ?_, rfl,
      rest, ?_⟩
    · rw [RxCodec.tryParseFrame, hplain, Frame.parse_frameBytes tag _ _ (by omega) hpad]
    · simp only [List.length_append] at hsmall
      omega

/-- Nothing laid out is nothing. -/
theorem Laid.eq_nil {plain : Bytes} (h : Laid [] plain) : plain = [] := by
  cases h
  rfl

theorem Laid.ne_nil {item : Item} {items : List Item} {plain : Bytes}
    (h : Laid (item :: items) plain) : plain ≠ [] := by
  rintro rfl
  have := h.length_le.1
  simp [frameHeaderSize] at this

/-! ### One call, by what is in the staging area -/

namespace RxCodec

/-- With frames in the staging area, a call returns the first of them. -/
theorem decodeInbound_of_staged {rx : RxCodec} {item : Item} {items : List Item} (buffer : Bytes)
    (h : Laid (item :: items) rx.staging) (hsmall : rx.staging.length < 2 ^ 16) :
    ∃ f staging, rx.decodeInbound A buffer = (.ok (some f), { rx with staging }, buffer) ∧
      f.item = item ∧ Laid items staging ∧ staging.length < 2 ^ 16 := by
  obtain ⟨f, staging, hp, hf, hl, hs⟩ := h.tryParseFrame hsmall
  refine ⟨f, staging, ?_, hf, hl, hs⟩
  rw [decodeInbound, if_neg (by simpa using h.ne_nil), hp]

/-- With nothing in the staging area, a call goes to the records. -/
theorem decodeInbound_of_empty {rx : RxCodec} (buffer : Bytes) (h : rx.staging = []) :
    rx.decodeInbound A buffer = rx.decodeRecords A buffer := by
  rw [decodeInbound, h]
  rfl

/-- A record that opens to laid-out frames yields the first of them. -/
theorem decodeRecords_of_laid {rx : RxCodec} {buffer rest plain : Bytes} {d : ApplicationData}
    {item : Item} {items : List Item} (hempty : rx.staging = [])
    (h : TlsBridge.unpackAppData buffer = (.ok (some d), rest))
    (hdec : A.decrypt rx.crypto.cipher rx.crypto.currentNonce rx.crypto.currentNonce.val d.payload
      = some plain) (hlaid : Laid (item :: items) plain) (hsmall : plain.length < 2 ^ 16) :
    ∃ f staging, rx.decodeRecords A buffer
        = (.ok (some f), { rx with crypto := rx.crypto.afterOpening, staging }, rest) ∧
      f.item = item ∧ Laid items staging ∧ staging.length < 2 ^ 16 := by
  let opened : RxCodec :=
    { rx with crypto := rx.crypto.afterOpening, staging := rx.staging ++ plain }
  have hstaging : opened.staging = plain := by simp [opened, hempty]
  rw [← hstaging] at hlaid hsmall
  obtain ⟨f, staging, hp, hf, hl, hs⟩ := hlaid.tryParseFrame hsmall
  exact ⟨f, staging, by rw [decodeRecords_of_opened A h hdec, hp], hf, hl, hs⟩

/-- A record that has arrived, sealed as the receiver's cipher expects the next one to be, is taken
off, opened and parsed. -/
theorem decodeRecords_of_arrived (hA : A.IsCorrect) {rx : RxCodec} {s : ChaChaStream}
    (hmatch : rx.crypto.Matches s) (hempty : rx.staging = []) {plain cipher : Bytes}
    (henc : A.encrypt s.cipher s.currentNonce s.currentNonce.val plain = some cipher)
    {item : Item} {items : List Item} (hlaid : Laid (item :: items) plain)
    (hfits : plain.length + aeadTagLen < 2 ^ 16) (rest : Bytes) :
    ∃ f staging, rx.decodeRecords A (TlsBridge.packAppData cipher ++ rest)
        = (.ok (some f), { rx with crypto := rx.crypto.afterOpening, staging }, rest) ∧
      f.item = item ∧ Laid items staging ∧ staging.length < 2 ^ 16 := by
  have hlen : cipher.length = plain.length + aeadTagLen := hA.length_encrypt henc
  have hmin := hlaid.length_le.1
  have htag : aeadTagLen = 16 := rfl
  have hheader : frameHeaderSize = 25 := rfl
  have hunpack := TlsBridge.unpackAppData_packAppData (c := cipher) (by omega) (by omega) rest
  have hdec : A.decrypt rx.crypto.cipher rx.crypto.currentNonce rx.crypto.currentNonce.val cipher
      = some plain := by
    rw [hmatch.1, hmatch.currentNonce]
    exact hA.decrypt_encrypt henc
  exact decodeRecords_of_laid hempty hunpack hdec hlaid (by omega)

end RxCodec

/-! ### What is still to come -/

/-- The frames `pend` wait in the staging area and the records `rs` on the wire, whose bytes are the
read buffer and what is unread; the receiver's cipher is where the sender's was before `rs`. -/
structure Awaits (A : ChaCha20Poly1305) (pend : List Item) (rs : List Record) (rx : RxCodec)
    (buffer unread : Bytes) : Prop where
  sends : ∃ s s', Sends A s rs s' ∧ rx.crypto.Matches s
  staged : Laid pend rx.staging
  small : rx.staging.length < 2 ^ 16
  records : ∀ r ∈ rs, r.plain.length + aeadTagLen < 2 ^ 16
  wire : buffer ++ unread = wireOf rs

/-- The buffer does not hold the next record in full. -/
def Short (rs : List Record) (buffer : Bytes) : Prop :=
  ∀ r ∈ rs.head?, buffer.length < (TlsBridge.packAppData r.cipher).length

/-- What a buffer holds of the record the wire begins with: all of it and maybe more, or a strict
part of it. -/
theorem arrived {record rest buffer unread : Bytes} (h : buffer ++ unread = record ++ rest) :
    (∃ more, buffer = record ++ more ∧ more ++ unread = rest) ∨
      (buffer.length < record.length ∧ buffer = record.take buffer.length) := by
  rcases Nat.lt_or_ge buffer.length record.length with hlt | hle
  · refine Or.inr ⟨hlt, ?_⟩
    have htake := congrArg (List.take buffer.length) h
    rwa [List.take_left, List.take_append_of_le_length hlt.le] at htake
  · obtain ⟨more, rfl⟩ : record <+: buffer := List.prefix_of_prefix_length_le
      (List.prefix_append record rest) (h ▸ List.prefix_append buffer unread) hle
    rw [List.append_assoc] at h
    exact Or.inl ⟨more, rfl, List.append_cancel_left h⟩

/-- **One call.** It returns the first frame to come, or it returns none, changes nothing, and the
buffer is short of the next record. -/
theorem Awaits.decodeInbound {pend : List Item} {rs : List Record} {rx : RxCodec}
    {buffer unread : Bytes} (hA : A.IsCorrect) (h : Awaits A pend rs rx buffer unread) :
    (∃ f rx' buffer' pend' rs', rx.decodeInbound A buffer = (.ok (some f), rx', buffer') ∧
      pend ++ itemsOf rs = f.item :: (pend' ++ itemsOf rs') ∧
      Awaits A pend' rs' rx' buffer' unread) ∨
    (rx.decodeInbound A buffer = (.ok none, rx, buffer) ∧ pend = [] ∧ Short rs buffer) := by
  obtain ⟨⟨s, s', hsends, hmatch⟩, hstaged, hsmall, hrecords, hwire⟩ := h
  cases pend with
  | cons item pend =>
    obtain ⟨f, staging, hd, hf, hl, hs⟩ :=
      RxCodec.decodeInbound_of_staged (A := A) buffer hstaged hsmall
    exact Or.inl ⟨f, _, buffer, pend, rs, hd, by simp [hf],
      ⟨⟨s, s', hsends, hmatch⟩, hl, hs, hrecords, hwire⟩⟩
  | nil =>
    have hempty := hstaged.eq_nil
    rw [RxCodec.decodeInbound_of_empty buffer hempty]
    cases hsends with
    | nil =>
      obtain ⟨rfl, -⟩ := List.append_eq_nil_iff.mp hwire
      exact Or.inr ⟨RxCodec.decodeRecords_of_none A (TlsBridge.unpackAppData_of_short (by simp)),
        rfl, by simp [Short]⟩
    | @cons _ _ r rs hne hlaid henc hrest =>
      have hfits := hrecords r List.mem_cons_self
      obtain ⟨item, items, hitems⟩ := List.exists_cons_of_ne_nil hne
      rw [hitems] at hlaid
      have hcons : buffer ++ unread = TlsBridge.packAppData r.cipher ++ wireOf rs := hwire
      rcases arrived hcons with ⟨rest, rfl, hunread⟩ | ⟨hshort, hbuffer⟩
      · obtain ⟨f, staging, hd, hf, hl, hs⟩ :=
          RxCodec.decodeRecords_of_arrived hA hmatch hempty henc hlaid hfits rest
        exact Or.inl ⟨f, _, rest, items, rs, hd, by simp [itemsOf, hitems, hf],
          ⟨⟨_, s', hrest, hmatch.afterOpening _ _⟩, hl, hs,
            fun r' hr' ↦ hrecords r' (List.mem_cons_of_mem _ hr'), hunread⟩⟩
      · -- only a part of it has: the call waits
        rw [← hA.length_encrypt henc] at hfits
        have hunpack := TlsBridge.unpackAppData_of_strict_take (c := r.cipher) hfits
          (n := buffer.length) hshort
        rw [← hbuffer] at hunpack
        refine Or.inr ⟨RxCodec.decodeRecords_of_none A hunpack, rfl, ?_⟩
        intro r' hr'
        obtain rfl : r = r' := by simpa using hr'
        exact hshort

/-- **One drain** returns some of the frames to come, in order, and stops short of a record. -/
theorem Awaits.exists_drain {pend : List Item} {rs : List Record} {rx : RxCodec}
    {buffer unread : Bytes}
    (hA : A.IsCorrect) (h : Awaits A pend rs rx buffer unread) :
    ∃ frames rs' rx' buffer', drain A rx buffer = ⟨frames, .ok (), rx', buffer'⟩ ∧
      pend ++ itemsOf rs = frames.map Frame.item ++ itemsOf rs' ∧
      Awaits A [] rs' rx' buffer' unread ∧ Short rs' buffer' := by
  obtain ⟨n, hn⟩ : ∃ n, (pend ++ itemsOf rs).length = n := ⟨_, rfl⟩
  induction n generalizing pend rs rx buffer with
  | zero =>
    rcases h.decodeInbound hA with ⟨f, _, _, _, _, -, htodo, -⟩ | ⟨hd, rfl, hshort⟩
    · rw [htodo] at hn
      simp at hn
    · exact ⟨[], rs, rx, buffer, drain_of_none hd, rfl, h, hshort⟩
  | succ n ih =>
    rcases h.decodeInbound hA with ⟨f, rx₁, buffer₁, pend₁, rs₁, hd, htodo, h₁⟩ | ⟨hd, rfl, hshort⟩
    · obtain ⟨frames, rs', rx', buffer', hdrain, htodo', h', hshort⟩ :=
        ih h₁ (by rw [htodo] at hn; simpa using hn)
      refine ⟨f :: frames, rs', rx', buffer', ?_, by simp [htodo, htodo'], h', hshort⟩
      rw [drain_of_some hd, hdrain, ReadResult.cons]
    · exact ⟨[], rs, rx, buffer, drain_of_none hd, rfl, h, hshort⟩

/-- More bytes are read. -/
theorem Awaits.read {pend : List Item} {rs : List Record} {rx : RxCodec}
    {buffer read unread : Bytes} (h : Awaits A pend rs rx buffer (read ++ unread)) :
    Awaits A pend rs rx (buffer ++ read) unread :=
  { h with wire := by rw [List.append_assoc]; exact h.wire }

/-- With everything read, a buffer that is short of the next record is empty, and so are the
records to come. -/
theorem Awaits.eq_nil_of_short {rs : List Record} {rx : RxCodec} {buffer : Bytes}
    (h : Awaits A [] rs rx buffer []) (hshort : Short rs buffer) : rs = [] ∧ buffer = [] := by
  have hwire : buffer = wireOf rs := by simpa using h.wire
  cases rs with
  | nil => exact ⟨rfl, hwire⟩
  | cons r rs =>
    have hlt := hshort r rfl
    rw [hwire, wireOf, List.flatMap_cons, List.length_append] at hlt
    omega

/-- **A whole reading** of what is to come returns every frame of it, and leaves nothing behind. -/
theorem Awaits.exists_readAll {reads : List Bytes} {rs : List Record} {rx : RxCodec}
    {buffer : Bytes} (hA : A.IsCorrect) (h : Awaits A [] rs rx buffer reads.flatten)
    (hshort : Short rs buffer) :
    ∃ frames rx', readAll A reads rx buffer = ⟨frames, .ok (), rx', []⟩ ∧ rx'.staging = [] ∧
      frames.map Frame.item = itemsOf rs := by
  induction reads generalizing rs rx buffer with
  | nil =>
    obtain ⟨rfl, rfl⟩ := h.eq_nil_of_short hshort
    exact ⟨[], rx, rfl, h.staged.eq_nil, rfl⟩
  | cons read reads ih =>
    rw [List.flatten_cons] at h
    obtain ⟨frames, rs', rx', buffer', hdrain, htodo, h', hshort'⟩ := h.read.exists_drain hA
    obtain ⟨more, rx'', hread, hstaging, hmore⟩ := ih h' hshort'
    refine ⟨frames ++ more, rx'', ?_, hstaging, by simpa [hmore] using htodo.symm⟩
    rw [readAll, hdrain]
    simp only [hread]

/-! ### The round trip -/

/-- The largest payload that survives the leg: its record's length field is then 65535. -/
def maxSentPayload : ℕ := 65494

/-- **Round trip of the TCP leg.** Whatever calls a fresh sending codec serves, with payloads of at
most `maxSentPayload` bytes, it emits some bytes, and however these are cut into reads, a fresh
receiving codec with the same key and IV returns exactly the frames submitted, in order, and ends
with nothing in its staging area or in the read buffer. -/
theorem tcp_round_trip (A : ChaCha20Poly1305) (hmac : HmacSha256) (hA : A.IsCorrect) (key : Key)
    (iv : Nonce) (txAuth rxAuth : SessionAuth) (shaper : PadShaper) (rng : Entropy)
    (calls : List (UInt64 × EncodeCall))
    (hpayload : ∀ call ∈ calls, ∀ item ∈ call.2.items, item.payload.length ≤ maxSentPayload) :
    ∃ wire tx', encodeAll A hmac calls (TxCodec.new (ChaChaStream.new key iv) txAuth shaper rng)
        = (.ok wire, tx') ∧
      ∀ reads : List Bytes, reads.flatten = wire →
        ∃ frames rx',
          readAll A reads (RxCodec.new (ChaChaStream.new key iv) rxAuth []) []
            = ⟨frames, .ok (), rx', []⟩ ∧
          rx'.staging = [] ∧ frames.map Frame.item = calls.flatMap (·.2.items) := by
  set tx := TxCodec.new (ChaChaStream.new key iv) txAuth shaper rng
  let M := frameHeaderSize + maxSentPayload
  have hM : M = 65519 := rfl
  have hitems : ∀ call ∈ calls, ∀ item ∈ call.2.items, item.wireLen ≤ M :=
    fun call hcall item hitem ↦ by
      have := hpayload call hcall item hitem
      simp only [Item.wireLen, Frame.wireLen, M, UInt16.toNat_zero]
      omega
  have hrun := encodeAll_triple (A := A) hmac (M := M) (by decide) calls hitems tx
  have hnever : ¬Refused A M := not_refused hA (by rw [hM]; decide)
  rcases hout : encodeAll A hmac calls tx with ⟨wire | e | _, tx'⟩
  · obtain ⟨rs, hsends, hrs, hwire, hlen⟩ := hrun.of_ok rfl hout
    refine ⟨wire, tx', rfl, fun reads hreads ↦ ?_⟩
    have hawaits : Awaits A [] rs (RxCodec.new (ChaChaStream.new key iv) rxAuth []) []
        reads.flatten :=
      { sends := ⟨_, _, hsends, rfl, rfl⟩
        staged := .nil
        small := by simp [RxCodec.new]
        records := fun r hr ↦ by have := hlen r hr; simp only [aeadTagLen]; omega
        wire := by rw [List.nil_append, hreads, hwire] }
    obtain ⟨frames, rx', hread, hstaging, hframes⟩ :=
      hawaits.exists_readAll hA (fun r _ ↦ by simp)
    exact ⟨frames, rx', hread, hstaging, hframes.trans hrs⟩
  · exact absurd (hrun.of_err rfl hout) hnever
  · exact absurd (congrArg Prod.fst hout) (hrun.ne_panic rfl)

/-- A run of three calls, cut in two: the round trip is not vacuous. -/
theorem tcp_round_trip_clear :
    ∃ wire tx', encodeAll .clear (fun _ _ ↦ ByteArr.zero 32)
        [(60, .batch [⟨7, .data, [1, 2, 3]⟩, ⟨8, .close, []⟩]), (61, .cover 100),
          (125, .frame 9 .diag [4])]
        (TxCodec.new (ChaChaStream.new (ByteArr.zero 32) (ByteArr.zero 12)) ⟨ByteArr.zero 32⟩
          ⟨[64, 16401], by decide⟩ (Stream'.const 0)) = (.ok wire, tx') ∧
      ∀ reads : List Bytes, reads.flatten = wire →
        ∃ frames rx',
          readAll .clear reads (RxCodec.new
            (ChaChaStream.new (ByteArr.zero 32) (ByteArr.zero 12)) ⟨ByteArr.zero 32⟩ []) []
            = ⟨frames, .ok (), rx', []⟩ ∧
          rx'.staging = [] ∧ frames.map Frame.item =
            [⟨7, .data, [1, 2, 3]⟩, ⟨8, .close, []⟩, ⟨0, .cover, []⟩, ⟨9, .diag, [4]⟩] :=
  tcp_round_trip .clear (fun _ _ ↦ ByteArr.zero 32) ChaCha20Poly1305.clear_isCorrect
    (ByteArr.zero 32) (ByteArr.zero 12) ⟨ByteArr.zero 32⟩ ⟨ByteArr.zero 32⟩ ⟨[64, 16401], by decide⟩
    (Stream'.const 0) [(60, .batch [⟨7, .data, [1, 2, 3]⟩, ⟨8, .close, []⟩]), (61, .cover 100),
      (125, .frame 9 .diag [4])] (by decide)
