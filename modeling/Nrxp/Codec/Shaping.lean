import Mathlib.Order.Bounds.Basic
import Nrxp.Codec.Sent

/-!
# Lengths on the wire

The length of a record is the one thing about it that is not encrypted. Every record of a batch has
one of the connection's boundaries for its length, the least that leaves room for it, so what the
length says about the frames is which two boundaries their own length lies between, and no more.

The boundaries are those `PadShaper.new` draws. All that is used of the draws is their ranges.
-/

/-! ### Searching -/

/-- Where the search ends: what is before is smaller, the rest is not. -/
theorem getElem_lt_iff_lt_countP {l : List ℕ} (hl : l.Pairwise (· < ·)) (x : ℕ) {i : ℕ}
    (hi : i < l.length) : l[i] < x ↔ i < l.countP (· < x) := by
  induction l generalizing i with
  | nil => simp at hi
  | cons a l ih =>
    obtain ⟨hall, hl⟩ := List.pairwise_cons.mp hl
    by_cases ha : a < x
    · rw [List.countP_cons_of_pos (by simpa using ha)]
      cases i with
      | zero => simpa using ha
      | succ i =>
        rw [List.getElem_cons_succ, ih hl (by simpa using hi)]
        omega
    · have hnone : l.countP (· < x) = 0 := List.countP_eq_zero.mpr fun b hb ↦ by
        have := hall b hb
        simp only [decide_eq_true_iff]
        omega
      rw [List.countP_cons_of_neg (by simpa using ha), hnone]
      simp only [Nat.not_lt_zero, iff_false, Nat.not_lt]
      cases i with
      | zero => simpa using ha
      | succ i =>
        have := hall _ (List.getElem_mem (Nat.lt_of_succ_lt_succ hi))
        rw [List.getElem_cons_succ]
        omega

namespace PadShaper

/-- The boundaries that leave room for a record of a given length. -/
def above (shaper : PadShaper) (recordLen : ℕ) : Set ℕ :=
  {b | b ∈ shaper.boundaries ∧ recordLen ≤ b}

/-- **The target is the least boundary above**, if the longest record is a boundary. -/
theorem isLeast_targetRecordLen {shaper : PadShaper} (hlast : maxRecordLen ∈ shaper.boundaries)
    {plainLen : ℕ} (hmax : plainLen ≤ maxRecordPlaintext) :
    IsLeast (shaper.above (plainLen + aeadTagLen)) (shaper.targetRecordLen plainLen) := by
  have hroom : plainLen + aeadTagLen ≤ maxRecordLen := Nat.add_le_add_right hmax _
  rw [targetRecordLen]
  split
  · rename_i hfull
    have hexact : plainLen + aeadTagLen = maxRecordLen := Nat.le_antisymm hroom hfull
    rw [hexact]
    exact ⟨⟨hlast, Nat.le_refl _⟩, fun b hb ↦ hb.2⟩
  · rename_i hshort
    set x := plainLen + aeadTagLen
    -- the boundaries below `x` are the first ones, as many as there are
    have hbefore := fun i hi ↦ getElem_lt_iff_lt_countP shaper.increasing x (i := i) hi
    have hidx : shaper.boundaries.countP (· < x) < shaper.boundaries.length := by
      obtain ⟨i, hi, heq⟩ := List.getElem_of_mem hlast
      have := (hbefore i hi).not.mp (by omega)
      omega
    have hleast : IsLeast (shaper.above x) shaper.boundaries[shaper.boundaries.countP (· < x)] := by
      refine ⟨⟨List.getElem_mem hidx, ?_⟩, fun b hb ↦ ?_⟩
      · exact Nat.not_lt.mp ((hbefore _ hidx).not.mpr (Nat.lt_irrefl _))
      · obtain ⟨i, hi, rfl⟩ := List.getElem_of_mem hb.1
        have hnot := (hbefore i hi).not.mp (Nat.not_lt.mpr hb.2)
        rcases Nat.eq_or_lt_of_le (Nat.not_lt.mp hnot) with heq | hlt
        · simp only [heq, Nat.le_refl]
        · exact (List.pairwise_iff_getElem.mp shaper.increasing _ _ hidx hi hlt).le
    rw [binarySearch]
    split
    · rename_i idx hsearch
      split at hsearch
      · cases hsearch
        exact hleast
      · cases hsearch
    · rename_i idx hsearch
      split at hsearch
      · cases hsearch
      · cases hsearch
        rw [dif_pos hidx]
        exact hleast

/-! ### The boundaries of a connection -/

theorem boundariesFrom_le {gaps : Stream' GapDraw} {current b : ℕ}
    (hb : b ∈ boundariesFrom gaps current) : b ≤ maxRecordLen := by
  fun_induction boundariesFrom gaps current with
  | case1 gaps current h ih =>
    rcases List.mem_cons.mp hb with rfl | hb
    · exact h.le
    · exact ih hb
  | case2 gaps current h => exact (List.mem_singleton.mp hb).le

theorem getLast?_boundariesFrom (gaps : Stream' GapDraw) (current : ℕ) :
    (boundariesFrom gaps current).getLast? = some maxRecordLen := by
  fun_induction boundariesFrom gaps current with
  | case1 gaps current h ih => rw [List.getLast?_cons, ih, Option.getD_some]
  | case2 gaps current h => rfl

/-- Above every length there is a boundary less than a gap away, or the first one. -/
theorem exists_near_boundariesFrom (gaps : Stream' GapDraw) (current : ℕ) {len : ℕ}
    (hlen : len ≤ maxRecordLen) :
    ∃ b ∈ boundariesFrom gaps current, len ≤ b ∧ (b ≤ len + 320 ∨ b ≤ current) := by
  fun_induction boundariesFrom gaps current with
  | case1 gaps current h ih =>
    rcases Nat.lt_or_ge current len with hlt | hge
    · obtain ⟨b, hb, hle, hnear⟩ := ih
      refine ⟨b, List.mem_cons_of_mem _ hb, hle, Or.inl ?_⟩
      have hgap : gaps.head.gap ≤ 320 :=
        Nat.max_le.mpr ⟨by decide, (Nat.min_le_right _ _).trans gaps.head.cap_le⟩
      omega
    · exact ⟨current, List.mem_cons_self, hge, Or.inr (Nat.le_refl _)⟩
  | case2 gaps current h =>
    exact ⟨maxRecordLen, List.mem_singleton_self _, hlen, Or.inr (Nat.not_lt.mp h)⟩

/-- **The boundaries of a connection** increase strictly and end with the longest record there is;
and no record is padded by more than 320 bytes. -/
theorem new_boundaries (draws : ShaperDraws) :
    (new draws).boundaries.Pairwise (· < ·) ∧
    (new draws).boundaries.getLast? = some maxRecordLen ∧
    (∀ b ∈ (new draws).boundaries, b ≤ maxRecordLen) ∧
    ∀ plainLen, frameHeaderSize ≤ plainLen → plainLen ≤ maxRecordPlaintext →
      IsLeast ((new draws).above (plainLen + aeadTagLen)) ((new draws).targetRecordLen plainLen) ∧
      (new draws).targetRecordLen plainLen ≤ plainLen + aeadTagLen + 320 := by
  have hlast := getLast?_boundariesFrom draws.gaps draws.floor
  refine ⟨(new draws).increasing, hlast, fun b ↦ boundariesFrom_le, fun plainLen hmin hmax ↦ ?_⟩
  have hmem : maxRecordLen ∈ (new draws).boundaries := List.mem_of_getLast? hlast
  have hleast := isLeast_targetRecordLen hmem hmax
  refine ⟨hleast, ?_⟩
  obtain ⟨b, hb, hle, hnear⟩ := exists_near_boundariesFrom draws.gaps draws.floor
    (show plainLen + aeadTagLen ≤ maxRecordLen from Nat.add_le_add_right hmax _)
  have htarget := hleast.2 ⟨hb, hle⟩
  have hfloor := draws.floor_le
  simp only [frameHeaderSize, aeadTagLen] at hmin hnear ⊢
  omega

/-- The target is a record's length at most, so the cap of `flushShaped` never bites, and what is
added to reach it fits the field that announces it. -/
theorem padding_new (draws : ShaperDraws) {plainLen : ℕ} (hmin : frameHeaderSize ≤ plainLen)
    (hmax : plainLen ≤ maxRecordPlaintext) :
    let target := (new draws).targetRecordLen plainLen
    let pad := target - (plainLen + aeadTagLen)
    plainLen + aeadTagLen ≤ target ∧ target ≤ maxRecordLen ∧
      min pad (maxRecordPlaintext - plainLen) = pad ∧ pad % 2 ^ 16 = pad := by
  intro target pad
  obtain ⟨-, -, hle, htarget⟩ := new_boundaries draws
  obtain ⟨hleast, hnear⟩ := htarget plainLen hmin hmax
  have hbelow : plainLen + aeadTagLen ≤ target := hleast.1.2
  have hbounded : target ≤ maxRecordLen := hle _ hleast.1.1
  have hlong : maxRecordLen = maxRecordPlaintext + aeadTagLen := rfl
  refine ⟨hbelow, hbounded, ?_, ?_⟩
  · omega
  · exact Nat.mod_eq_of_lt (by omega)

end PadShaper

/-! ### The records of a batch -/

/-- The length of a record's frames, as they would be sent without padding. -/
def Record.unpadded (r : Record) : ℕ := (r.items.map Item.wireLen).sum + aeadTagLen

/-- Records were sent from the stream `c₀` on, each of the length the shaper aims at. -/
def Shaped (A : ChaCha20Poly1305) (shaper : PadShaper) (c₀ : ChaChaStream) (done : List Item)
    (out : Bytes) (tx : TxCodec) : Prop :=
  tx.shaper = shaper ∧ ∃ rs, Sends A c₀ rs tx.crypto ∧ itemsOf rs = done ∧ wireOf rs = out ∧
    ∀ r ∈ rs, (r.items.map Item.wireLen).sum ≤ maxRecordPlaintext ∧
      r.cipher.length = shaper.targetRecordLen (r.items.map Item.wireLen).sum

/-- A frame takes up its header at least. -/
theorem frameHeaderSize_le_sum {frames : List Item} (hne : frames ≠ []) :
    frameHeaderSize ≤ (frames.map Item.wireLen).sum := by
  cases frames with
  | nil => exact absurd rfl hne
  | cons item rest =>
    rw [List.map_cons, List.sum_cons, Item.wireLen, Frame.wireLen]
    omega

/-- `Shaped` is an invariant of batching, if every frame fits a record. -/
theorem TxCodec.batchRule_shaped {A : ChaCha20Poly1305} (hA : A.IsCorrect) (draws : ShaperDraws)
    (c₀ : ChaChaStream) :
    BatchRule A (·.payload.length ≤ maxFramePayload) (Shaped A (.new draws) c₀)
      (fun _ _ ↦ Refused A maxRecordPlaintext) where
  shaped tag frames done out hne _ hmax := by
    rintro tx ⟨hshaper, rs, hsends, hitems, hwire, hshaped⟩
    rw [flushShaped_eq tag frames hmax, hshaper]
    set plainLen := (frames.map Item.wireLen).sum
    obtain ⟨hbelow, hbounded, hpad, hfield⟩ :=
      PadShaper.padding_new draws (frameHeaderSize_le_sum hne) hmax
    set target := (PadShaper.new draws).targetRecordLen plainLen
    rw [hpad]
    rcases flushRecord_cases (A := A) tag hne (target - (plainLen + aeadTagLen)) tx with
      ⟨r, tx', hrun, hsent, hsame, rfl, hplain⟩ | ⟨plain, tx', hrun, -, henc, hplain⟩ <;> rw [hrun]
    · refine ⟨hsame.trans hshaper, rs ++ [r], hsends.append hsent, ?_, ?_, ?_⟩
      · rw [itemsOf_append, hitems, itemsOf_singleton]
      · rw [wireOf_append, hwire, wireOf_singleton]
      · intro r' hr'
        rcases List.mem_append.mp hr' with hr' | hr'
        · exact hshaped r' hr'
        · obtain rfl := List.mem_singleton.mp hr'
          refine ⟨hmax, ?_⟩
          obtain ⟨-, -, _, _, _, henc⟩ := hsent.forall_mem (List.mem_singleton_self _)
          show r'.cipher.length = target
          rw [hA.length_encrypt henc, hplain, hfield]
          show plainLen + _ + _ = target
          omega
    · refine ⟨_, _, plain, ?_, henc⟩
      rw [hplain, hfield]
      simp only [maxRecordLen] at hbounded
      omega
  own tag item done out hitem hlarge := by
    -- no frame is too large to share a record
    simp only [Item.wireLen, Frame.wireLen, maxFramePayload, UInt16.toNat_zero, maxRecordPlaintext,
      frameHeaderSize] at hitem hlarge
    omega

/-- The length field of a record that the shaper aimed: the least boundary that leaves room. -/
theorem lengthField_of_shaped (draws : ShaperDraws) {r : Record} (hne : r.items ≠ [])
    (hmax : (r.items.map Item.wireLen).sum ≤ maxRecordPlaintext)
    (hcipher : r.cipher.length
      = (PadShaper.new draws).targetRecordLen (r.items.map Item.wireLen).sum) :
    let len := TlsRecord.lengthField (TlsBridge.packAppData r.cipher)
    len = r.cipher.length ∧
      IsLeast {b | b ∈ (PadShaper.new draws).boundaries ∧ r.unpadded ≤ b} len ∧
      len ≤ 16401 ∧ len ≤ r.unpadded + 320 := by
  intro len
  obtain ⟨-, -, hle, htarget⟩ := PadShaper.new_boundaries draws
  obtain ⟨hleast, hnear⟩ := htarget _ (frameHeaderSize_le_sum hne) hmax
  have hbounded : r.cipher.length ≤ 16401 := hcipher ▸ hle _ hleast.1.1
  have hlen : len = r.cipher.length := by
    show TlsRecord.lengthField (TlsBridge.packAppData r.cipher) = _
    rw [TlsBridge.lengthField_packAppData, Nat.mod_eq_of_lt (by omega)]
  rw [hlen]
  refine ⟨rfl, ?_, hbounded, ?_⟩
  · rw [hcipher]
    exact hleast
  · rw [hcipher]
    exact hnear

/-- **Record lengths are quantised.** Whatever is drawn for the shaper of a connection, its
boundaries increase strictly up to 16401; and every batch of frames that fit a record is sent in
records whose length field is the least boundary that leaves room for the frames and the tag, which
pads them by 320 bytes at most. Two records whose own lengths lie between the same boundaries have
the same length. -/
theorem record_lengths (A : ChaCha20Poly1305) (hmac : HmacSha256) (hA : A.IsCorrect)
    (draws : ShaperDraws) (crypto : ChaChaStream) (auth : SessionAuth) (rng : Entropy)
    (now : UInt64) (items : List Item)
    (hitems : ∀ item ∈ items, item.payload.length ≤ maxFramePayload) :
    let boundaries := (PadShaper.new draws).boundaries
    boundaries.Pairwise (· < ·) ∧ boundaries.getLast? = some 16401 ∧
    ∃ rs tx', TxCodec.encodeBatch A hmac now items (.new crypto auth (.new draws) rng)
        = (.ok (wireOf rs), tx') ∧
      Sends A crypto rs tx'.crypto ∧ itemsOf rs = items ∧
      (∀ r ∈ rs, let len := TlsRecord.lengthField (TlsBridge.packAppData r.cipher)
        len = r.cipher.length ∧ IsLeast {b | b ∈ boundaries ∧ r.unpadded ≤ b} len ∧
          len ≤ 16401 ∧ len ≤ r.unpadded + 320) ∧
      ∀ r ∈ rs, ∀ r' ∈ rs, (∀ b ∈ boundaries, r.unpadded ≤ b ↔ r'.unpadded ≤ b) →
        TlsRecord.lengthField (TlsBridge.packAppData r.cipher)
          = TlsRecord.lengthField (TlsBridge.packAppData r'.cipher) := by
  intro boundaries
  obtain ⟨hincreasing, hlast, -, -⟩ := PadShaper.new_boundaries draws
  refine ⟨hincreasing, hlast, ?_⟩
  have hrun := (TxCodec.batchRule_shaped hA draws crypto).encodeBatch hmac now hitems [] []
  have hstart : Shaped A (.new draws) crypto [] [] (.new crypto auth (.new draws) rng) :=
    ⟨rfl, [], .nil _, rfl, rfl, by simp⟩
  rcases hout : TxCodec.encodeBatch A hmac now items (.new crypto auth (.new draws) rng)
    with ⟨out | e | _, tx'⟩
  · obtain ⟨-, rs, hsends, hdone, hwire, hshaped⟩ := hrun.of_ok hstart hout
    rw [List.nil_append] at hdone hwire
    have hlen := fun r (hr : r ∈ rs) ↦
      lengthField_of_shaped draws (hsends.forall_mem hr).1 (hshaped r hr).1 (hshaped r hr).2
    refine ⟨rs, tx', by rw [hwire], hsends, hdone, hlen, ?_⟩
    intro r hr r' hr' hsame
    obtain ⟨-, hleast, -⟩ := hlen r hr
    obtain ⟨-, hleast', -⟩ := hlen r' hr'
    -- the same boundaries are in reach, so the least of them is the same
    have hset : {b | b ∈ boundaries ∧ r.unpadded ≤ b} = {b | b ∈ boundaries ∧ r'.unpadded ≤ b} :=
      Set.ext fun b ↦ and_congr_right fun hb ↦ hsame b hb
    exact hleast.unique (hset ▸ hleast')
  · -- a correct cipher does not refuse a record
    exact absurd (hrun.of_err hstart hout) (not_refused hA (by decide))
  · exact absurd (congrArg Prod.fst hout) (hrun.ne_panic hstart)

/-- A short frame, with boundaries 16 apart: its 44 bytes go out as 64. -/
theorem record_lengths_short_frame :
    let draws : ShaperDraws :=
      ⟨64, by decide, by decide, Stream'.const ⟨0, 128, by decide, by decide⟩⟩
    ∃ rs tx', TxCodec.encodeBatch .clear (fun _ _ ↦ ByteArr.zero 32) 60 [⟨1, .data, [1, 2, 3]⟩]
        (.new (.new (ByteArr.zero 32) (ByteArr.zero 12)) ⟨ByteArr.zero 32⟩ (.new draws)
          (Stream'.const 0)) = (.ok (wireOf rs), tx') ∧
      ∀ r ∈ rs, IsLeast {b | b ∈ (PadShaper.new draws).boundaries ∧ r.unpadded ≤ b}
        (TlsRecord.lengthField (TlsBridge.packAppData r.cipher)) := by
  intro draws
  obtain ⟨-, -, rs, tx', hrun, -, -, hlen, -⟩ :=
    record_lengths .clear (fun _ _ ↦ ByteArr.zero 32) ChaCha20Poly1305.clear_isCorrect draws
      (.new (ByteArr.zero 32) (ByteArr.zero 12)) ⟨ByteArr.zero 32⟩ (Stream'.const 0) 60
      [⟨1, .data, [1, 2, 3]⟩] (by decide)
  exact ⟨rs, tx', hrun, fun r hr ↦ (hlen r hr).2.1⟩
