import Nrxp.Crypto.Identity
import Nrxp.Lib.Sampling

/-!
# The post-quantum share

The client's share of the hybrid group is ballast that must look like a key: 768 coefficients of 12
bits below the modulus, packed as FIPS 203 packs them, then a seed and an X25519 key that are random
bytes.

Two models of its sampling. `Sampler.sampleX25519Mlkem768Share` draws words from a buffer that is
refilled from the system's randomness, until enough of them are below the modulus; it is partial.
`sampleX25519Mlkem768Share`, which the rest of the development uses, starts from the coefficients
that are kept, and `exists_osRng` says that it gives every share the other one does.
-/

namespace Mlkem

/-- The modulus. -/
def q : UInt16 := 3329

/-- Pack pairs of 12-bit coefficients into three bytes each. -/
def byteEncode12 : List UInt16 → Bytes
  | a :: b :: rest =>
    UInt8.ofNat (a.toNat &&& 0xff)
      :: UInt8.ofNat (((a.toNat >>> 8) &&& 0x0f) ||| ((b.toNat &&& 0x0f) <<< 4))
      :: UInt8.ofNat ((b.toNat >>> 4) &&& 0xff) :: byteEncode12 rest
  | _ => []

/-- The coefficients of three bytes each. -/
def byteDecode12 : Bytes → List UInt16
  | b₀ :: b₁ :: b₂ :: rest =>
    UInt16.ofNat (b₀.toNat ||| ((b₁.toNat &&& 0x0f) <<< 8))
      :: UInt16.ofNat ((b₁.toNat >>> 4) ||| (b₂.toNat <<< 4)) :: byteDecode12 rest
  | _ => []

/-- A share that decodes to coefficients below the modulus: 768 of them, then a seed and an X25519
key that are random bytes. -/
def sampleX25519Mlkem768Share : StateM OsRng Bytes := do
  let coeffs ← OsRng.sampleCoefficients (3 * 256)
  let tail ← OsRng.fillBytes (32 + 32)
  return byteEncode12 (coeffs.map fun c ↦ UInt16.ofNat c.val) ++ tail.val

theorem length_byteEncode12 (coeffs : List UInt16) :
    (byteEncode12 coeffs).length = 3 * (coeffs.length / 2) := by
  induction coeffs using byteEncode12.induct with
  | case1 a b rest ih =>
    rw [byteEncode12]
    simp only [List.length_cons, ih]
    omega
  | case2 coeffs h =>
    match coeffs, h with
    | [], _ => rfl
    | [_], _ => simp [byteEncode12]
    | a :: b :: rest, h => exact absurd rfl (h a b rest)

theorem length_sampleX25519Mlkem768Share (rng : OsRng) :
    (sampleX25519Mlkem768Share rng).1.length = 1216 := by
  show (byteEncode12 ((rng.coefficients.take 768).map fun c ↦ UInt16.ofNat c.val)
    ++ ((OsRng.fillBytes 64 _).1).val).length = _
  rw [List.length_append, length_byteEncode12, List.length_map, Stream'.length_take,
    ByteArr.length_val]

/-! ### Packing -/

/-- Bit `n` of a byte string, least significant first within each byte. -/
def bitOf (b : Bytes) (n : ℕ) : Bool := (b.getD (n / 8) 0).toNat.testBit (n % 8)

theorem bitOf_cons_of_lt (x : UInt8) (b : Bytes) {n : ℕ} (h : n < 8) :
    bitOf (x :: b) n = x.toNat.testBit n := by
  rw [bitOf, Nat.div_eq_of_lt h, Nat.mod_eq_of_lt h]
  rfl

theorem bitOf_cons_add (x : UInt8) (b : Bytes) (n : ℕ) : bitOf (x :: b) (n + 8) = bitOf b n := by
  rw [bitOf, Nat.add_div_right n (by decide), Nat.add_mod_right]
  rfl

theorem testBit_ofNat (v : ℕ) {k : ℕ} (h : k < 8) :
    (UInt8.ofNat v).toNat.testBit k = v.testBit k := by
  rw [UInt8.toNat_ofNat', Nat.testBit_mod_two_pow, decide_eq_true h, Bool.true_and]

theorem and_0xff (v : ℕ) : v &&& 0xff = v % 2 ^ 8 := Nat.and_two_pow_sub_one_eq_mod v 8

theorem and_0x0f (v : ℕ) : v &&& 0x0f = v % 2 ^ 4 := Nat.and_two_pow_sub_one_eq_mod v 4

/-- Numbers side by side. -/
theorem or_shiftLeft {x i : ℕ} (h : x < 2 ^ i) (y : ℕ) : x ||| (y <<< i) = x + y * 2 ^ i := by
  rw [Nat.or_comm, ← Nat.shiftLeft_add_eq_or_of_lt h, Nat.shiftLeft_eq, Nat.add_comm]

theorem testBit_low (a : ℕ) {k : ℕ} (h : k < 8) : (a &&& 0xff).testBit k = a.testBit k := by
  rw [and_0xff, Nat.testBit_mod_two_pow, decide_eq_true h, Bool.true_and]

theorem testBit_middle_low (a b : ℕ) {k : ℕ} (h : k < 4) :
    (((a >>> 8) &&& 0x0f) ||| ((b &&& 0x0f) <<< 4)).testBit k = a.testBit (k + 8) := by
  rw [and_0x0f, Nat.testBit_or, Nat.testBit_mod_two_pow, decide_eq_true h, Nat.testBit_shiftRight,
    Nat.testBit_shiftLeft, decide_eq_false (Nat.not_le.mpr h), Bool.false_and, Bool.or_false,
    Bool.true_and, Nat.add_comm]

theorem testBit_middle_high (a b : ℕ) {k : ℕ} (h : k < 4) :
    (((a >>> 8) &&& 0x0f) ||| ((b &&& 0x0f) <<< 4)).testBit (k + 4) = b.testBit k := by
  have hhigh : ¬k + 4 < 4 := Nat.not_lt.mpr (Nat.le_add_left 4 k)
  rw [and_0x0f, and_0x0f, Nat.testBit_or, Nat.testBit_mod_two_pow, decide_eq_false hhigh,
    Nat.testBit_shiftLeft, decide_eq_true (Nat.le_add_left 4 k), Nat.add_sub_cancel,
    Nat.testBit_mod_two_pow, decide_eq_true h, Bool.false_and, Bool.false_or, Bool.true_and,
    Bool.true_and]

theorem testBit_high (b : ℕ) {k : ℕ} (h : k < 8) :
    ((b >>> 4) &&& 0xff).testBit k = b.testBit (k + 4) := by
  rw [testBit_low _ h, Nat.testBit_shiftRight, Nat.add_comm]

/-- The bits of a pair: those of the first coefficient, then those of the second. -/
theorem bitOf_pair (a b : UInt16) (rest : List UInt16) {j : ℕ} (h : j < 12) :
    bitOf (byteEncode12 (a :: b :: rest)) j = a.toNat.testBit j ∧
      bitOf (byteEncode12 (a :: b :: rest)) (12 + j) = b.toNat.testBit j := by
  rw [byteEncode12]
  constructor
  · rcases Nat.lt_or_ge j 8 with hlow | hhigh
    · rw [bitOf_cons_of_lt _ _ hlow, testBit_ofNat _ hlow, testBit_low _ hlow]
    · obtain ⟨k, rfl⟩ : ∃ k, j = k + 8 := ⟨j - 8, by omega⟩
      rw [bitOf_cons_add, bitOf_cons_of_lt _ _ (by omega), testBit_ofNat _ (by omega),
        testBit_middle_low _ _ (by omega)]
  · rcases Nat.lt_or_ge j 4 with hlow | hhigh
    · rw [show 12 + j = j + 4 + 8 by omega, bitOf_cons_add, bitOf_cons_of_lt _ _ (by omega),
        testBit_ofNat _ (by omega), testBit_middle_high _ _ hlow]
    · obtain ⟨k, rfl⟩ : ∃ k, j = k + 4 := ⟨j - 4, by omega⟩
      rw [show 12 + (k + 4) = k + 8 + 8 by omega, bitOf_cons_add, bitOf_cons_add,
        bitOf_cons_of_lt _ _ (by omega), testBit_ofNat _ (by omega), testBit_high _ (by omega)]

/-- **Packing is that of FIPS 203**, bit by bit. -/
theorem bitOf_byteEncode12 {coeffs : List UInt16} (heven : coeffs.length % 2 = 0)
    {i j : ℕ} (hi : i < coeffs.length) (hj : j < 12) :
    bitOf (byteEncode12 coeffs) (12 * i + j) = coeffs[i].toNat.testBit j := by
  induction coeffs using byteEncode12.induct generalizing i with
  | case1 a b rest ih =>
    rw [List.length_cons, List.length_cons] at heven
    match i, hi with
    | 0, _ =>
      rw [Nat.mul_zero, Nat.zero_add]
      exact (bitOf_pair a b rest hj).1
    | 1, _ =>
      rw [Nat.mul_one]
      exact (bitOf_pair a b rest hj).2
    | i + 2, hi =>
      rw [show 12 * (i + 2) + j = 12 * i + j + 8 + 8 + 8 by omega, byteEncode12, bitOf_cons_add,
        bitOf_cons_add, bitOf_cons_add]
      exact ih (by omega) (Nat.lt_of_add_lt_add_right hi)
  | case2 coeffs h =>
    match coeffs, h, heven, hi with
    | [_], _, heven, _ => cases heven
    | a :: b :: rest, h, _, _ => exact absurd rfl (h a b rest)

/-- The first coefficient of a pair is unpacked from the first two bytes. -/
theorem unpack_first {a : ℕ} (ha : a < 2 ^ 12) (b : ℕ) :
    (a &&& 0xff) % 2 ^ 8 |||
      (((((a >>> 8) &&& 0x0f) ||| ((b &&& 0x0f) <<< 4)) % 2 ^ 8 &&& 0x0f) <<< 8) = a := by
  rw [and_0xff, and_0x0f, and_0x0f, and_0x0f, or_shiftLeft (Nat.mod_lt _ (by decide)),
    or_shiftLeft (Nat.mod_lt _ (by decide)), Nat.shiftRight_eq_div_pow]
  omega

/-- The second one from the last two. -/
theorem unpack_second (a : ℕ) {b : ℕ} (hb : b < 2 ^ 12) :
    ((((a >>> 8) &&& 0x0f) ||| ((b &&& 0x0f) <<< 4)) % 2 ^ 8) >>> 4 |||
      ((((b >>> 4) &&& 0xff) % 2 ^ 8) <<< 4) = b := by
  rw [and_0xff, and_0x0f, and_0x0f, or_shiftLeft (Nat.mod_lt _ (by decide)),
    Nat.shiftRight_eq_div_pow, Nat.shiftRight_eq_div_pow, Nat.shiftRight_eq_div_pow,
    or_shiftLeft (by omega)]
  omega

/-- Unpacking inverts packing. -/
theorem byteDecode12_byteEncode12 {coeffs : List UInt16} (heven : coeffs.length % 2 = 0)
    (hlt : ∀ c ∈ coeffs, c.toNat < 2 ^ 12) : byteDecode12 (byteEncode12 coeffs) = coeffs := by
  induction coeffs using byteEncode12.induct with
  | case1 a b rest ih =>
    rw [List.length_cons, List.length_cons] at heven
    have ha := hlt a List.mem_cons_self
    have hb := hlt b (List.mem_cons_of_mem a List.mem_cons_self)
    have hrest := ih (by omega) fun c hc ↦
      hlt c (List.mem_cons_of_mem a (List.mem_cons_of_mem b hc))
    rw [byteEncode12, byteDecode12, UInt8.toNat_ofNat', UInt8.toNat_ofNat', UInt8.toNat_ofNat',
      unpack_first ha, unpack_second _ hb, UInt16.ofNat_toNat, UInt16.ofNat_toNat, hrest]
  | case2 coeffs h =>
    match coeffs, h, heven with
    | [], _, _ => rfl
    | [_], _, heven => cases heven
    | a :: b :: rest, h, _ => exact absurd rfl (h a b rest)

/-! ### Sampling -/

/-- The candidates in a stream of bytes: the low 12 bits of its words, low byte first. -/
def candidates (b : Entropy) : Stream' UInt16 := fun k ↦
  be16 (b.get (2 * k + 1)) (b.get (2 * k)) &&& 0x0fff

/-- Where the sampling is in its randomness: a buffer of entropy that has been read up to the
cursor, two bytes at a time, and what the system has not given out yet. -/
structure Sampler where
  entropy : ByteArr 3072
  cursor : ℕ
  even : cursor % 2 = 0
  cursor_le : cursor ≤ 3072
  rng : Entropy

namespace Sampler

/-- Fill the buffer. -/
def fill (rng : Entropy) : Sampler where
  entropy := ⟨rng.take 3072, Stream'.length_take 3072 rng⟩
  cursor := 0
  even := rfl
  cursor_le := Nat.zero_le 3072
  rng := rng.drop 3072

/-- Fill the buffer again if no word is left in it. -/
def refill (s : Sampler) : Sampler := if s.cursor + 2 > 3072 then fill s.rng else s

theorem refill_cursor_le (s : Sampler) : s.refill.cursor + 2 ≤ 3072 := by
  rw [refill]
  split
  · exact Nat.le_of_ble_eq_true rfl
  · omega

/-- Read a word. -/
def nextU16 (s : Sampler) : UInt16 × Sampler :=
  (be16 (s.refill.entropy.val.getD (s.refill.cursor + 1) 0)
      (s.refill.entropy.val.getD s.refill.cursor 0),
    { s.refill with
      cursor := s.refill.cursor + 2
      even := (Nat.add_mod_right _ 2).trans s.refill.even
      cursor_le := s.refill_cursor_le })

end Sampler

/-- The low 12 bits of a word drawn. -/
def masked {σ : Type} (rngBuf : σ → UInt16 × σ) (s : σ) : UInt16 × σ :=
  ((rngBuf s).1 &&& 0x0fff, (rngBuf s).2)

/-- Whether a candidate is below the modulus. -/
def belowModulus (v : UInt16) : Bool := decide (v < q)

/-- A uniform coefficient below the modulus: candidates are drawn until one is. -/
def sampleCoefficient {σ : Type} (rngBuf : σ → UInt16 × σ) : σ →. UInt16 × σ :=
  Sampling.untilAccepted (masked rngBuf) belowModulus

/-- The share, and the randomness left. There is none if the sampling never ends. -/
def Sampler.sampleX25519Mlkem768Share : Entropy →. Bytes × Entropy := fun rng ↦
  (Sampling.times (sampleCoefficient Sampler.nextU16) (3 * 256) (.fill rng)).map fun rs ↦
    (byteEncode12 rs.1 ++ rs.2.rng.take (32 + 32), rs.2.rng.drop (32 + 32))

namespace Sampler

/-! ### The words of a run -/

/-- The bytes that are still to be read. -/
def upcoming (s : Sampler) : Entropy := s.entropy.val.drop s.cursor ++ₛ s.rng

theorem upcoming_fill (rng : Entropy) : (fill rng).upcoming = rng :=
  Stream'.append_take_drop 3072 rng

/-- A refill happens between words, so no byte is read twice and none is skipped. -/
theorem upcoming_refill (s : Sampler) : s.refill.upcoming = s.upcoming := by
  rw [refill]
  split
  · have heven := s.even
    have hle := s.cursor_le
    rw [upcoming_fill, upcoming, List.drop_of_length_le (by rw [ByteArr.length_val]; omega)]
    rfl
  · rfl

/-- A word in the buffer is the next one of the run. -/
theorem upcoming_eq_cons {s : Sampler} (h : s.cursor + 2 ≤ 3072) :
    s.upcoming = Stream'.cons (s.entropy.val.getD s.cursor 0)
      (Stream'.cons (s.entropy.val.getD (s.cursor + 1) 0)
        (s.entropy.val.drop (s.cursor + 2) ++ₛ s.rng)) := by
  have hlen : s.entropy.val.length = 3072 := s.entropy.length_val
  have hfirst : s.cursor < s.entropy.val.length := by omega
  have hsecond : s.cursor + 1 < s.entropy.val.length := by omega
  rw [upcoming, List.drop_eq_getElem_cons hfirst, List.drop_eq_getElem_cons hsecond,
    List.getD_eq_getElem?_getD, List.getD_eq_getElem?_getD, List.getElem?_eq_getElem hfirst,
    List.getElem?_eq_getElem hsecond]
  rfl

theorem fst_nextU16 (s : Sampler) :
    s.nextU16.1 = be16 (s.upcoming.get 1) (s.upcoming.get 0) := by
  rw [← upcoming_refill, upcoming_eq_cons s.refill_cursor_le]
  rfl

theorem upcoming_nextU16 (s : Sampler) : s.nextU16.2.upcoming = s.upcoming.drop 2 := by
  rw [← upcoming_refill s, upcoming_eq_cons s.refill_cursor_le]
  rfl

theorem candidates_drop_two (b : Entropy) : candidates (b.drop 2) = (candidates b).tail := by
  funext k
  show be16 (b.get (2 * k + 1 + 2)) (b.get (2 * k + 2)) &&& 0x0fff
    = be16 (b.get (2 * (k + 1) + 1)) (b.get (2 * (k + 1))) &&& 0x0fff
  rw [Nat.mul_add_one, Nat.add_right_comm]

/-- **The words of a run** are those of the stream, one after the other. -/
theorem draws_masked (n : ℕ) (s : Sampler) :
    (Sampling.draws (masked nextU16) n s).1 = (candidates s.upcoming).take n ∧
      (Sampling.draws (masked nextU16) n s).2.upcoming = s.upcoming.drop (2 * n) := by
  induction n generalizing s with
  | zero => exact ⟨rfl, rfl⟩
  | succ n ih =>
    obtain ⟨hvalues, hstate⟩ := ih s.nextU16.2
    rw [upcoming_nextU16] at hvalues hstate
    constructor
    · rw [Stream'.take_succ, ← candidates_drop_two, ← hvalues]
      show (s.nextU16.1 &&& 0x0fff) :: _
        = (be16 (s.upcoming.get 1) (s.upcoming.get 0) &&& 0x0fff) :: _
      rw [fst_nextU16]
      rfl
    · rw [Nat.mul_add_one, Nat.add_comm (2 * n), ← Stream'.drop_drop]
      exact hstate

/-- What the system has not given out yet comes after all bytes in the buffer. -/
theorem rng_eq (s : Sampler) : s.rng = s.upcoming.drop (3072 - s.cursor) := by
  have hlen : (s.entropy.val.drop s.cursor).length = 3072 - s.cursor := by
    rw [List.length_drop, ByteArr.length_val]
  rw [upcoming, ← hlen, Stream'.drop_append_stream]

/-- **A share** packs the first 768 candidates that are below the modulus; its end is drawn after
all of them. -/
theorem exists_of_mem_sample {rng rng' : Entropy} {share : Bytes}
    (h : (share, rng') ∈ sampleX25519Mlkem768Share rng) :
    ∃ coeffs n m, coeffs.length = 768 ∧ (∀ c ∈ coeffs, c.toNat < 3329) ∧
      ((candidates rng).take n).filter belowModulus = coeffs ∧ 2 * n ≤ m ∧
      share = byteEncode12 coeffs ++ (rng.drop m).take 64 ∧ rng' = rng.drop (m + 64) := by
  obtain ⟨⟨coeffs, s⟩, hsample, hreturn⟩ := (Part.mem_map_iff _).1 h
  obtain ⟨hlength, n, hstate, hfilter⟩ := Sampling.exists_draws_of_mem_sample hsample
  obtain ⟨hvalues, hupcoming⟩ := draws_masked n (fill rng)
  rw [upcoming_fill] at hvalues hupcoming
  have hrng : s.rng = rng.drop (2 * n + (3072 - s.cursor)) := by
    rw [rng_eq, ← hstate, hupcoming, Stream'.drop_drop]
  have hbelow : ∀ c ∈ coeffs, c.toNat < 3329 := fun c hc ↦ by
    rw [← hfilter] at hc
    have hbelow : belowModulus c = true := List.of_mem_filter hc
    exact UInt16.lt_iff_toNat_lt.mp (of_decide_eq_true hbelow)
  cases hreturn
  refine ⟨coeffs, n, 2 * n + (3072 - s.cursor), hlength, hbelow, hvalues ▸ hfilter,
    Nat.le_add_right _ _, by rw [← hrng], ?_⟩
  rw [hrng, Stream'.drop_drop]

/-- **The sampling ends** if and only if 768 candidates are below the modulus. -/
theorem sample_dom_iff (rng : Entropy) :
    (sampleX25519Mlkem768Share rng).Dom ↔
      ∃ n, 768 ≤ (((candidates rng).take n).filter belowModulus).length := by
  show (Sampling.sample (masked nextU16) belowModulus 768 (fill rng)).Dom ↔ _
  rw [Sampling.sample_dom_iff]
  simp only [(draws_masked _ (fill rng)).1, upcoming_fill]

end Sampler

/-! ### The share -/

/-- The bytes of a share that hold the coefficients unpack to them. -/
theorem byteDecode12_take {coeffs : List UInt16} (hlength : coeffs.length = 768)
    (hbelow : ∀ c ∈ coeffs, c.toNat < 3329) (tail : Bytes) :
    byteDecode12 ((byteEncode12 coeffs ++ tail).take 1152) = coeffs := by
  have hbytes : (byteEncode12 coeffs).length = 1152 := by rw [length_byteEncode12, hlength]
  rw [← hbytes, List.take_left]
  exact byteDecode12_byteEncode12 (by rw [hlength]) fun c hc ↦
    (hbelow c hc).trans (by decide)

/-- What the two models have in common: every share is that of some coefficients. -/
theorem exists_osRng {rng rng' : Entropy} {share : Bytes}
    (h : (share, rng') ∈ Sampler.sampleX25519Mlkem768Share rng) :
    ∃ os : OsRng, (sampleX25519Mlkem768Share os).1 = share ∧
      (sampleX25519Mlkem768Share os).2.bytes = rng' := by
  obtain ⟨coeffs, n, m, hlength, hbelow, -, -, rfl, rfl⟩ := Sampler.exists_of_mem_sample h
  let kept : List (Fin 3329) := coeffs.pmap (fun c hc ↦ ⟨c.toNat, hc⟩) hbelow
  have hkept : kept.length = 768 := by rw [List.length_pmap, hlength]
  have hback : (((kept ++ₛ Stream'.const 0).take 768).map fun c ↦ UInt16.ofNat c.val) = coeffs := by
    rw [Stream'.take_append_of_le_length _ _ _ hkept.ge, List.take_of_length_le hkept.le,
      List.map_pmap]
    simp only [UInt16.ofNat_toNat, List.pmap_eq_map, List.map_id']
  refine ⟨⟨rng.drop m, kept ++ₛ Stream'.const 0⟩, ?_, Stream'.drop_drop _ _ _⟩
  show byteEncode12 _ ++ _ = _
  rw [← hback]

/-- **The ballast passes the modulus check.** Packing is that of FIPS 203 and is undone by
unpacking. The sampling ends if enough words are below the modulus, and then the share unpacks to
those that are, in the order of the stream; its end is random bytes behind all the words read. -/
theorem share_passes_modulus_check :
    (∀ coeffs : List UInt16, coeffs.length % 2 = 0 → (∀ c ∈ coeffs, c.toNat < 2 ^ 12) →
      (byteEncode12 coeffs).length = coeffs.length * 12 / 8 ∧
      (∀ (i : ℕ) (hi : i < coeffs.length) (j : ℕ), j < 12 →
        bitOf (byteEncode12 coeffs) (12 * i + j) = coeffs[i].toNat.testBit j) ∧
      byteDecode12 (byteEncode12 coeffs) = coeffs) ∧
    ∀ rng : Entropy,
      ((Sampler.sampleX25519Mlkem768Share rng).Dom ↔
        ∃ n, 768 ≤ (((candidates rng).take n).filter belowModulus).length) ∧
      ∀ share rng', (share, rng') ∈ Sampler.sampleX25519Mlkem768Share rng →
        share.length = 1216 ∧ (byteDecode12 (share.take 1152)).length = 768 ∧
        (∀ c ∈ byteDecode12 (share.take 1152), c.toNat < 3329) ∧
        ∃ n m, byteDecode12 (share.take 1152) = ((candidates rng).take n).filter belowModulus ∧
          2 * n ≤ m ∧ share.drop 1152 = (rng.drop m).take 64 ∧ rng' = rng.drop (m + 64) := by
  refine ⟨fun coeffs heven hlt ↦ ⟨?_, fun i hi j hj ↦ bitOf_byteEncode12 heven hi hj,
    byteDecode12_byteEncode12 heven hlt⟩, fun rng ↦ ⟨Sampler.sample_dom_iff rng,
      fun share rng' h ↦ ?_⟩⟩
  · rw [length_byteEncode12]
    omega
  · obtain ⟨coeffs, n, m, hlength, hbelow, hfilter, hread, rfl, rfl⟩ :=
      Sampler.exists_of_mem_sample h
    have hbytes : (byteEncode12 coeffs).length = 1152 := by rw [length_byteEncode12, hlength]
    rw [byteDecode12_take hlength hbelow]
    refine ⟨?_, hlength, hbelow, n, m, hfilter.symm, hread, ?_, rfl⟩
    · rw [List.length_append, hbytes, Stream'.length_take]
    · rw [← hbytes, List.drop_left]

/-- Of three words two are above the modulus, and the third is 5. -/
def rejecting : Entropy := fun k ↦ ([0xff, 0x0f, 0xff, 0x0f, 5, 0] : Bytes).getD (k % 6) 0

theorem candidates_rejecting (k : ℕ) :
    candidates rejecting k = if k % 3 = 2 then 5 else 0x0fff := by
  have hlow : (2 * k) % 6 = 2 * (k % 3) := by omega
  have hhigh : (2 * k + 1) % 6 = 2 * (k % 3) + 1 := by omega
  show be16 (rejecting (2 * k + 1)) (rejecting (2 * k)) &&& 0x0fff = _
  rw [rejecting, rejecting, hlow, hhigh]
  match k % 3, Nat.mod_lt k (show 0 < 3 by decide) with
  | 0, _ => rfl
  | 1, _ => rfl
  | 2, _ => rfl

/-- What is kept of `rejecting` is fives, one of every three words. -/
theorem kept_rejecting (n : ℕ) :
    ((candidates rejecting).take (3 * n)).filter belowModulus = List.replicate n 5 := by
  induction n with
  | zero => rfl
  | succ n ih =>
    have hfirst : (candidates rejecting).get (3 * n) = 0x0fff :=
      (candidates_rejecting _).trans (if_neg (by omega))
    have hsecond : (candidates rejecting).get (3 * n + 1) = 0x0fff :=
      (candidates_rejecting _).trans (if_neg (by omega))
    have hthird : (candidates rejecting).get (3 * n + 2) = 5 :=
      (candidates_rejecting _).trans (if_pos (by omega))
    rw [Nat.mul_add_one, Stream'.take_succ', Stream'.take_succ', Stream'.take_succ', hfirst,
      hsecond, hthird, List.filter_append, List.filter_append, List.filter_append, ih,
      List.replicate_succ', List.filter_cons_of_neg (by decide),
      List.filter_cons_of_pos (by decide), List.filter_nil, List.append_nil, List.append_nil]

/-- Fewer words, fewer kept. -/
theorem sublist_rejecting {n m : ℕ} (h : n ≤ 3 * m) :
    (((candidates rejecting).take n).filter belowModulus).Sublist (List.replicate m 5) := by
  have htake : (candidates rejecting).take n = ((candidates rejecting).take (3 * m)).take n := by
    rw [Stream'.take_take, Nat.min_eq_right h]
  rw [htake, ← kept_rejecting]
  exact (List.take_sublist n _).filter belowModulus

/-- A source that is rejected two times of three is read beyond one buffer, and gives a share. -/
theorem share_passes_modulus_check_rejecting :
    ∃ share rng', (share, rng') ∈ Sampler.sampleX25519Mlkem768Share rejecting ∧
      share.length = 1216 ∧ byteDecode12 (share.take 1152) = List.replicate 768 5 ∧
      ∃ m, 3072 < m ∧ rng' = rejecting.drop (m + 64) := by
  have henough : 768 ≤ (((candidates rejecting).take (3 * 768)).filter belowModulus).length := by
    rw [kept_rejecting, List.length_replicate]
  obtain ⟨hends, hshare⟩ := share_passes_modulus_check.2 rejecting
  obtain ⟨⟨share, rng'⟩, h⟩ := Part.dom_iff_mem.1 (hends.mpr ⟨3 * 768, henough⟩)
  obtain ⟨hlength, hcount, -, n, m, hkept, hread, -, hrest⟩ := hshare share rng' h
  rw [hkept] at hcount
  have hlong : 3 * 512 < n := by
    by_contra hle
    have hfew := (sublist_rejecting (Nat.not_lt.mp hle)).length_le
    rw [hcount, List.length_replicate] at hfew
    exact absurd hfew (by decide)
  refine ⟨share, rng', h, hlength, ?_, m, by omega, hrest⟩
  rw [hkept]
  refine List.eq_replicate_iff.mpr ⟨hcount, fun c hc ↦ ?_⟩
  exact List.eq_of_mem_replicate ((sublist_rejecting (show n ≤ 3 * n by omega)).subset hc)

end Mlkem
