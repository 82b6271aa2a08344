import Nrxp.Errors
import Nrxp.Lib.SlidingWindow
import Nrxp.Lib.Words

/-!
# Counters of the datagram leg

A datagram carries the low bits of its counter. `expandCounter` recovers the rest from the highest
counter accepted so far, and `ReplayWindow` decides, once a datagram has been authenticated, whether
its counter is new.

The sums here are of `u64`s and are checked: an overflow is a `panic`, as in a build with overflow
checks. In `clearRange` it is the only way out of a loop that an unchecked build would never leave.
`toNat_expandCounter` and `accept_spec` rule it out.
-/

/-- How many datagrams an epoch seals. -/
def rekeyAfterDatagrams : UInt64 := (1 : UInt64) <<< 14

/-- The width of the replay window. -/
def replayWindowSize : UInt64 := 1024

/-- The width in words. -/
def replayWindowWords : ℕ := 16

/-- A sum that panics on overflow. -/
def checkedAdd (a b : UInt64) : Outcome TlsError UInt64 :=
  if a.toNat + b.toNat < 2 ^ 64 then .ok (a + b) else .panic

/-- The counter with the given low bits that is nearest to the one after `highest`. -/
def expandCounter (highest truncated : UInt64) (bits : ℕ) : Outcome TlsError UInt64 :=
  if ¬(1 ≤ bits ∧ bits < 64) then .panic
  else do
    let window := (1 : UInt64) <<< UInt64.ofNat bits
    let mask := window - 1
    let half := window / 2
    let candidate := (highest &&& ~~~mask) ||| (truncated &&& mask)
    if (← checkedAdd candidate half) ≤ highest then checkedAdd candidate window
    else
      let above ← checkedAdd highest half
      if candidate > above ∧ candidate ≥ window then pure (candidate - window)
      else pure candidate

/-- The low bits of a counter, as they travel. -/
def truncateCounter (full : UInt64) (bits : ℕ) : UInt64 :=
  full &&& ((1 : UInt64) <<< UInt64.ofNat bits - 1)

/-- A circular bitmap of the last `replayWindowSize` counters. -/
structure ReplayWindow where
  initialized : Bool
  highest : UInt64
  bitmap : Vector UInt64 replayWindowWords
  deriving DecidableEq

namespace ReplayWindow

def new : ReplayWindow := ⟨false, 0, Vector.replicate _ 0⟩

/-- The word and the bit of a counter. -/
def slot (counter : UInt64) : Fin replayWindowWords × UInt64 :=
  let idx := counter.toNat % replayWindowSize.toNat
  (⟨idx / 64, Nat.div_lt_of_lt_mul (Nat.mod_lt _ (by decide))⟩, 1 <<< UInt64.ofNat (idx % 64))

def setBit (w : ReplayWindow) (counter : UInt64) : ReplayWindow :=
  let (word, bit) := slot counter
  { w with bitmap := w.bitmap.set word (w.bitmap[word] ||| bit) }

/-- Set a bit; tell whether it was set already. -/
def testAndSetBit (w : ReplayWindow) (counter : UInt64) : Bool × ReplayWindow :=
  let (word, bit) := slot counter
  (w.bitmap[word] &&& bit != 0, { w with bitmap := w.bitmap.set word (w.bitmap[word] ||| bit) })

def clearBit (w : ReplayWindow) (counter : UInt64) : ReplayWindow :=
  let (word, bit) := slot counter
  { w with bitmap := w.bitmap.set word (w.bitmap[word] &&& ~~~bit) }

/-- Clear the bits of the counters from `s` to `last`: the loop of `advance`. -/
def clearRange (w : ReplayWindow) (s last : UInt64) : Outcome TlsError ReplayWindow :=
  if s ≤ last then
    if _h : s.toNat + 1 < 2 ^ 64 then clearRange (w.clearBit s) (s + 1) last else .panic
  else .ok w
termination_by 2 ^ 64 - s.toNat
decreasing_by
  have hs : (s + 1).toNat = s.toNat + 1 := by
    rw [UInt64.toNat_add, UInt64.toNat_one, Nat.mod_eq_of_lt _h]
  omega

/-- Clear the bits that enter the window from above when it moves on by `shift`. -/
def advance (w : ReplayWindow) (shift : UInt64) : Outcome TlsError ReplayWindow :=
  if shift ≥ replayWindowSize then .ok { w with bitmap := Vector.replicate _ 0 }
  else do
    let s ← checkedAdd w.highest 1
    let last ← checkedAdd w.highest shift
    clearRange w s last

/-- Note a counter; `false` if it was noted before or is too far behind. -/
def accept (counter : UInt64) : Exec ReplayWindow TlsError Bool := fun w ↦
  if !w.initialized then
    (.ok true, { w with initialized := true, highest := counter }.setBit counter)
  else if counter > w.highest then
    match w.advance (counter - w.highest) with
    | .ok w' => (.ok true, { w' with highest := counter }.setBit counter)
    | .err e => (.err e, w)
    | .panic => (.panic, w)
  else if w.highest - counter ≥ replayWindowSize then (.ok false, w)
  else
    let (already, w') := w.testAndSetBit counter
    (.ok !already, w')

/-! ### Bits -/

/-- The bit of a residue. -/
def bit (w : ReplayWindow) (i : ℕ) : Bool :=
  if h : i / 64 < replayWindowWords then (w.bitmap[i / 64]).toNat.testBit (i % 64) else false

@[simp] theorem setBit_highest (w : ReplayWindow) (counter : UInt64) :
    (w.setBit counter).highest = w.highest := rfl

theorem lt_of_bit {w : ReplayWindow} {i : ℕ} (h : w.bit i = true) : i < 1024 := by
  rw [bit] at h
  split at h
  · rename_i hi
    exact (Nat.div_lt_iff_lt_mul (by decide)).mp hi
  · cases h

/-- Two residues share their word and their bit only if they are equal. -/
theorem eq_iff_div_mod (i j : ℕ) : i = j ↔ i / 64 = j / 64 ∧ i % 64 = j % 64 := by
  constructor
  · rintro rfl
    exact ⟨rfl, rfl⟩
  · intro h
    rw [← Nat.div_add_mod i 64, ← Nat.div_add_mod j 64, h.1, h.2]

/-- What changing the word of a counter does to the bits. -/
theorem bit_set (w : ReplayWindow) (counter word : UInt64) (i : ℕ) :
    ({ w with bitmap := w.bitmap.set (slot counter).1 word } : ReplayWindow).bit i =
      if counter.toNat % 1024 / 64 = i / 64 then word.toNat.testBit (i % 64) else w.bit i := by
  have hslot : ((slot counter).1 : ℕ) = counter.toNat % 1024 / 64 := rfl
  by_cases hword : counter.toNat % 1024 / 64 = i / 64
  · have hi : i / 64 < replayWindowWords := by
      rw [← hword, ← hslot]
      exact (slot counter).1.isLt
    rw [bit, dif_pos hi, if_pos hword, Vector.getElem_set, if_pos (hslot.trans hword)]
  · rw [bit, bit, if_neg hword]
    split
    · rw [Vector.getElem_set, if_neg (by rw [hslot]; exact hword)]
    · rfl

/-- The word of a counter holds the bits of its residue's neighbours. -/
theorem testBit_word (w : ReplayWindow) {counter : UInt64} {i : ℕ}
    (h : counter.toNat % 1024 / 64 = i / 64) :
    (w.bitmap[(slot counter).1]).toNat.testBit (i % 64) = w.bit i := by
  have hi : i / 64 < replayWindowWords := h ▸ (slot counter).1.isLt
  rw [bit, dif_pos hi]
  simp only [Fin.getElem_fin, show ((slot counter).1 : ℕ) = i / 64 from h]

/-- In the word of a counter, the place in the word tells the residue. -/
theorem decide_mod_eq {counter : UInt64} {i : ℕ} (hword : counter.toNat % 1024 / 64 = i / 64) :
    decide (counter.toNat % 1024 % 64 = i % 64) = decide (i = counter.toNat % 1024) :=
  decide_eq_decide.mpr
    ⟨fun h ↦ (eq_iff_div_mod _ _).mpr ⟨hword.symm, h.symm⟩, fun h ↦ h ▸ rfl⟩

@[simp] theorem bit_setBit (w : ReplayWindow) (counter : UInt64) (i : ℕ) :
    (w.setBit counter).bit i = (w.bit i || decide (i = counter.toNat % 1024)) := by
  have hk : counter.toNat % 1024 % 64 < 64 := Nat.mod_lt _ (by decide)
  rw [setBit, bit_set]
  split
  · rename_i hword
    show (w.bitmap[(slot counter).1]
      ||| 1 <<< UInt64.ofNat (counter.toNat % 1024 % 64)).toNat.testBit (i % 64) = _
    rw [UInt64.testBit_or_one_shiftLeft _ hk, testBit_word w hword]
    congr 1
    exact decide_mod_eq hword
  · rename_i hword
    have : i ≠ counter.toNat % 1024 := fun h ↦ hword (h ▸ rfl)
    simp [this]

/-- Setting a bit that is set changes nothing. -/
theorem setBit_eq_self {w : ReplayWindow} {counter : UInt64}
    (h : w.bit (counter.toNat % 1024) = true) : w.setBit counter = w := by
  have hk : counter.toNat % 1024 % 64 < 64 := Nat.mod_lt _ (by decide)
  have hsame : w.bitmap[(slot counter).1] ||| (slot counter).2 = w.bitmap[(slot counter).1] :=
    UInt64.or_one_shiftLeft_eq_self hk ((testBit_word w rfl).trans h)
  have hmap : w.bitmap.set (slot counter).1 (w.bitmap[(slot counter).1] ||| (slot counter).2)
      = w.bitmap := by
    rw [hsame]
    exact Vector.set_getElem_self _
  exact congrArg (ReplayWindow.mk w.initialized w.highest) hmap

/-- The bit tested is the one then set. -/
theorem testAndSetBit_eq (w : ReplayWindow) (counter : UInt64) :
    w.testAndSetBit counter = (w.bit (counter.toNat % 1024), w.setBit counter) := by
  have hk : counter.toNat % 1024 % 64 < 64 := Nat.mod_lt _ (by decide)
  have hword := testBit_word w
    (show counter.toNat % 1024 / 64 = counter.toNat % 1024 / 64 from rfl)
  rw [← hword, ← UInt64.and_one_shiftLeft_ne_zero _ hk]
  rfl

@[simp] theorem bit_clearBit (w : ReplayWindow) (counter : UInt64) (i : ℕ) :
    (w.clearBit counter).bit i = (w.bit i && !decide (i = counter.toNat % 1024)) := by
  have hk : counter.toNat % 1024 % 64 < 64 := Nat.mod_lt _ (by decide)
  rw [clearBit, bit_set]
  split
  · rename_i hword
    show (w.bitmap[(slot counter).1]
      &&& ~~~(1 <<< UInt64.ofNat (counter.toNat % 1024 % 64))).toNat.testBit (i % 64) = _
    rw [UInt64.testBit_and_not_one_shiftLeft _ hk, testBit_word w hword]
    congr 2
    exact decide_mod_eq hword
  · rename_i hword
    have : i ≠ counter.toNat % 1024 := fun h ↦ hword (h ▸ rfl)
    simp [this]

/-- **The clearing loop** ends, and clears the residues of its range and no others. -/
theorem clearRange_spec (w : ReplayWindow) (s last : UInt64) (hlast : last.toNat < 2 ^ 64 - 1) :
    ∃ w', w.clearRange s last = .ok w' ∧ w'.initialized = w.initialized ∧
      ∀ i, w'.bit i = true ↔
        w.bit i = true ∧ ∀ n, s.toNat ≤ n → n ≤ last.toNat → n % 1024 ≠ i := by
  obtain ⟨k, hk⟩ : ∃ k, last.toNat + 1 - s.toNat = k := ⟨_, rfl⟩
  induction k generalizing w s with
  | zero =>
    have hgt : ¬s ≤ last := by
      rw [UInt64.le_iff_toNat_le]
      omega
    refine ⟨w, by rw [clearRange, if_neg hgt], rfl, fun i ↦ ?_⟩
    exact ⟨fun h ↦ ⟨h, fun n h₁ h₂ ↦ by omega⟩, fun h ↦ h.1⟩
  | succ k ih =>
    have hle : s ≤ last := by
      rw [UInt64.le_iff_toNat_le]
      omega
    have hle' := UInt64.le_iff_toNat_le.mp hle
    have hsucc : (s + 1).toNat = s.toNat + 1 := by
      rw [UInt64.toNat_add, UInt64.toNat_one, Nat.mod_eq_of_lt (by omega)]
    obtain ⟨w', hw', hinit, hbits⟩ := ih (w.clearBit s) (s + 1) (by omega)
    refine ⟨w', ?_, hinit, fun i ↦ ?_⟩
    · rw [clearRange, if_pos hle, dif_pos (by omega), hw']
    · rw [hbits, bit_clearBit, hsucc, Bool.and_eq_true, Bool.not_eq_true', decide_eq_false_iff_not]
      constructor
      · rintro ⟨⟨hbit, hne⟩, hrest⟩
        refine ⟨hbit, fun n hn hnl ↦ ?_⟩
        rcases Nat.eq_or_lt_of_le hn with heq | hlt
        · exact fun h ↦ hne (by rw [heq, h])
        · exact hrest n hlt hnl
      · rintro ⟨hbit, hall⟩
        exact ⟨⟨hbit, fun h ↦ hall s.toNat (Nat.le_refl _) hle' h.symm⟩,
          fun n hn ↦ hall n (by omega)⟩

/-! ### The filter -/

/-- The window has accepted exactly the counters `s`. -/
inductive Holds : ReplayWindow → Set ℕ → Prop
  | fresh : Holds new ∅
  | tracking {w : ReplayWindow} {s : Set ℕ} (hinit : w.initialized = true)
      (h : Tracks 1024 w.bit w.highest.toNat s) : Holds w s

theorem bit_of_zero {w : ReplayWindow} (h : w.bitmap = Vector.replicate _ 0) (i : ℕ) :
    w.bit i = false := by
  rw [bit, h]
  split
  · simp
  · rfl

@[simp] theorem bit_new (i : ℕ) : new.bit i = false := bit_of_zero rfl i

/-- The base for reconstruction is a counter accepted before, or 0. -/
theorem Holds.highest_mem {w : ReplayWindow} {s : Set ℕ} (h : Holds w s) :
    w.highest.toNat ∈ s ∨ w.highest = 0 ∧ s = ∅ := by
  cases h with
  | fresh => exact Or.inr ⟨rfl, rfl⟩
  | tracking _ h => exact Or.inl h.highest_mem

/-- Moving the window up, clearing what enters it. -/
theorem advance_spec (w : ReplayWindow) {counter : UInt64} (hgt : w.highest < counter)
    (hmax : counter.toNat < 2 ^ 64 - 1) :
    ∃ w', w.advance (counter - w.highest) = .ok w' ∧ w'.initialized = w.initialized ∧
      ∀ i, w'.bit i = true ↔
        w.bit i = true ∧ ∀ n, w.highest.toNat < n → n ≤ counter.toNat → n % 1024 ≠ i := by
  have hgt' := UInt64.lt_iff_toNat_lt.mp hgt
  have hshift : (counter - w.highest).toNat = counter.toNat - w.highest.toNat :=
    UInt64.toNat_sub_of_le _ _ (UInt64.le_iff_toNat_le.mpr hgt'.le)
  rw [advance]
  split
  · rename_i hfar
    have hfar' : 1024 ≤ counter.toNat - w.highest.toNat := by
      rw [← hshift]
      exact UInt64.le_iff_toNat_le.mp hfar
    refine ⟨_, rfl, rfl, fun i ↦ ?_⟩
    have hclear := bit_of_zero (w := { w with bitmap := Vector.replicate _ 0 }) rfl i
    -- the range is a whole turn of the circle, so it meets every residue
    simp only [hclear, Bool.false_eq_true, false_iff, not_and, not_forall]
    intro hbit
    have hi := lt_of_bit hbit
    exact ⟨w.highest.toNat + 1 + (i + 1024 - (w.highest.toNat + 1) % 1024) % 1024, by omega,
      by omega, by omega⟩
  · have hs : (w.highest + 1).toNat = w.highest.toNat + 1 := by
      rw [UInt64.toNat_add, UInt64.toNat_one, Nat.mod_eq_of_lt (by omega)]
    have hlast : w.highest + (counter - w.highest) = counter := by
      apply UInt64.toNat_inj.mp
      rw [UInt64.toNat_add, hshift, Nat.mod_eq_of_lt (by omega)]
      omega
    have hadd : (checkedAdd w.highest 1) = .ok (w.highest + 1) :=
      if_pos (by rw [UInt64.toNat_one]; omega)
    have hadd' : (checkedAdd w.highest (counter - w.highest)) = .ok counter := by
      rw [checkedAdd, if_pos (by omega), hlast]
    rw [hadd, Outcome.ok_bind, hadd', Outcome.ok_bind]
    obtain ⟨w', hw', hinit, hbits⟩ := clearRange_spec w (w.highest + 1) counter hmax
    refine ⟨w', hw', hinit, fun i ↦ ?_⟩
    rw [hbits, hs]
    rfl

/-- How a decision ends: it is that of an exact filter of the window's width, and a refusal leaves
the window as it was. -/
def Decides (s : Set ℕ) (w : ReplayWindow) (counter : UInt64) : Prop :=
  ∃ b w', accept counter w = (.ok b, w') ∧ (b = true ↔ Admits 1024 s counter.toNat) ∧
    (b = true → Holds w' (insert counter.toNat s)) ∧ (b = false → w' = w)

/-- The first counter is accepted. -/
theorem decides_new (counter : UInt64) : Decides ∅ new counter := by
  refine ⟨true, _, rfl, by simp [admits_empty], fun _ ↦ ?_, by simp⟩
  rw [insert_empty_eq]
  refine .tracking rfl (Tracks.singleton fun i ↦ ?_)
  show (setBit { new with initialized := true, highest := counter } counter).bit i = true ↔ _
  rw [bit_setBit]
  show (new.bit i || _) = true ↔ _
  simp only [bit_new, Bool.false_or, decide_eq_true_iff, setBit_highest]

section Tracking

variable {w : ReplayWindow} {s : Set ℕ} {counter : UInt64}

/-- A counter above the highest is accepted. -/
theorem decides_of_gt (hinit : w.initialized = true)
    (h : Tracks 1024 w.bit w.highest.toNat s) (hmax : counter.toNat < 2 ^ 64 - 1)
    (hgt : counter > w.highest) : Decides s w counter := by
  have hgt' := UInt64.lt_iff_toNat_lt.mp hgt
  obtain ⟨w', hw', hinit', hbits⟩ := advance_spec w hgt hmax
  rw [Decides, accept, hinit, if_neg (by simp), if_pos hgt, hw']
  refine ⟨true, _, rfl, by simp [h.admits_iff, hgt'], fun _ ↦ .tracking (hinit'.trans hinit) ?_,
    by simp⟩
  refine h.advance hgt' fun i ↦ ?_
  rw [bit_setBit]
  show (w'.bit i || _) = true ↔ _
  rw [Bool.or_eq_true, hbits, decide_eq_true_iff, or_comm, setBit_highest]

/-- A counter that is too far behind is refused, and one in the window is if its bit is set. -/
theorem decides_of_le (hinit : w.initialized = true)
    (h : Tracks 1024 w.bit w.highest.toNat s) (hle : counter ≤ w.highest) :
    Decides s w counter := by
  have hadmits := h.admits_iff (c := counter.toNat)
  have hle' := UInt64.le_iff_toNat_le.mp hle
  have hsub : (w.highest - counter).toNat = w.highest.toNat - counter.toNat :=
    UInt64.toNat_sub_of_le _ _ hle
  rw [Decides, accept, hinit, if_neg (by simp), if_neg (UInt64.not_lt.mpr hle)]
  by_cases hold : w.highest - counter ≥ replayWindowSize
  · have hold' : 1024 ≤ w.highest.toNat - counter.toNat := by
      rw [← hsub]
      exact UInt64.le_iff_toNat_le.mp hold
    rw [if_pos hold]
    refine ⟨false, w, rfl, ?_, by simp, fun _ ↦ rfl⟩
    simp only [Bool.false_eq_true, false_iff, hadmits]
    omega
  · have hnear : w.highest.toNat < counter.toNat + 1024 := by
      have hlt : (w.highest - counter).toNat < 1024 :=
        UInt64.lt_iff_toNat_lt.mp (UInt64.not_le.mp hold)
      omega
    rw [if_neg hold, testAndSetBit_eq]
    refine ⟨_, _, rfl, ?_, fun _ ↦ .tracking hinit ?_, fun hset ↦ ?_⟩
    · rw [hadmits, Bool.not_eq_true']
      constructor
      · exact fun hbit ↦ Or.inr ⟨hle', hnear, hbit⟩
      · rintro (hlt | ⟨-, -, hbit⟩)
        · omega
        · exact hbit
    · refine h.mark hle' hnear fun i ↦ ?_
      rw [bit_setBit, Bool.or_eq_true, decide_eq_true_iff, or_comm]
    · exact setBit_eq_self (by simpa using hset)

end Tracking

/-- **One decision of the replay window.** It does not overflow, it accepts what an exact filter of
its width admits, and a refusal leaves the window as it was. -/
theorem accept_spec {w : ReplayWindow} {s : Set ℕ} (h : Holds w s) {counter : UInt64}
    (hmax : counter.toNat < 2 ^ 64 - 1) :
    ∃ b w', accept counter w = (.ok b, w') ∧ (b = true ↔ Admits 1024 s counter.toNat) ∧
      (b = true → Holds w' (insert counter.toNat s)) ∧ (b = false → w' = w) := by
  cases h with
  | fresh => exact decides_new counter
  | tracking hinit h =>
    by_cases hgt : counter > w.highest
    · exact decides_of_gt hinit h hmax hgt
    · exact decides_of_le hinit h (UInt64.not_lt.mp hgt)

/-- **A refusal leaves the window as it was**, in whatever state it was. -/
theorem accept_of_refused {w : ReplayWindow} {counter : UInt64}
    (h : (accept counter w).1 = .ok false) : accept counter w = (.ok false, w) := by
  rw [accept] at h ⊢
  split at h
  · cases h
  rename_i hinit
  rw [if_neg hinit]
  split at h
  · split at h
    · cases h
    · cases h
    · cases h
  rename_i hle
  rw [if_neg hle]
  split at h
  · rename_i hold
    rw [if_pos hold]
  rename_i hnear
  rw [testAndSetBit_eq] at h
  have hset : w.bit (counter.toNat % 1024) = true := by simpa using h
  rw [if_neg hnear, testAndSetBit_eq, hset, setBit_eq_self hset]
  rfl

end ReplayWindow

/-! ### Reconstruction -/

/-- The reconstruction in numbers: `base` is `highest` with its low bits replaced, `window` the
modulus, `half` half of it. -/
def expandNat (highest base window half : ℕ) : ℕ :=
  if base + half ≤ highest then base + window
  else if highest + half < base ∧ window ≤ base then base - window
  else base

/-- A sum that fits. -/
theorem checkedAdd_of_lt {a b : UInt64} (h : a.toNat + b.toNat < 2 ^ 64) :
    checkedAdd a b = .ok (a + b) ∧ (a + b).toNat = a.toNat + b.toNat :=
  ⟨if_pos h, by rw [UInt64.toNat_add, Nat.mod_eq_of_lt h]⟩

/-- Half of a window. -/
theorem two_pow_eq_two_mul {bits : ℕ} (hb : 1 ≤ bits) : 2 ^ bits = 2 * 2 ^ (bits - 1) := by
  rw [Nat.mul_comm, ← Nat.pow_succ, Nat.succ_eq_add_one, Nat.sub_add_cancel hb]

/-- `expandCounter` does not overflow below `2 ^ 62`, and computes `expandNat`. -/
theorem toNat_expandCounter {highest : UInt64} (wire : UInt64) {bits : ℕ} (hb : 1 ≤ bits)
    (hb' : bits < 64) (hh : highest.toNat < 2 ^ 62) :
    ∃ r, expandCounter highest wire bits = .ok r ∧ r.toNat =
      expandNat highest.toNat (highest.toNat / 2 ^ bits * 2 ^ bits + wire.toNat % 2 ^ bits)
        (2 ^ bits) (2 ^ (bits - 1)) := by
  have hwindow := UInt64.toNat_one_shiftLeft hb'
  have hpow := two_pow_eq_two_mul hb
  have hhalf : ((1 : UInt64) <<< UInt64.ofNat bits / 2).toNat = 2 ^ (bits - 1) := by
    rw [UInt64.toNat_div, hwindow, hpow]
    exact Nat.mul_div_cancel_left _ (by decide)
  have hcand := UInt64.toNat_or_of_masks highest wire hb'
  have hsmall : 2 ^ (bits - 1) ≤ 2 ^ 62 := Nat.pow_le_pow_right (by decide) (by omega)
  have hlow : wire.toNat % 2 ^ bits < 2 ^ bits := Nat.mod_lt _ (Nat.two_pow_pos _)
  have hhigh : highest.toNat / 2 ^ bits * 2 ^ bits ≤ highest.toNat := Nat.div_mul_le_self _ _
  rw [expandCounter, if_neg (by simp [hb, hb'])]
  dsimp only
  set window := (1 : UInt64) <<< UInt64.ofNat bits
  set candidate := (highest &&& ~~~(window - 1)) ||| (wire &&& (window - 1))
  set base := highest.toNat / 2 ^ bits * 2 ^ bits + wire.toNat % 2 ^ bits
  have hbase : base < 2 ^ 62 + 2 ^ bits := by omega
  obtain ⟨hup, hupNat⟩ := checkedAdd_of_lt (a := candidate) (b := window / 2)
    (by rw [hcand, hhalf]; omega)
  obtain ⟨habove, haboveNat⟩ := checkedAdd_of_lt (a := highest) (b := window / 2)
    (by rw [hhalf]; omega)
  rw [hcand, hhalf] at hupNat
  rw [hhalf] at haboveNat
  simp only [hup, habove, Outcome.ok_bind, UInt64.le_iff_toNat_le, gt_iff_lt, ge_iff_le,
    UInt64.lt_iff_toNat_lt, hupNat, haboveNat, hcand, hwindow, expandNat]
  -- the three branches of the code, on natural numbers
  by_cases h₁ : base + 2 ^ (bits - 1) ≤ highest.toNat
  · obtain ⟨hadd, haddNat⟩ := checkedAdd_of_lt (a := candidate) (b := window)
      (by rw [hcand, hwindow]; omega)
    rw [if_pos h₁, if_pos h₁]
    exact ⟨_, hadd, by rw [haddNat, hcand, hwindow]⟩
  · rw [if_neg h₁, if_neg h₁]
    by_cases h₂ : highest.toNat + 2 ^ (bits - 1) < base ∧ 2 ^ bits ≤ base
    · rw [if_pos h₂, if_pos h₂]
      refine ⟨_, rfl, ?_⟩
      rw [UInt64.toNat_sub_of_le, hcand, hwindow]
      rw [UInt64.le_iff_toNat_le, hcand, hwindow]
      exact h₂.2
    · rw [if_neg h₂, if_neg h₂]
      exact ⟨_, rfl, hcand⟩

/-- In the half-open window around `highest`, the reconstruction of a counter from its low bits is
the counter. -/
theorem expandNat_eq {highest full window half : ℕ} (hwindow : window = 2 * half)
    (hlow : highest < full + half) (hhigh : full ≤ highest + half) :
    expandNat highest (highest / window * window + full % window) window half = full := by
  have hpos : 0 < window := by omega
  have hr : full % window < window := Nat.mod_lt _ hpos
  have hs : highest % window < window := Nat.mod_lt _ hpos
  have hfull : full / window * window + full % window = full := Nat.div_add_mod' _ _
  have hhighest : highest / window * window + highest % window = highest := Nat.div_add_mod' _ _
  -- the blocks of `full` and `highest` are equal or adjacent
  have hblocks : full / window * window = highest / window * window ∨
      full / window * window = highest / window * window + window ∨
      full / window * window + window = highest / window * window := by
    rcases Nat.lt_trichotomy (full / window) (highest / window) with hlt | heq | hgt
    · have h₁ := Nat.mul_le_mul_right window (Nat.succ_le_of_lt hlt)
      rcases Nat.eq_or_lt_of_le (Nat.succ_le_of_lt hlt) with h₂ | h₂
      · refine Or.inr (Or.inr ?_)
        rw [← h₂, Nat.succ_mul]
      · have h₃ := Nat.mul_le_mul_right window (Nat.succ_le_of_lt h₂)
        rw [Nat.succ_mul, Nat.succ_mul] at h₃
        omega
    · exact Or.inl (by rw [heq])
    · rcases Nat.eq_or_lt_of_le (Nat.succ_le_of_lt hgt) with h₂ | h₂
      · refine Or.inr (Or.inl ?_)
        rw [← h₂, Nat.succ_mul]
      · have h₃ := Nat.mul_le_mul_right window (Nat.succ_le_of_lt h₂)
        rw [Nat.succ_mul, Nat.succ_mul] at h₃
        omega
  rw [expandNat]
  rcases hblocks with h | h | h
  · rw [if_neg (by omega), if_neg (by omega)]
    omega
  · rw [if_pos (by omega)]
    omega
  · rw [if_neg (by omega), if_pos (by omega)]
    omega

/-- The reconstruction ends in what it was given. -/
theorem expandNat_mod {highest window half r : ℕ} (hr : r < window) :
    expandNat highest (highest / window * window + r) window half % window = r := by
  have hbase : (highest / window * window + r) % window = r := by
    rw [Nat.add_comm, Nat.add_mul_mod_self_right, Nat.mod_eq_of_lt hr]
  rw [expandNat]
  split
  · rw [Nat.add_mod_right, hbase]
  · split
    · rename_i h
      rw [← Nat.mod_eq_sub_mod h.2, hbase]
    · exact hbase

/-- Away from zero, the reconstruction is in the half-open window around `highest`. -/
theorem expandNat_mem {highest window half r : ℕ} (hwindow : window = 2 * half) (hr : r < window)
    (hhalf : half ≤ highest) :
    highest < expandNat highest (highest / window * window + r) window half + half ∧
      expandNat highest (highest / window * window + r) window half ≤ highest + half := by
  have hs : highest % window < window := Nat.mod_lt _ (by omega)
  have hhighest : highest / window * window + highest % window = highest := Nat.div_add_mod' _ _
  rw [expandNat]
  split
  · constructor <;> omega
  · split
    · constructor <;> omega
    · constructor <;> omega

/-- **Reconstruction is exact** in the half-open window around the highest counter accepted. -/
theorem expandCounter_of_mod_eq {highest full wire : UInt64} {bits : ℕ} (hb : 1 ≤ bits)
    (hb' : bits < 64) (hh : highest.toNat < 2 ^ 62)
    (hwire : wire.toNat % 2 ^ bits = full.toNat % 2 ^ bits)
    (hlow : highest.toNat < full.toNat + 2 ^ (bits - 1))
    (hhigh : full.toNat ≤ highest.toNat + 2 ^ (bits - 1)) :
    expandCounter highest wire bits = .ok full := by
  obtain ⟨r, hr, hnat⟩ := toNat_expandCounter wire hb hb' hh
  rw [hwire, expandNat_eq (two_pow_eq_two_mul hb) hlow hhigh] at hnat
  rw [hr, UInt64.toNat_inj.mp hnat]

/-- The low bits that a sender lets travel are enough. -/
theorem expandCounter_truncateCounter {highest full : UInt64} {bits : ℕ} (hb : 1 ≤ bits)
    (hb' : bits < 64) (hh : highest.toNat < 2 ^ 62)
    (hlow : highest.toNat < full.toNat + 2 ^ (bits - 1))
    (hhigh : full.toNat ≤ highest.toNat + 2 ^ (bits - 1)) :
    expandCounter highest (truncateCounter full bits) bits = .ok full := by
  refine expandCounter_of_mod_eq hb hb' hh ?_ hlow hhigh
  rw [truncateCounter, UInt64.toNat_and_mask full hb', Nat.mod_mod]
