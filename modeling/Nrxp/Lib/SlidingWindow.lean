import Mathlib.Data.Nat.ModEq
import Mathlib.Data.Set.Insert

/-!
# A sliding window over a set of numbers

What a replay filter is for, and what makes a circular bitmap one.

* `Admits W s c` is the purpose: a filter of width `W` that has seen the set `s` admits `c` exactly
  if `c` is new and not too far behind anything seen. No representation is mentioned.
* `Tracks W bit highest s` is the representation: bit `c % W` tells whether `c` was seen, for the
  `W` numbers up to the highest one. `Tracks.mark` and `Tracks.advance` are the two ways it may be
  updated, and `Tracks.admits_iff` reads the filter's decision off the bits.

Nothing outside the window is recorded, which is why clearing the residues that enter it from above
is not optional: they still hold what was seen one turn of the circle before.
-/

/-- A filter of width `W` that has seen `s` admits `c`: it is new, and less than `W` behind. -/
def Admits (W : ℕ) (s : Set ℕ) (c : ℕ) : Prop := c ∉ s ∧ ∀ m ∈ s, m < c + W

/-- The bits tell, for the `W` numbers up to `highest`, which of them are in `s`. -/
structure Tracks (W : ℕ) (bit : ℕ → Bool) (highest : ℕ) (s : Set ℕ) : Prop where
  /-- `highest` was seen. -/
  highest_mem : highest ∈ s
  /-- Nothing above it was. -/
  le_highest : ∀ c ∈ s, c ≤ highest
  /-- A bit in the window tells whether its number was seen. -/
  bit_iff : ∀ c, c ≤ highest → highest < c + W → (bit (c % W) = true ↔ c ∈ s)

/-- Two numbers less than `W` apart have different residues. -/
theorem mod_ne_mod_of_lt {W a b : ℕ} (hab : a < b) (hb : b < a + W) : a % W ≠ b % W := by
  intro h
  have hdvd : W ∣ b - a := (Nat.modEq_iff_dvd' hab.le).mp h
  exact absurd (Nat.le_of_dvd (by omega) hdvd) (by omega)

/-- An empty filter admits everything. -/
theorem admits_empty (W c : ℕ) : Admits W ∅ c := ⟨by simp, by simp⟩

namespace Tracks

variable {W highest c : ℕ} {bit bit' : ℕ → Bool} {s : Set ℕ}

/-- The first number seen. -/
theorem singleton (hbit : ∀ i, bit i = true ↔ i = c % W) : Tracks W bit c {c} where
  highest_mem := rfl
  le_highest := by rintro _ rfl; exact Nat.le_refl _
  bit_iff := by
    intro n hn hlt
    rw [hbit, Set.mem_singleton_iff]
    constructor
    · intro h
      by_contra hne
      exact mod_ne_mod_of_lt (by omega) hlt h
    · rintro rfl
      rfl

/-- **The decision**, read off the bits. -/
theorem admits_iff (h : Tracks W bit highest s) :
    Admits W s c ↔ highest < c ∨ (c ≤ highest ∧ highest < c + W ∧ bit (c % W) = false) := by
  constructor
  · rintro ⟨hnew, hwithin⟩
    have hlt := hwithin highest h.highest_mem
    rcases Nat.lt_or_ge highest c with hgt | hle
    · exact Or.inl hgt
    · refine Or.inr ⟨hle, hlt, ?_⟩
      rw [← Bool.not_eq_true, h.bit_iff c hle hlt]
      exact hnew
  · rintro (hgt | ⟨hle, hlt, hbit⟩)
    · refine ⟨fun hc ↦ absurd (h.le_highest c hc) (by omega), fun m hm ↦ ?_⟩
      have := h.le_highest m hm
      omega
    · refine ⟨?_, fun m hm ↦ ?_⟩
      · rw [← h.bit_iff c hle hlt, hbit]
        simp
      · have := h.le_highest m hm
        omega

/-- A number inside the window is seen: its bit is set. -/
theorem mark (h : Tracks W bit highest s) (hle : c ≤ highest) (hlt : highest < c + W)
    (hbit : ∀ i, bit' i = true ↔ i = c % W ∨ bit i = true) :
    Tracks W bit' highest (insert c s) where
  highest_mem := Set.mem_insert_of_mem _ h.highest_mem
  le_highest := by
    rintro n (rfl | hn)
    · exact hle
    · exact h.le_highest n hn
  bit_iff := by
    intro n hn hnlt
    rw [hbit, h.bit_iff n hn hnlt, Set.mem_insert_iff]
    refine or_congr_left ⟨fun hmod ↦ ?_, fun hnc ↦ hnc ▸ rfl⟩
    -- both numbers are in the window, so equal residues mean equal numbers
    rcases Nat.lt_trichotomy n c with hlt' | heq | hgt
    · exact absurd hmod (mod_ne_mod_of_lt hlt' (by omega))
    · exact heq
    · exact absurd hmod.symm (mod_ne_mod_of_lt hgt (by omega))

/-- A number above the window is seen: the residues that enter are cleared, and its bit is set. -/
theorem advance (h : Tracks W bit highest s) (hgt : highest < c)
    (hbit : ∀ i, bit' i = true ↔
      i = c % W ∨ (bit i = true ∧ ∀ n, highest < n → n ≤ c → n % W ≠ i)) :
    Tracks W bit' c (insert c s) where
  highest_mem := Set.mem_insert _ _
  le_highest := by
    rintro n (rfl | hn)
    · exact Nat.le_refl _
    · exact (h.le_highest n hn).trans hgt.le
  bit_iff := by
    intro n hn hnlt
    rw [hbit, Set.mem_insert_iff]
    rcases Nat.lt_or_ge highest n with hnew | hold
    · -- between the old and the new top: nothing was seen, and the residue was cleared
      have hnotin : n ∉ s := fun hmem ↦ absurd (h.le_highest n hmem) (by omega)
      constructor
      · rintro (hmod | ⟨-, hclear⟩)
        · by_contra hne
          push Not at hne
          exact mod_ne_mod_of_lt (by omega) hnlt hmod
        · exact absurd rfl (hclear n hnew hn)
      · rintro (rfl | hmem)
        · exact Or.inl rfl
        · exact absurd hmem hnotin
    · have hne : n ≠ c := by omega
      rw [← h.bit_iff n hold (by omega)]
      constructor
      · rintro (hmod | ⟨hb, -⟩)
        · exact absurd hmod (mod_ne_mod_of_lt (by omega) hnlt)
        · exact Or.inr hb
      · rintro (heq | hb)
        · exact absurd heq hne
        · refine Or.inr ⟨hb, fun m hm hmc hmod ↦ ?_⟩
          exact mod_ne_mod_of_lt (by omega : n < m) (by omega) hmod.symm

end Tracks
