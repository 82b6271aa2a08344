import Nrxp.Tls.ExtensionBuilder

/-!
# The shuffle of the extensions

`ExtensionBuilder.shuffleMiddle` shuffles all entries of an order but the first and the last, each
swap picked by two bytes of entropy. It is the shuffle of `Nrxp.Lib.FisherYates`, so it permutes;
and as two bytes spell every place of a list of up to 65536 entries, some entropy gives every
permutation of the middle.
-/

namespace ExtensionBuilder

/-- What is shuffled of an order. -/
def middleOf (order : List UInt16) : List UInt16 := (order.drop 1).take (order.length - 2)

theorem length_middleOf {order : List UInt16} (h : ¬order.length < 4) :
    (middleOf order).length = order.length - 2 := by
  rw [middleOf, List.length_take, List.length_drop]
  omega

theorem shuffleMiddle_eq {order : List UInt16} (h : ¬order.length < 4) (rng : OsRng) :
    (shuffleMiddle order rng).1
      = order.take 1
        ++ (FisherYates.shuffle (pickOf (rng.bytes.take ((middleOf order).length * 2)))
          ((middleOf order).length - 1) (middleOf order).toArray).toList
        ++ order.drop (order.length - 1) := by
  rw [← shuffleFrom_eq]
  simp only [shuffleMiddle, if_neg h]
  rfl

/-! ### The ends -/

/-- The shuffle leaves the first entry where it is. -/
theorem head?_shuffleMiddle (order : List UInt16) (rng : OsRng) :
    (shuffleMiddle order rng).1.head? = order.head? := by
  by_cases hshort : order.length < 4
  · simp only [shuffleMiddle, if_pos hshort]
    rfl
  · rw [shuffleMiddle_eq hshort]
    rcases order with - | ⟨first, rest⟩
    · exact absurd (Nat.zero_lt_succ 3) hshort
    · rfl

/-- The shuffle leaves the last entry where it is. -/
theorem getLast?_shuffleMiddle (order : List UInt16) (rng : OsRng) :
    (shuffleMiddle order rng).1.getLast? = order.getLast? := by
  by_cases hshort : order.length < 4
  · simp only [shuffleMiddle, if_pos hshort]
    rfl
  · rw [shuffleMiddle_eq hshort, List.getLast?_append, List.getLast?_drop, if_neg (by omega)]
    rcases hlast : order.getLast? with _ | last
    · rw [List.getLast?_eq_none_iff.mp hlast] at hshort
      exact absurd (Nat.zero_lt_succ 3) hshort
    · rfl

/-! ### Every order of the middle -/

/-- Entropy that spells given places, two bytes each, low byte first. -/
def entropyOf (pick : ℕ → ℕ) : Entropy := fun n ↦
  UInt8.ofNat (pick (n / 2) / 256 ^ (n % 2))

theorem pickOf_entropyOf {pick : ℕ → ℕ} (hpick : ∀ j, pick j ≤ j) {i n : ℕ} (hi : i < n)
    (hn : n ≤ 2 ^ 16) : pickOf ((entropyOf pick).take (n * 2)) i = pick i := by
  have hle := hpick i
  have hlt : pick i < 2 ^ 16 := by omega
  have hget : ∀ k, k < n * 2 → ((entropyOf pick).take (n * 2)).getD k 0
      = UInt8.ofNat (pick (k / 2) / 256 ^ (k % 2)) := fun k hk ↦ by
    rw [List.getD_eq_getElem?_getD, Stream'.getElem?_take hk]
    rfl
  have hword : (UInt16.ofNat (pick i)).toNat = pick i := UInt16.toNat_ofNat_of_lt' hlt
  rw [pickOf, hget _ (by omega), hget _ (by omega), show (i * 2 + 1) / 2 = i by omega,
    show (i * 2 + 1) % 2 = 1 by omega, show i * 2 / 2 = i by omega, show i * 2 % 2 = 0 by omega,
    ← hword, be16_beBytes, hword]
  exact Nat.mod_eq_of_lt (by omega)

/-- **The shuffle is a faithful one.** The entries stay the same and the two ends stay in place, and
every order of the middle is drawn by some entropy. -/
theorem shuffleMiddle_faithful {order : List UInt16} (hlen : order.length ≤ 65536) :
    (∀ rng, (shuffleMiddle order rng).1.Perm order ∧
      (shuffleMiddle order rng).1.head? = order.head? ∧
      (shuffleMiddle order rng).1.getLast? = order.getLast?) ∧
    (4 ≤ order.length → ∀ middle : List UInt16,
      middle.Perm ((order.drop 1).take (order.length - 2)) →
      ∃ rng, (shuffleMiddle order rng).1
        = order.take 1 ++ middle ++ order.drop (order.length - 1)) := by
  refine ⟨fun rng ↦ ⟨shuffleMiddle_perm order rng, head?_shuffleMiddle order rng,
    getLast?_shuffleMiddle order rng⟩, fun hfour middle hperm ↦ ?_⟩
  have hshort : ¬order.length < 4 := Nat.not_lt.mpr hfour
  have hlength := length_middleOf hshort
  have hsize : (middleOf order).toArray.size = (middleOf order).length := List.size_toArray
  obtain ⟨pick, hpick, hrun⟩ := FisherYates.exists_shuffle_eq (a := (middleOf order).toArray)
    (b := middle.toArray) (by omega) (Array.perm_iff_toList_perm.mpr hperm.symm)
  refine ⟨⟨entropyOf pick, Stream'.const 0⟩, ?_⟩
  have hpicks : ∀ j ≤ (middleOf order).length - 1,
      pickOf ((entropyOf pick).take ((middleOf order).length * 2)) j = pick j :=
    fun j hj ↦ pickOf_entropyOf hpick (by omega) (by omega)
  rw [hsize] at hrun
  rw [shuffleMiddle_eq hshort, FisherYates.shuffle_congr hpicks, hrun]

/-- Two extensions in the middle of four can be swapped. -/
theorem shuffleMiddle_faithful_four :
    ∃ rng, (shuffleMiddle [1, 2, 3, 4] rng).1 = [1, 3, 2, 4] :=
  (shuffleMiddle_faithful (by decide)).2 (by decide) [3, 2] (by decide)

end ExtensionBuilder
