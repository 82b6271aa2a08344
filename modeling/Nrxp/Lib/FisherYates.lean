import Mathlib.Data.List.Basic
import Mathlib.Data.Nat.Notation

/-!
# Shuffling by swaps

The shuffle of Fisher and Yates, from the back: each place in turn is swapped with a place at or
before it, which a `pick` names. Whatever is picked, the result is a permutation (`shuffle_perm`),
and every permutation is the result of some picks (`exists_shuffle_eq`). Picks are a function of the
place, so how they are drawn is left to the user.
-/

namespace FisherYates

variable {α : Type*}

/-- Swap the entry at `i` with the one at `pick i`, for `i` from the given index down to 1. -/
def shuffle (pick : ℕ → ℕ) : ℕ → Array α → Array α
  | 0, a => a
  | i + 1, a => shuffle pick i (a.swapIfInBounds (i + 1) (pick (i + 1)))

theorem swapIfInBounds_perm (a : Array α) (i j : ℕ) : (a.swapIfInBounds i j).Perm a := by
  rw [Array.swapIfInBounds_def]
  split_ifs with hi hj
  · exact Array.swap_perm hi hj
  · exact Array.Perm.rfl
  · exact Array.Perm.rfl

/-- Nothing is lost and nothing invented. -/
theorem shuffle_perm (pick : ℕ → ℕ) (i : ℕ) (a : Array α) : (shuffle pick i a).Perm a := by
  induction i generalizing a with
  | zero => exact Array.Perm.rfl
  | succ i ih => exact (ih _).trans (swapIfInBounds_perm a _ _)

/-- Only the picks of the places visited matter. -/
theorem shuffle_congr {pick pick' : ℕ → ℕ} {i : ℕ} (h : ∀ j ≤ i, pick j = pick' j) (a : Array α) :
    shuffle pick i a = shuffle pick' i a := by
  induction i generalizing a with
  | zero => rfl
  | succ i ih =>
    rw [shuffle, shuffle, h (i + 1) (Nat.le_refl _)]
    exact ih (fun j hj ↦ h j (Nat.le_succ_of_le hj)) _

/-- A swap within bounds leaves alone what is behind both places, and fills the later of them from
the other. -/
theorem getElem?_swapIfInBounds {a : Array α} {i j k : ℕ} (hi : i < a.size) (hj : j ≤ i)
    (hk : i ≤ k) : (a.swapIfInBounds i j)[k]? = if k = i then a[j]? else a[k]? := by
  have hjlt : j < a.size := by omega
  rw [Array.swapIfInBounds_def, dif_pos hi, dif_pos hjlt, Array.getElem?_swap]
  by_cases hki : k = i
  · subst hki
    rw [if_pos rfl, if_pos rfl, Array.getElem?_eq_getElem hjlt]
    split_ifs with hjk
    · subst hjk
      rfl
    · rfl
  · rw [if_neg (by omega), if_neg (Ne.symm hki), if_neg hki]

/-- Where permutations of each other agree behind a place, the one has at or before it what the
other has there. -/
theorem exists_getElem?_eq {a b : Array α} {i : ℕ} (hsize : i < a.size) (hperm : a.Perm b)
    (hrest : ∀ k, i < k → a[k]? = b[k]?) : ∃ j ≤ i, a[j]? = b[i]? := by
  have hdrop : a.toList.drop (i + 1) = b.toList.drop (i + 1) := by
    refine List.ext_getElem? fun k ↦ ?_
    rw [List.getElem?_drop, List.getElem?_drop, Array.getElem?_toList, Array.getElem?_toList]
    exact hrest _ (by omega)
  have htake : (a.toList.take (i + 1)).Perm (b.toList.take (i + 1)) := by
    have hlists := hperm.toList
    rw [← List.take_append_drop (i + 1) a.toList, ← List.take_append_drop (i + 1) b.toList,
      hdrop] at hlists
    exact (List.perm_append_right_iff _).mp hlists
  have hsize' : i < b.toList.length := by
    rw [← hperm.toList.length_eq]
    exact hsize
  have hmem : b.toList[i] ∈ a.toList.take (i + 1) :=
    htake.mem_iff.mpr (List.mem_take_iff_getElem.mpr ⟨i, by omega, rfl⟩)
  obtain ⟨j, hj, hget⟩ := List.mem_take_iff_getElem.mp hmem
  refine ⟨j, by omega, ?_⟩
  rw [← Array.getElem?_toList, ← Array.getElem?_toList, List.getElem?_eq_getElem hsize', ← hget]
  exact List.getElem?_eq_getElem (by omega)

/-- The picks that put the places up to `i` into a given order. -/
theorem exists_shuffle_eq_of_rest {i : ℕ} {a b : Array α} (hsize : i < a.size) (hperm : a.Perm b)
    (hrest : ∀ k, i < k → a[k]? = b[k]?) :
    ∃ pick : ℕ → ℕ, (∀ j, pick j ≤ j) ∧ shuffle pick i a = b := by
  induction i generalizing a with
  | zero =>
    refine ⟨fun _ ↦ 0, fun j ↦ Nat.zero_le j, Array.ext_getElem? fun k ↦ ?_⟩
    obtain ⟨j, hj, hget⟩ := exists_getElem?_eq hsize hperm hrest
    obtain rfl : j = 0 := Nat.le_zero.mp hj
    rcases Nat.eq_zero_or_pos k with rfl | hk
    · exact hget
    · exact hrest k hk
  | succ i ih =>
    obtain ⟨j, hj, hget⟩ := exists_getElem?_eq hsize hperm hrest
    have hswap := swapIfInBounds_perm a (i + 1) j
    obtain ⟨pick, hpick, hrun⟩ := ih (a := a.swapIfInBounds (i + 1) j)
      (by rw [Array.size_swapIfInBounds]; omega) (hswap.trans hperm) fun k hk ↦ by
        rw [getElem?_swapIfInBounds hsize hj hk]
        split_ifs with hki
        · rw [hki, hget]
        · exact hrest k (by omega)
    refine ⟨Function.update pick (i + 1) j, fun k ↦ ?_, ?_⟩
    · rw [Function.update_apply]
      split_ifs with hk
      · exact hk ▸ hj
      · exact hpick k
    · rw [shuffle, Function.update_self, ← hrun]
      exact shuffle_congr (fun k hk ↦ Function.update_of_ne (by omega) _ _) _

/-- **Every permutation is the result of some picks.** -/
theorem exists_shuffle_eq {a b : Array α} (hpos : 0 < a.size) (hperm : a.Perm b) :
    ∃ pick : ℕ → ℕ, (∀ j, pick j ≤ j) ∧ shuffle pick (a.size - 1) a = b := by
  have hsize : a.size = b.size := hperm.toList.length_eq
  refine exists_shuffle_eq_of_rest (Nat.sub_one_lt_of_lt hpos) hperm fun k hk ↦ ?_
  rw [Array.getElem?_eq_none (by omega), Array.getElem?_eq_none (by omega)]

end FisherYates
