import Mathlib.Algebra.BigOperators.Group.List.Basic
import Mathlib.Algebra.Order.Ring.Nat
import Mathlib.Data.List.Basic

/-!
# Greedy packing

A list of weighted elements is to be cut into consecutive groups whose weights do not exceed a
capacity; an element that exceeds it by itself makes a group of its own. `pack` fills one group
after the other for as long as the next element still fits.

`pack_isSplit` says that this is such a cut and `length_pack_le` that no cut has fewer groups. The
second rests on `length_packFrom`: to begin with a fuller group never helps, and never costs more
than one group. Each half needs the other for the shorter list.
-/

namespace Packing

variable {α : Type} (weight : α → ℕ) (capacity : ℕ)

/-- The weight of a group. -/
def total (g : List α) : ℕ := (g.map weight).sum

/-- Pack a list, with the elements of `batch` already in the current group. -/
def packFrom (batch : List α) : List α → List (List α)
  | [] => if batch.isEmpty then [] else [batch]
  | a :: as =>
    if capacity < weight a then
      if batch.isEmpty then [a] :: packFrom batch as else batch :: [a] :: packFrom [] as
    else if capacity < total weight batch + weight a then batch :: packFrom [a] as
    else packFrom (batch ++ [a]) as

/-- Pack a list greedily. -/
def pack : List α → List (List α) := packFrom weight capacity []

/-- What a group may be: a single element over the capacity, or elements within it. -/
inductive Fits : List α → Prop
  | single {a : α} (h : capacity < weight a) : Fits [a]
  | within {g : List α} (hne : g ≠ []) (h : total weight g ≤ capacity) : Fits g

/-- The list cut into consecutive groups. -/
structure IsSplit (l : List α) (groups : List (List α)) : Prop where
  flatten_eq : groups.flatten = l
  fits : ∀ g ∈ groups, Fits weight capacity g

section

variable {weight capacity}

@[simp] theorem total_nil : total weight [] = 0 := rfl

@[simp] theorem total_append (g g' : List α) :
    total weight (g ++ g') = total weight g + total weight g' := by
  simp [total]

@[simp] theorem total_singleton (a : α) : total weight [a] = weight a := by
  simp [total]

@[simp] theorem total_cons (a : α) (g : List α) :
    total weight (a :: g) = weight a + total weight g := by
  simp [total]

/-! ### One step -/

/-- What is waiting in the current group makes a group, if there is any. -/
def pending (batch : List α) : List (List α) := if batch.isEmpty then [] else [batch]

theorem length_pending_le (batch : List α) : (pending batch).length ≤ 1 := by
  rw [pending]
  split <;> simp

theorem length_pending_mono {batch batch' : List α} (h : batch' = [] → batch = []) :
    (pending batch).length ≤ (pending batch').length := by
  rcases batch' with - | ⟨b, batch'⟩
  · rw [h rfl]
  · exact length_pending_le batch

theorem packFrom_nil (batch : List α) : packFrom weight capacity batch [] = pending batch := rfl

theorem packFrom_of_large {a : α} (h : capacity < weight a) (batch as : List α) :
    packFrom weight capacity batch (a :: as)
      = pending batch ++ [a] :: packFrom weight capacity [] as := by
  rw [packFrom, if_pos h, pending]
  split
  · rename_i hempty
    rw [List.isEmpty_iff.mp hempty, List.nil_append]
  · rfl

theorem packFrom_of_full {a : α} {batch : List α} (h : ¬capacity < weight a)
    (hfull : capacity < total weight batch + weight a) (as : List α) :
    packFrom weight capacity batch (a :: as) = batch :: packFrom weight capacity [a] as := by
  rw [packFrom, if_neg h, if_pos hfull]

theorem packFrom_of_room {a : α} {batch : List α} (h : ¬capacity < weight a)
    (hroom : ¬capacity < total weight batch + weight a) (as : List α) :
    packFrom weight capacity batch (a :: as) = packFrom weight capacity (batch ++ [a]) as := by
  rw [packFrom, if_neg h, if_neg hroom]

/-! ### The cut -/

theorem IsSplit.cons {l g : List α} {groups : List (List α)} (hg : Fits weight capacity g)
    (h : IsSplit weight capacity l groups) : IsSplit weight capacity (g ++ l) (g :: groups) where
  flatten_eq := by rw [List.flatten_cons, h.flatten_eq]
  fits := List.forall_mem_cons.mpr ⟨hg, h.fits⟩

theorem IsSplit.pending {l batch : List α} {groups : List (List α)}
    (hbatch : total weight batch ≤ capacity) (h : IsSplit weight capacity l groups) :
    IsSplit weight capacity (batch ++ l) (Packing.pending batch ++ groups) := by
  rw [Packing.pending]
  split
  · rename_i hempty
    rwa [List.isEmpty_iff.mp hempty]
  · rename_i hempty
    exact h.cons (.within (by simpa using hempty) hbatch)

theorem isSplit_nil : IsSplit weight capacity [] [] := ⟨rfl, by simp⟩

theorem packFrom_isSplit (as : List α) {batch : List α} (hbatch : total weight batch ≤ capacity) :
    IsSplit weight capacity (batch ++ as) (packFrom weight capacity batch as) := by
  induction as generalizing batch with
  | nil =>
    rw [packFrom_nil]
    simpa using isSplit_nil.pending hbatch
  | cons a as ih =>
    by_cases hlarge : capacity < weight a
    · rw [packFrom_of_large hlarge]
      have hrest : IsSplit weight capacity ([] ++ as) (packFrom weight capacity [] as) :=
        ih (Nat.zero_le _)
      exact (hrest.cons (.single hlarge)).pending hbatch
    · by_cases hfull : capacity < total weight batch + weight a
      · have hne : batch ≠ [] := by
          rintro rfl
          rw [total_nil] at hfull
          omega
        have hrest : IsSplit weight capacity ([a] ++ as) (packFrom weight capacity [a] as) :=
          ih (by rw [total_singleton]; omega)
        rw [packFrom_of_full hlarge hfull]
        exact hrest.cons (.within hne hbatch)
      · rw [packFrom_of_room hlarge hfull]
        have hsum : total weight (batch ++ [a]) ≤ capacity := by
          rw [total_append, total_singleton]
          omega
        have hrest := ih hsum
        rwa [List.append_assoc] at hrest

/-- **The packed groups are a cut** of the list. -/
theorem pack_isSplit (l : List α) : IsSplit weight capacity l (pack weight capacity l) := by
  have hnil : total weight ([] : List α) ≤ capacity := Nat.zero_le _
  exact packFrom_isSplit l hnil

/-! ### The number of groups -/

/-- Two runs over the same list: the one that begins with the lighter group needs no more groups,
and no run needs more than one group more than the other. -/
theorem length_packFrom (as : List α) :
    (∀ batch batch' : List α, total weight batch ≤ total weight batch' →
      (batch' = [] → batch = []) →
      (packFrom weight capacity batch as).length ≤ (packFrom weight capacity batch' as).length) ∧
    ∀ batch batch' : List α,
      (packFrom weight capacity batch as).length
        ≤ (packFrom weight capacity batch' as).length + 1 := by
  induction as with
  | nil =>
    refine ⟨fun batch batch' _ hempty ↦ length_pending_mono hempty, fun batch batch' ↦ ?_⟩
    exact (length_pending_le batch).trans (Nat.le_add_left _ _)
  | cons a as ih =>
    obtain ⟨hlighter, hsucc⟩ := ih
    by_cases hlarge : capacity < weight a
    · simp only [packFrom_of_large hlarge, List.length_append]
      refine ⟨fun batch batch' _ hempty ↦ ?_, fun batch batch' ↦ ?_⟩
      · exact Nat.add_le_add_right (length_pending_mono hempty) _
      · have hpending := length_pending_le batch
        omega
    refine ⟨fun batch batch' hle hempty ↦ ?_, fun batch batch' ↦ ?_⟩
    · by_cases hfull' : capacity < total weight batch' + weight a
      · rw [packFrom_of_full hlarge hfull', List.length_cons]
        by_cases hfull : capacity < total weight batch + weight a
        · rw [packFrom_of_full hlarge hfull, List.length_cons]
        · -- only the heavier group is full: it is a group ahead
          rw [packFrom_of_room hlarge hfull]
          exact hsucc _ _
      · rw [packFrom_of_room hlarge hfull', packFrom_of_room hlarge (by omega)]
        exact hlighter _ _ (by simpa using hle) (by simp)
    · by_cases hfull : capacity < total weight batch + weight a
      · rw [packFrom_of_full hlarge hfull, List.length_cons]
        by_cases hfull' : capacity < total weight batch' + weight a
        · rw [packFrom_of_full hlarge hfull', List.length_cons]
          omega
        · rw [packFrom_of_room hlarge hfull']
          exact Nat.succ_le_succ (hlighter _ _ (by simp) (by simp))
      · rw [packFrom_of_room hlarge hfull]
        by_cases hfull' : capacity < total weight batch' + weight a
        · rw [packFrom_of_full hlarge hfull', List.length_cons]
          exact (hsucc _ _).trans (Nat.le_succ _)
        · rw [packFrom_of_room hlarge hfull']
          exact hsucc _ _

/-- Elements within the capacity go into the current group. -/
theorem packFrom_append (g as : List α) {batch : List α}
    (h : total weight batch + total weight g ≤ capacity) :
    packFrom weight capacity batch (g ++ as) = packFrom weight capacity (batch ++ g) as := by
  induction g generalizing batch with
  | nil => rw [List.nil_append, List.append_nil]
  | cons a g ih =>
    rw [total_cons] at h
    rw [List.cons_append, packFrom_of_room (by omega) (by omega), ih (by simp; omega),
      List.append_assoc, List.singleton_append]

/-- **Greedy packing is optimal**: no cut of the list has fewer groups. -/
theorem length_pack_le {l : List α} {groups : List (List α)}
    (h : IsSplit weight capacity l groups) :
    (pack weight capacity l).length ≤ groups.length := by
  obtain ⟨rfl, hfits⟩ := h
  induction groups with
  | nil => exact Nat.zero_le _
  | cons g groups ih =>
    obtain ⟨hg, hgroups⟩ := List.forall_mem_cons.mp hfits
    have hrest := ih hgroups
    rw [List.flatten_cons, List.length_cons]
    cases hg with
    | single hlarge =>
      rw [pack, List.singleton_append, packFrom_of_large hlarge]
      exact Nat.succ_le_succ hrest
    | within hne hle =>
      -- the greedy run holds all of `g` in its first group
      rw [pack, packFrom_append g _ (by rw [total_nil, Nat.zero_add]; exact hle)]
      exact ((length_packFrom groups.flatten).2 _ []).trans (Nat.succ_le_succ hrest)

end

end Packing
