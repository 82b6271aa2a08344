import Mathlib.Data.List.Chain
import Mathlib.Logic.Function.Basic
import Nrxp.Lib.SlidingWindow

/-!
# A replay filter over epochs

A receiver whose peer numbers what it sends by an epoch and a counter, and who keeps a sliding
window for each epoch it still listens to: the current one, the one before, and the next one, which
becomes current with the first number taken from it. `EpochFilter` is the exact version, with
nothing forgotten and epochs that never wrap, and says what such a receiver is for.

* `Takes.not_mem` — nothing is taken twice, however far the filter moves on in between.
* `Runs.forall_taken_iff` — if numbers arrive in order, the only thing that can stop one is an epoch
  that was skipped altogether.
-/

/-- What was taken so far, by epoch; nothing from beyond the current epoch. -/
@[ext] structure EpochFilter where
  /-- The current epoch. -/
  epoch : ℕ
  /-- The counters taken from an epoch. -/
  seen : ℕ → Set ℕ
  /-- Epochs to come are untouched. -/
  seen_of_lt : ∀ t, epoch < t → seen t = ∅

namespace EpochFilter

variable {W : ℕ} {F : EpochFilter} {t c t' c' : ℕ}

/-- Nothing taken yet. -/
def fresh : EpochFilter := ⟨0, fun _ ↦ ∅, fun _ _ ↦ rfl⟩

/-- The epochs listened to. -/
def Listens (F : EpochFilter) (t : ℕ) : Prop := t ≤ F.epoch + 1 ∧ F.epoch ≤ t + 1

/-- A counter of an epoch is taken: the epoch is listened to and its window admits the counter. -/
def Takes (W : ℕ) (F : EpochFilter) (t c : ℕ) : Prop := F.Listens t ∧ Admits W (F.seen t) c

/-- After a counter was taken. -/
def take (F : EpochFilter) (t c : ℕ) : EpochFilter where
  epoch := max F.epoch t
  seen := Function.update F.seen t (insert c (F.seen t))
  seen_of_lt t' ht' := by
    rw [Function.update_of_ne (by omega)]
    exact F.seen_of_lt t' (by omega)

@[simp] theorem take_epoch : (F.take t c).epoch = max F.epoch t := rfl

@[simp] theorem take_seen_self : (F.take t c).seen t = insert c (F.seen t) :=
  Function.update_self _ _ _

theorem take_seen_of_ne (h : t' ≠ t) : (F.take t c).seen t' = F.seen t' :=
  Function.update_of_ne h _ _

theorem mem_seen_take : c' ∈ (F.take t c).seen t' ↔ (t' = t ∧ c' = c) ∨ c' ∈ F.seen t' := by
  by_cases h : t' = t
  · subst h
    simp
  · simp [take_seen_of_ne h, h]

/-- What was taken is not forgotten. -/
theorem seen_subset_take : F.seen t' ⊆ (F.take t c).seen t' := fun _ h ↦
  mem_seen_take.mpr (Or.inr h)

/-- **At most once**: what is in the history is not taken. -/
theorem Takes.not_mem (h : F.Takes W t c) : c ∉ F.seen t := h.2.1

/-- What a fresh filter makes of the numbers it is offered: which of them it takes, and what has
become of it. -/
inductive Runs (W : ℕ) : List ((ℕ × ℕ) × Bool) → EpochFilter → Prop
  | fresh : Runs W [] fresh
  | take {l : List ((ℕ × ℕ) × Bool)} {F : EpochFilter} {t c : ℕ} (h : Runs W l F)
      (htakes : F.Takes W t c) : Runs W (l ++ [((t, c), true)]) (F.take t c)
  | refuse {l : List ((ℕ × ℕ) × Bool)} {F : EpochFilter} {t c : ℕ} (h : Runs W l F)
      (htakes : ¬F.Takes W t c) : Runs W (l ++ [((t, c), false)]) F

/-- The history is what was taken. -/
theorem Runs.mem_seen {l : List ((ℕ × ℕ) × Bool)} (h : Runs W l F) :
    c ∈ F.seen t ↔ ((t, c), true) ∈ l := by
  induction h with
  | fresh => exact ⟨fun h ↦ h.elim, fun h ↦ nomatch h⟩
  | take h htakes ih => simp [mem_seen_take, ih, or_comm]
  | refuse h htakes ih => simp [ih]

/-- The current epoch is the first one, or one that something was taken from. -/
theorem Runs.epoch_mem {l : List ((ℕ × ℕ) × Bool)} (h : Runs W l F) :
    F.epoch = 0 ∨ ∃ c, ((F.epoch, c), true) ∈ l := by
  induction h with
  | fresh => exact Or.inl rfl
  | @take l F t c h htakes ih =>
    rcases Nat.le_total F.epoch t with hle | hle
    · exact Or.inr ⟨c, by simp [hle]⟩
    · rw [take_epoch, Nat.max_eq_left hle]
      exact ih.imp_right fun ⟨c', hc'⟩ ↦ ⟨c', List.mem_append_left _ hc'⟩
  | refuse h htakes ih => exact ih.imp_right fun ⟨c', hc'⟩ ↦ ⟨c', List.mem_append_left _ hc'⟩

/-- The last number offered was decided by what was taken before. -/
theorem Runs.last {l : List ((ℕ × ℕ) × Bool)} {b : Bool} (h : Runs W (l ++ [((t, c), b)]) F) :
    ∃ F', Runs W l F' ∧ (b = true ↔ F'.Takes W t c) := by
  generalize hl : l ++ [((t, c), b)] = l' at h
  cases h with
  | fresh => simp at hl
  | @take l₀ F₀ t₀ c₀ h₀ htakes =>
    obtain ⟨rfl, hlast⟩ := List.append_inj' hl rfl
    cases hlast
    exact ⟨F₀, h₀, iff_of_true rfl htakes⟩
  | @refuse l₀ F₀ t₀ c₀ h₀ htakes =>
    obtain ⟨rfl, hlast⟩ := List.append_inj' hl rfl
    cases hlast
    exact ⟨F, h₀, iff_of_false Bool.false_ne_true htakes⟩

/-- As long as nothing but epoch 0 was offered, a number of it is taken if it is new, and less than
`W` behind those that were. -/
theorem Runs.last_iff {l : List ((ℕ × ℕ) × Bool)} {b : Bool} (h : Runs W (l ++ [((0, c), b)]) F)
    (hzero : ∀ x ∈ l, x.1.1 = 0) :
    b = true ↔ ∀ c', ((0, c'), true) ∈ l → c' ≠ c ∧ c' < c + W := by
  obtain ⟨F', h', hiff⟩ := h.last
  have hepoch : F'.epoch = 0 := h'.epoch_mem.elim id fun ⟨c', hmem⟩ ↦ hzero _ hmem
  rw [hiff, Takes, Listens, Admits, hepoch]
  constructor
  · rintro ⟨-, hnew, hnear⟩ c' hmem
    refine ⟨?_, hnear c' (h'.mem_seen.mpr hmem)⟩
    rintro rfl
    exact hnew (h'.mem_seen.mpr hmem)
  · intro hall
    exact ⟨by omega, fun hmem ↦ (hall c (h'.mem_seen.mp hmem)).1 rfl,
      fun c' hmem ↦ (hall c' (h'.mem_seen.mp hmem)).2⟩

/-! ### In order -/

/-- One number comes before another. -/
def Before (p q : ℕ × ℕ) : Prop := p.1 < q.1 ∨ (p.1 = q.1 ∧ p.2 < q.2)

/-- A number later than all offered so far is taken exactly if no whole epoch was skipped. -/
theorem Runs.takes_iff {l : List ((ℕ × ℕ) × Bool)} (h : Runs W l F)
    (hbefore : ∀ x ∈ l, Before x.1 (t, c)) : F.epoch ≤ t ∧ (F.Takes W t c ↔ t ≤ F.epoch + 1) := by
  have hepoch : F.epoch ≤ t := by
    rcases h.epoch_mem with hzero | ⟨c', hmem⟩
    · omega
    · rcases hbefore _ hmem with hlt | ⟨heq, -⟩
      · exact hlt.le
      · exact heq.le
  have hseen : ∀ m ∈ F.seen t, m < c := fun m hm ↦ by
    rcases hbefore _ (h.mem_seen.mp hm) with hlt | ⟨-, hlt⟩
    · exact absurd hlt (Nat.lt_irrefl t)
    · exact hlt
  refine ⟨hepoch, fun htakes ↦ htakes.1.1, fun hle ↦ ⟨⟨hle, hepoch.trans (Nat.le_succ t)⟩, ?_, ?_⟩⟩
  · exact fun hmem ↦ absurd (hseen c hmem) (Nat.lt_irrefl c)
  · exact fun m hm ↦ (hseen m hm).trans_le (Nat.le_add_right c W)

/-- In order, everything is taken exactly if each number is from the epoch of the one before it or
from the next one; and while everything is, the current epoch is the last one offered. -/
theorem Runs.inOrder {l : List ((ℕ × ℕ) × Bool)} (h : Runs W l F)
    (hsorted : (l.map Prod.fst).Pairwise Before) :
    ((∀ x ∈ l, x.2 = true) ↔ (0 :: l.map (·.1.1)).IsChain fun t t' ↦ t' ≤ t + 1) ∧
      ((∀ x ∈ l, x.2 = true) → (0 :: l.map (·.1.1)).getLast? = some F.epoch) := by
  have hstep : ∀ {l : List ((ℕ × ℕ) × Bool)} {t c : ℕ} {b : Bool},
      ((l ++ [((t, c), b)]).map Prod.fst).Pairwise Before →
      (l.map Prod.fst).Pairwise Before ∧ ∀ x ∈ l, Before x.1 (t, c) := by
    intro l t c b hl
    rw [List.map_append, List.pairwise_append] at hl
    exact ⟨hl.1, fun x hx ↦ hl.2.2 _ (List.mem_map_of_mem hx) _ (by simp)⟩
  have hlast : ∀ {l : List ((ℕ × ℕ) × Bool)} {t c : ℕ} {b : Bool},
      0 :: (l ++ [((t, c), b)]).map (·.1.1) = (0 :: l.map (·.1.1)) ++ [t] := by
    simp
  induction h with
  | fresh => exact ⟨by simp, fun _ ↦ rfl⟩
  | @take l F t c h htakes ih =>
    obtain ⟨hsorted', hbefore⟩ := hstep hsorted
    obtain ⟨hchain, hepoch⟩ := ih hsorted'
    obtain ⟨hle, hiff⟩ := h.takes_iff hbefore
    rw [hlast, List.isChain_append, List.getLast?_append, take_epoch, Nat.max_eq_right hle]
    refine ⟨?_, fun _ ↦ rfl⟩
    rw [List.forall_mem_append, ← hchain]
    constructor
    · rintro ⟨hall, -⟩
      refine ⟨hall, by simp, fun x hx y hy ↦ ?_⟩
      rw [hepoch hall] at hx
      cases hx
      cases hy
      exact hiff.mp htakes
    · exact fun hall ↦ ⟨hall.1, by simp⟩
  | @refuse l F t c h htakes ih =>
    obtain ⟨hsorted', hbefore⟩ := hstep hsorted
    obtain ⟨hchain, hepoch⟩ := ih hsorted'
    obtain ⟨hle, hiff⟩ := h.takes_iff hbefore
    rw [hlast, List.isChain_append, List.forall_mem_append, ← hchain]
    refine ⟨⟨fun hall ↦ ?_, fun hall ↦ ?_⟩, fun hall ↦ ?_⟩
    · simpa using hall.2
    · exact absurd (hall.2.2 _ (hepoch hall.1) t rfl) (fun hle' ↦ htakes (hiff.mpr hle'))
    · simpa using hall.2

/-- **In order, only a skipped epoch stops anything**: everything is taken exactly if each number is
from the epoch of the one before it or from the next one, starting from epoch 0. -/
theorem Runs.forall_taken_iff {l : List ((ℕ × ℕ) × Bool)} (h : Runs W l F)
    (hsorted : (l.map Prod.fst).Pairwise Before) :
    (∀ x ∈ l, x.2 = true) ↔ (0 :: l.map (·.1.1)).IsChain fun t t' ↦ t' ≤ t + 1 :=
  (h.inOrder hsorted).1

end EpochFilter
