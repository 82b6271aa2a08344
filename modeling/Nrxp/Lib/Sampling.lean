import Mathlib.Data.List.Basic
import Mathlib.Data.PFun

/-!
# Rejection sampling

A source is a state and a way to draw from it. `untilAccepted` draws until a value is accepted;
`sample` does so several times. Neither bounds the draws, so both are partial.

`exists_draws_of_mem_sample` says what a sample is, the values accepted among those drawn, in order,
and `sample_dom_iff` when there is one. Each rests on one step: a value that is rejected leaves the
sample to the rest of the source.
-/

namespace Sampling

variable {σ α : Type} (next : σ → α × σ) (accept : α → Bool)

/-- A value drawn, or, if it is rejected, the rest of the source. -/
def attempt (s : σ) : (α × σ) ⊕ σ :=
  if accept (next s).1 then Sum.inl (next s) else Sum.inr (next s).2

/-- Draw until a value is accepted. -/
def untilAccepted : σ →. α × σ := PFun.fix fun s ↦ Part.some (attempt next accept s)

/-- Draw `n` times in a way that may have no result. -/
def times (draw : σ →. α × σ) : ℕ → σ →. List α × σ
  | 0, s => Part.some ([], s)
  | n + 1, s => (draw s).bind fun r ↦ (times draw n r.2).map fun rs ↦ (r.1 :: rs.1, rs.2)

/-- Draw until `n` values are accepted. -/
def sample : ℕ → σ →. List α × σ := times (untilAccepted next accept)

/-- The first `n` values drawn, and the state then. -/
def draws : ℕ → σ → List α × σ
  | 0, s => ([], s)
  | n + 1, s => ((next s).1 :: (draws n (next s).2).1, (draws n (next s).2).2)

variable {next accept}

theorem draws_add (m n : ℕ) (s : σ) :
    draws next (m + n) s
      = ((draws next m s).1 ++ (draws next n (draws next m s).2).1,
        (draws next n (draws next m s).2).2) := by
  induction m generalizing s with
  | zero => rw [Nat.zero_add]; rfl
  | succ m ih =>
    rw [Nat.add_right_comm, draws, ih]
    rfl

/-! ### One step -/

theorem attempt_of_accepted {s : σ} (h : accept (next s).1 = true) :
    attempt next accept s = Sum.inl (next s) := if_pos h

theorem attempt_of_rejected {s : σ} (h : ¬accept (next s).1 = true) :
    attempt next accept s = Sum.inr (next s).2 := if_neg h

theorem untilAccepted_of_accepted {s : σ} (h : accept (next s).1 = true) :
    untilAccepted next accept s = Part.some (next s) :=
  Part.eq_some_iff.2 (PFun.fix_stop (Part.mem_some_iff.2 (attempt_of_accepted h).symm))

theorem untilAccepted_of_rejected {s : σ} (h : ¬accept (next s).1 = true) :
    untilAccepted next accept s = untilAccepted next accept (next s).2 :=
  PFun.fix_fwd_eq (Part.mem_some_iff.2 (attempt_of_rejected h).symm)

/-! ### What a sample is -/

/-- The value accepted is the only one among those drawn. -/
theorem exists_draws_of_mem_untilAccepted {s s' : σ} {a : α}
    (h : (a, s') ∈ untilAccepted next accept s) :
    ∃ n, (draws next n s).2 = s' ∧ (draws next n s).1.filter accept = [a] := by
  -- The induction is on the draws that are rejected before this one.
  refine PFun.fixInduction h fun s hmem ih ↦ ?_
  by_cases hfirst : accept (next s).1 = true
  · rw [← untilAccepted, untilAccepted_of_accepted hfirst, Part.mem_some_iff] at hmem
    obtain ⟨rfl, rfl⟩ := Prod.ext_iff.mp hmem
    exact ⟨1, rfl, List.filter_cons_of_pos hfirst⟩
  · obtain ⟨n, hstate, hfilter⟩ :=
      ih (next s).2 (Part.mem_some_iff.2 (attempt_of_rejected hfirst).symm)
    exact ⟨n + 1, hstate, (List.filter_cons_of_neg hfirst).trans hfilter⟩

/-- **A sample** is what is accepted among the values drawn, in order. -/
theorem exists_draws_of_mem_sample {n : ℕ} {s s' : σ} {as : List α}
    (h : (as, s') ∈ sample next accept n s) :
    as.length = n ∧ ∃ m, (draws next m s).2 = s' ∧ (draws next m s).1.filter accept = as := by
  induction n generalizing s as with
  | zero =>
    cases Part.mem_some_iff.1 h
    exact ⟨rfl, 0, rfl, rfl⟩
  | succ n ih =>
    obtain ⟨⟨a, s₁⟩, hfirst, hrest⟩ := Part.mem_bind_iff.1 h
    obtain ⟨⟨as', s₂⟩, hmany, hpair⟩ := (Part.mem_map_iff _).1 hrest
    cases hpair
    obtain ⟨m₁, hstate₁, hfilter₁⟩ := exists_draws_of_mem_untilAccepted hfirst
    obtain ⟨hlength, m₂, hstate₂, hfilter₂⟩ := ih hmany
    refine ⟨congrArg Nat.succ hlength, m₁ + m₂, ?_, ?_⟩
    · rw [draws_add, hstate₁, hstate₂]
    · rw [draws_add, hstate₁, List.filter_append, hfilter₁, hfilter₂]
      rfl

/-! ### When there is one -/

theorem sample_of_accepted {s : σ} (h : accept (next s).1 = true) (n : ℕ) :
    sample next accept (n + 1) s
      = (sample next accept n (next s).2).map fun rs ↦ ((next s).1 :: rs.1, rs.2) := by
  rw [sample, times, untilAccepted_of_accepted h, Part.bind_some]

theorem sample_of_rejected {s : σ} (h : ¬accept (next s).1 = true) (n : ℕ) :
    sample next accept (n + 1) s = sample next accept (n + 1) (next s).2 := by
  rw [sample, times, times, untilAccepted_of_rejected h]

/-- Enough acceptable values make a sample. -/
theorem sample_dom_of_le {m n : ℕ} {s : σ} (h : n ≤ ((draws next m s).1.filter accept).length) :
    (sample next accept n s).Dom := by
  induction m generalizing n s with
  | zero =>
    obtain rfl : n = 0 := Nat.le_zero.mp h
    trivial
  | succ m ih =>
    cases n with
    | zero => trivial
    | succ n =>
      by_cases hfirst : accept (next s).1 = true
      · rw [draws, List.filter_cons_of_pos hfirst, List.length_cons] at h
        rw [sample_of_accepted hfirst]
        show (sample next accept n (next s).2).Dom
        exact ih (Nat.le_of_succ_le_succ h)
      · rw [draws, List.filter_cons_of_neg hfirst] at h
        rw [sample_of_rejected hfirst]
        exact ih h

/-- **There is a sample** if and only if enough values are acceptable. -/
theorem sample_dom_iff {n : ℕ} {s : σ} :
    (sample next accept n s).Dom ↔ ∃ m, n ≤ ((draws next m s).1.filter accept).length := by
  constructor
  · intro h
    obtain ⟨⟨as, s'⟩, hsample⟩ := Part.dom_iff_mem.1 h
    obtain ⟨hlength, m, -, hfilter⟩ := exists_draws_of_mem_sample hsample
    exact ⟨m, hfilter ▸ Nat.le_of_eq hlength.symm⟩
  · rintro ⟨m, hm⟩
    exact sample_dom_of_le hm

end Sampling
