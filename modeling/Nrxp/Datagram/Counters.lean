import Nrxp.Datagram.Window

/-!
# What the counters of the datagram leg guarantee

Three results about `Nrxp.Datagram.Window`, stated without its lemmas.

* `expandCounter_exact`: which counters are recovered from their low bits, and that the recovery
  never overflows.
* `expandCounter_eq_decodePacketNumber_iff`: where the recovery is the one of RFC 9000. The code
  centres its window on the highest counter, the RFC on the one after it.
* `replayWindow_exact`: a run of a fresh replay window decides like a filter that remembers every
  counter it ever took. Nothing in the statement is modular; the circular bitmap is an
  implementation of it.
-/

/-! ### Reconstruction -/

/-- **Reconstruction.** Below `2 ^ 62` it does not overflow, and what it recovers has the low bits
that travelled. It recovers every counter in the half-open window around the highest one; away from
zero it recovers no other. -/
theorem expandCounter_exact {bits : ℕ} (hb : 1 ≤ bits) (hb' : bits ≤ 63) (highest wire : UInt64)
    (hh : highest.toNat < 2 ^ 62) :
    (∃ r, expandCounter highest wire bits = .ok r ∧
      r.toNat % 2 ^ bits = wire.toNat % 2 ^ bits) ∧
    (∀ full : UInt64, wire.toNat % 2 ^ bits = full.toNat % 2 ^ bits →
      highest.toNat < full.toNat + 2 ^ (bits - 1) → full.toNat ≤ highest.toNat + 2 ^ (bits - 1) →
      expandCounter highest wire bits = .ok full) ∧
    (2 ^ (bits - 1) ≤ highest.toNat → ∀ full : UInt64,
      wire.toNat % 2 ^ bits = full.toNat % 2 ^ bits →
      (expandCounter highest wire bits = .ok full ↔
        highest.toNat < full.toNat + 2 ^ (bits - 1) ∧
          full.toNat ≤ highest.toNat + 2 ^ (bits - 1))) := by
  have hlt : bits < 64 := by omega
  have hlow : wire.toNat % 2 ^ bits < 2 ^ bits := Nat.mod_lt _ (Nat.two_pow_pos _)
  obtain ⟨r, hr, hnat⟩ := toNat_expandCounter wire hb hlt hh
  have hexact := fun (full : UInt64) (hwire : wire.toNat % 2 ^ bits = full.toNat % 2 ^ bits)
    hlow hhigh ↦ expandCounter_of_mod_eq hb hlt hh hwire hlow hhigh
  refine ⟨⟨r, hr, ?_⟩, hexact, fun hhalf full hwire ↦ ⟨fun hfull ↦ ?_, fun h ↦ ?_⟩⟩
  · rw [hnat, expandNat_mod hlow]
  · obtain rfl : r = full := Outcome.ok.inj (hr.symm.trans hfull)
    rw [hnat]
    exact expandNat_mem (two_pow_eq_two_mul hb) hlow hhalf
  · exact hexact full hwire h.1 h.2

/-- Three bits, around 100: 97 to 104 are recovered, and 96, which ends like 104, is not. -/
theorem expandCounter_exact_around_hundred :
    expandCounter 100 0 3 = .ok 104 ∧ expandCounter 100 97 3 = .ok 97 ∧
      ∀ full : UInt64, (0 : UInt64).toNat % 2 ^ 3 = full.toNat % 2 ^ 3 →
        (expandCounter 100 0 3 = .ok full ↔
          (100 : UInt64).toNat < full.toNat + 2 ^ (3 - 1) ∧
            full.toNat ≤ (100 : UInt64).toNat + 2 ^ (3 - 1)) :=
  ⟨by decide, by decide,
    (expandCounter_exact (by decide) (by decide) 100 0 (by decide)).2.2 (by decide)⟩

/-! ### Reconstruction and the RFC -/

/-- The packet number that Appendix A.3 of RFC 9000 decodes, far below the largest one: the expected
number with its low bits replaced, moved by a window where that is nearer. -/
def decodePacketNumber (largest truncated : ℤ) (bits : ℕ) : ℤ :=
  let expected := largest + 1
  let candidate := expected / 2 ^ bits * 2 ^ bits + truncated
  if candidate ≤ expected - 2 ^ (bits - 1) then candidate + 2 ^ bits
  else if candidate > expected + 2 ^ (bits - 1) ∧ candidate ≥ 2 ^ bits then candidate - 2 ^ bits
  else candidate

/-- The low bits are those of the number half a window ahead of the expected one, and the number
half a window behind it is no less than zero. -/
def IsHalfAhead (highest truncated bits : ℕ) : Prop :=
  2 ^ (bits - 1) ≤ highest + 1 ∧ truncated = (highest + 1 + 2 ^ (bits - 1)) % 2 ^ bits

/-- The block of the next number: the same one, or the next if this one is full. -/
theorem succ_div_mul {n window : ℕ} (hpos : 0 < window) :
    (n + 1) / window * window
      = if n % window + 1 = window then n / window * window + window
        else n / window * window := by
  have hn : n / window * window + n % window = n := Nat.div_add_mod' _ _
  split_ifs with hfull
  · have hsucc : n + 1 = (n / window + 1) * window := by
      rw [Nat.add_one_mul]
      omega
    rw [hsucc, Nat.mul_div_cancel _ hpos, Nat.add_one_mul]
  · have hlt : n % window + 1 < window := by
      have := Nat.mod_lt n hpos
      omega
    have hsucc : n + 1 = n % window + 1 + n / window * window := by omega
    rw [hsucc, Nat.add_mul_div_right _ _ hpos, Nat.div_eq_of_lt hlt, Nat.zero_add]

/-- Centred on `highest` or on the number after it, the reconstruction is the same, except of a
number half a window ahead. -/
theorem expandNat_succ_eq_iff {h t window half : ℕ} (hwindow : window = 2 * half)
    (ht : t < window) :
    expandNat h (h / window * window + t) window half =
        expandNat (h + 1) ((h + 1) / window * window + t) window half ↔
      ¬(half ≤ h + 1 ∧ t = (h + 1 + half) % window) := by
  have hpos : 0 < window := by omega
  have hs : h % window < window := Nat.mod_lt _ hpos
  have hm : (h + 1 + half) % window < window := Nat.mod_lt _ hpos
  have hh : h / window * window + h % window = h := Nat.div_add_mod' _ _
  have hblock : h / window * window = 0 ∨ window ≤ h / window * window := by
    rcases Nat.eq_zero_or_pos (h / window) with h0 | h0
    · exact Or.inl (by rw [h0, Nat.zero_mul])
    · exact Or.inr (Nat.le_mul_of_pos_left window h0)
  have hahead : (h + 1 + half) % window = (h % window + 1 + half) % window := by
    conv_lhs => rw [← hh, Nat.add_assoc, Nat.add_assoc, Nat.mul_add_mod_self_right]
    rw [Nat.add_assoc]
  -- at most one window is taken off what is left of the number half a window ahead
  have hwrap : (h % window + 1 + half) % window = h % window + 1 + half ∨
      (h % window + 1 + half) % window + window = h % window + 1 + half := by
    rcases Nat.lt_or_ge (h % window + 1 + half) window with hlt | hge
    · exact Or.inl (Nat.mod_eq_of_lt hlt)
    · refine Or.inr ?_
      rw [Nat.mod_eq_sub_mod hge, Nat.mod_eq_of_lt (by omega)]
      omega
  rw [expandNat, expandNat, succ_div_mul hpos]
  split_ifs <;> omega

/-- The algorithm of the RFC is the one of the code, centred on the number after the highest. -/
theorem decodePacketNumber_natCast (largest truncated bits : ℕ) :
    decodePacketNumber largest truncated bits
      = expandNat (largest + 1) ((largest + 1) / 2 ^ bits * 2 ^ bits + truncated) (2 ^ bits)
          (2 ^ (bits - 1)) := by
  have hcandidate : ((largest : ℤ) + 1) / 2 ^ bits * 2 ^ bits + truncated
      = ((largest + 1) / 2 ^ bits * 2 ^ bits + truncated : ℕ) := by
    push_cast
    rfl
  have hwindow : (2 : ℤ) ^ bits = (2 ^ bits : ℕ) := by push_cast; rfl
  have hhalf : (2 : ℤ) ^ (bits - 1) = (2 ^ (bits - 1) : ℕ) := by push_cast; rfl
  rw [decodePacketNumber, expandNat, hcandidate, hwindow, hhalf]
  split_ifs <;> omega

/-- **Reconstruction against the RFC.** The two agree unless what travelled is the low bits of the
number half a window ahead of the expected one. -/
theorem expandCounter_eq_decodePacketNumber_iff {bits : ℕ} (hb : 1 ≤ bits) (hb' : bits ≤ 32)
    {highest truncated : UInt64} (hh : highest.toNat < 2 ^ 61)
    (ht : truncated.toNat < 2 ^ bits) :
    (∃ r, expandCounter highest truncated bits = .ok r ∧
        (r.toNat : ℤ) = decodePacketNumber highest.toNat truncated.toNat bits) ↔
      ¬IsHalfAhead highest.toNat truncated.toNat bits := by
  obtain ⟨r, hr, hnat⟩ := toNat_expandCounter truncated hb (by omega) (hh.trans (by decide))
  have hiff := expandNat_succ_eq_iff (h := highest.toNat) (two_pow_eq_two_mul hb) ht
  rw [Nat.mod_eq_of_lt ht] at hnat
  rw [IsHalfAhead, ← hiff, ← hnat, decodePacketNumber_natCast]
  constructor
  · rintro ⟨r', hr', heq⟩
    obtain rfl : r = r' := Outcome.ok.inj (hr.symm.trans hr')
    exact Int.ofNat.inj heq
  · exact fun heq ↦ ⟨r, hr, congrArg Int.ofNat heq⟩

/-- Eight bits, after 250: what ends in 4 is 260. -/
theorem expandCounter_eq_decodePacketNumber_iff_wrap :
    expandCounter 250 4 8 = .ok 260 ∧
      ((∃ r, expandCounter 250 4 8 = .ok r ∧
          (r.toNat : ℤ) = decodePacketNumber (250 : UInt64).toNat (4 : UInt64).toNat 8) ↔
        ¬IsHalfAhead (250 : UInt64).toNat (4 : UInt64).toNat 8) :=
  ⟨by decide, expandCounter_eq_decodePacketNumber_iff (by decide) (by decide) (by decide)
    (by decide)⟩

/-- Sixteen bits, after 32767: what ends in 0 is read as 0, where the RFC reads 65536. -/
theorem expandCounter_ne_decodePacketNumber :
    expandCounter 32767 0 16 = .ok 0 ∧
      ¬∃ r, expandCounter 32767 0 16 = .ok r ∧
        (r.toNat : ℤ) = decodePacketNumber (32767 : UInt64).toNat (0 : UInt64).toNat 16 := by
  have hcode : expandCounter 32767 0 16 = .ok 0 := by decide
  refine ⟨hcode, ?_⟩
  rintro ⟨r, hr, heq⟩
  obtain rfl : 0 = r := Outcome.ok.inj (hcode.symm.trans hr)
  exact absurd heq (by decide)

/-! ### The replay window -/

namespace ReplayWindow

/-- Note counters in order: the decisions, and the window reached. -/
def acceptAll : List UInt64 → ReplayWindow → List (Outcome TlsError Bool) × ReplayWindow
  | [], w => ([], w)
  | c :: cs, w =>
    let (r, w) := accept c w
    let (rs, w) := acceptAll cs w
    (r :: rs, w)

/-- The counters that were taken. -/
def accepted (cs : List UInt64) (rs : List (Outcome TlsError Bool)) : List UInt64 :=
  ((cs.zip rs).filter (·.2 = .ok true)).map Prod.fst

/-- The numbers of a list of counters. -/
def numbers (cs : List UInt64) : Set ℕ := {n | ∃ c ∈ cs, c.toNat = n}

@[simp] theorem mem_numbers {c : UInt64} {cs : List UInt64} : c.toNat ∈ numbers cs ↔ c ∈ cs := by
  constructor
  · rintro ⟨c', hc', h⟩
    rwa [← UInt64.toNat_inj.mp h]
  · exact fun h ↦ ⟨c, h, rfl⟩

theorem accepted_cons_of_true (c : UInt64) (cs : List UInt64) (rs : List (Outcome TlsError Bool)) :
    accepted (c :: cs) (.ok true :: rs) = c :: accepted cs rs := rfl

theorem accepted_cons_of_false (c : UInt64) (cs : List UInt64)
    (rs : List (Outcome TlsError Bool)) :
    accepted (c :: cs) (.ok false :: rs) = accepted cs rs := rfl

/-- **A run of the window** takes every counter at most once, none of what it had taken before, and
remembers them all. -/
theorem Holds.acceptAll {w : ReplayWindow} {s : Set ℕ} (h : Holds w s) (cs : List UInt64)
    (hmax : ∀ c ∈ cs, c.toNat < 2 ^ 64 - 1) :
    (accepted cs (acceptAll cs w).1).Nodup ∧
      (∀ c ∈ accepted cs (acceptAll cs w).1, c.toNat ∉ s) ∧
      Holds (acceptAll cs w).2 (s ∪ numbers (accepted cs (acceptAll cs w).1)) := by
  induction cs generalizing w s with
  | nil => simpa [accepted, numbers, ReplayWindow.acceptAll] using h
  | cons c cs ih =>
    have hrest : ∀ c' ∈ cs, c'.toNat < 2 ^ 64 - 1 := fun c' hc' ↦
      hmax c' (List.mem_cons_of_mem _ hc')
    obtain ⟨b, w', haccept, hadmits, htaken, hrefused⟩ :=
      accept_spec h (hmax c List.mem_cons_self)
    rw [ReplayWindow.acceptAll, haccept]
    cases b with
    | false =>
      -- a refused counter leaves the window as it is
      obtain rfl := hrefused rfl
      rw [accepted_cons_of_false]
      exact ih h hrest
    | true =>
      rw [accepted_cons_of_true]
      obtain ⟨hnodup, hnew, hholds⟩ := ih (htaken rfl) hrest
      have hnotin : c.toNat ∉ s := (hadmits.mp rfl).1
      refine ⟨List.nodup_cons.mpr ⟨fun hmem ↦ hnew c hmem (Set.mem_insert _ _), hnodup⟩, ?_, ?_⟩
      · intro c' hc'
        rcases List.mem_cons.mp hc' with rfl | hc'
        · exact hnotin
        · exact fun hs ↦ hnew c' hc' (Set.mem_insert_of_mem _ hs)
      · have hunion : s ∪ numbers (c :: accepted cs (ReplayWindow.acceptAll cs w').1)
            = insert c.toNat s ∪ numbers (accepted cs (ReplayWindow.acceptAll cs w').1) := by
          ext n
          simp only [numbers, Set.mem_union, Set.mem_insert_iff, Set.mem_ofPred_eq,
            List.exists_mem_cons_iff]
          tauto
        rw [hunion]
        exact hholds

/-- What is remembered is bounded by the highest counter, which is one of them. -/
theorem Holds.isGreatest {w : ReplayWindow} {cs : List UInt64} (h : Holds w (numbers cs)) :
    (cs ≠ [] → w.highest ∈ cs) ∧ ∀ c ∈ cs, c ≤ w.highest := by
  generalize hs : numbers cs = s at h
  cases h with
  | fresh =>
    have hnil : cs = [] := List.eq_nil_iff_forall_not_mem.mpr fun c hc ↦ by
      have := mem_numbers.mpr hc
      rw [hs] at this
      exact this
    subst hnil
    simp
  | tracking _ h =>
    subst hs
    refine ⟨fun _ ↦ mem_numbers.mp h.highest_mem, fun c hc ↦ ?_⟩
    exact UInt64.le_iff_toNat_le.mpr (h.le_highest _ (mem_numbers.mpr hc))

/-- A new window that was given these counters, in order. -/
def after (past : List UInt64) : ReplayWindow := (acceptAll past .new).2

/-- Those of them it took. -/
def taken (past : List UInt64) : List UInt64 := accepted past (acceptAll past .new).1

end ReplayWindow

open ReplayWindow in
/-- **The replay window is exact.** After any counters, in any order, the next one is decided
without overflow, and taken if and only if it was not taken before and is less than a window behind
the highest one taken, if there is any. No counter is taken twice, and `highest` is the greatest
of those taken. -/
theorem replayWindow_exact (past : List UInt64) (c : UInt64)
    (hmax : ∀ c' ∈ past ++ [c], c'.toNat < 2 ^ 64 - 1) :
    (∃ b w', accept c (after past) = (.ok b, w') ∧ (b = true ↔ c ∉ taken past ∧
      (taken past = [] ∨ c.toNat + replayWindowSize.toNat > (after past).highest.toNat))) ∧
    (taken past ≠ [] → (after past).highest ∈ taken past) ∧
    (∀ c' ∈ taken past, c' ≤ (after past).highest) ∧ (taken past).Nodup := by
  obtain ⟨hnodup, -, hholds⟩ := Holds.fresh.acceptAll past
    fun c' hc' ↦ hmax c' (List.mem_append_left _ hc')
  rw [Set.empty_union] at hholds
  change Holds (after past) (numbers (taken past)) at hholds
  obtain ⟨hmem, hle⟩ := hholds.isGreatest
  obtain ⟨b, w', haccept, hadmits, -⟩ :=
    accept_spec hholds (hmax c (List.mem_append_right _ (List.mem_singleton_self _)))
  refine ⟨⟨b, w', haccept, hadmits.trans ?_⟩, hmem, hle, hnodup⟩
  rw [Admits, mem_numbers]
  refine and_congr_right fun _ ↦ ?_
  show _ ↔ taken past = [] ∨ c.toNat + 1024 > (after past).highest.toNat
  constructor
  · intro hwithin
    by_cases hnil : taken past = []
    · exact Or.inl hnil
    · exact Or.inr (hwithin _ (mem_numbers.mpr (hmem hnil)))
  · rintro hcase _ ⟨c', hc', rfl⟩
    have hbelow := UInt64.le_iff_toNat_le.mp (hle c' hc')
    rcases hcase with hnil | hwithin
    · rw [hnil] at hc'
      cases hc'
    · omega

open ReplayWindow in
/-- A jump of a whole window: 0 is then too old, 1 is not, and 1024 is not taken a second time. -/
theorem replayWindow_exact_after_jump :
    (accept 0 (after [0, 1024])).1 = .ok false ∧ (accept 1 (after [0, 1024])).1 = .ok true ∧
      ∃ b w', accept 1024 (after [0, 1024]) = (.ok b, w') ∧
        (b = true ↔ 1024 ∉ taken [0, 1024] ∧ (taken [0, 1024] = [] ∨
          (1024 : UInt64).toNat + replayWindowSize.toNat > (after [0, 1024]).highest.toNat)) :=
  ⟨by decide +kernel, by decide +kernel, (replayWindow_exact [0, 1024] 1024 fun c' hc' ↦ by
    have hall : ∀ c ∈ [0, 1024] ++ [1024], c ≤ (1024 : UInt64) := by simp
    have hle : c'.toNat ≤ 1024 := UInt64.le_iff_toNat_le.mp (hall c' hc')
    omega).1⟩
