import Nrxp.Lib.Text

/-!
# Hexadecimal text

Bytes written with two digits each. A coding is a parameter with two laws, `Hex.IsLawful`: what was
written is read back, and only digits are written, so that text to be read may be trimmed first.
`Hex.plain` is one that has them.
-/

/-- A hexadecimal coding. -/
structure Hex where
  encode : Bytes → String
  /-- The bytes of a text, or what is wrong with it. -/
  decode : String → Except String Bytes

/-- What is asked of a coding. -/
structure Hex.IsLawful (hex : Hex) : Prop where
  decode_encode (bytes : Bytes) : hex.decode (hex.encode bytes) = .ok bytes
  /-- Digits, and these in lower case, are all that is written. -/
  digits (bytes : Bytes) : ∀ c ∈ (hex.encode bytes).toList, ∃ n < 16, c = Nat.digitChar n

namespace Hex

/-- A digit is not white space. -/
theorem isWhitespace_digitChar : ∀ n < 16, Text.isWhitespace (Nat.digitChar n) = false := by
  decide

/-- Trimming leaves what was written as it is. -/
theorem IsLawful.trim_encode {hex : Hex} (h : hex.IsLawful) (bytes : Bytes) :
    Text.trim (hex.encode bytes) = hex.encode bytes := by
  refine Text.trim_eq_self fun c hc ↦ ?_
  obtain ⟨n, hn, rfl⟩ := h.digits bytes c hc
  exact isWhitespace_digitChar n hn

theorem IsLawful.decode_trim_encode {hex : Hex} (h : hex.IsLawful) (bytes : Bytes) :
    hex.decode (Text.trim (hex.encode bytes)) = .ok bytes := by
  rw [h.trim_encode, h.decode_encode]

/-! ### A coding -/

/-- The value of a digit of either case. -/
def valueOf (c : Char) : Option ℕ :=
  if '0' ≤ c ∧ c ≤ '9' then some (c.toNat - '0'.toNat)
  else if 'a' ≤ c ∧ c ≤ 'f' then some (c.toNat - 'a'.toNat + 10)
  else if 'A' ≤ c ∧ c ≤ 'F' then some (c.toNat - 'A'.toNat + 10)
  else none

/-- The value of the digit at a position. -/
def valueAt (i : ℕ) (c : Char) : Except String ℕ :=
  match valueOf c with
  | some n => .ok n
  | none => .error s!"Invalid character {c.quote} at position {i}"

/-- Read digits in pairs, from a position on. -/
def readPairs : ℕ → List Char → Except String Bytes
  | i, hi :: lo :: rest => do
    let high ← valueAt i hi
    let low ← valueAt (i + 1) lo
    return UInt8.ofNat (16 * high + low) :: (← readPairs (i + 2) rest)
  | _, _ => .ok []

/-- Two digits a byte, in lower case. -/
def pairOf (b : UInt8) : List Char := [Nat.digitChar (b.toNat / 16), Nat.digitChar (b.toNat % 16)]

/-- The coding that writes lower case and reads both cases. -/
def plain : Hex where
  encode bytes := .ofList (bytes.flatMap pairOf)
  decode text :=
    if text.toList.length % 2 = 1 then .error "Odd number of digits" else readPairs 0 text.toList

theorem valueOf_digitChar : ∀ n < 16, valueOf (Nat.digitChar n) = some n := by
  decide

theorem valueAt_digitChar (i : ℕ) {n : ℕ} (h : n < 16) : valueAt i (Nat.digitChar n) = .ok n := by
  rw [valueAt, valueOf_digitChar n h]

/-- Pairs are read back. -/
theorem readPairs_flatMap (i : ℕ) (bytes : Bytes) :
    readPairs i (bytes.flatMap pairOf) = .ok bytes := by
  induction bytes generalizing i with
  | nil => rfl
  | cons b bytes ih =>
    have hlt : b.toNat < 16 * 16 := UInt8.toNat_lt b
    have hhigh := valueAt_digitChar i (Nat.div_lt_of_lt_mul hlt)
    have hlow := valueAt_digitChar (i + 1) (Nat.mod_lt b.toNat (by decide : 0 < 16))
    show (do
      let high ← valueAt i (Nat.digitChar (b.toNat / 16))
      let low ← valueAt (i + 1) (Nat.digitChar (b.toNat % 16))
      return UInt8.ofNat (16 * high + low) :: (← readPairs (i + 2) (bytes.flatMap pairOf))) = _
    rw [hhigh, hlow, ih]
    show Except.ok (UInt8.ofNat (16 * (b.toNat / 16) + b.toNat % 16) :: bytes) = _
    rw [Nat.div_add_mod, UInt8.ofNat_toNat]

theorem length_flatMap_pairOf (bytes : Bytes) :
    (bytes.flatMap pairOf).length = 2 * bytes.length := by
  induction bytes with
  | nil => rfl
  | cons b bytes ih =>
    rw [List.flatMap_cons, List.length_append, ih, List.length_cons]
    show 2 + 2 * bytes.length = _
    omega

theorem plain_isLawful : plain.IsLawful where
  decode_encode bytes := by
    have heven : ¬ (bytes.flatMap pairOf).length % 2 = 1 := by
      rw [length_flatMap_pairOf, Nat.mul_mod_right]
      exact Nat.zero_ne_one
    show (if (String.ofList (bytes.flatMap pairOf)).toList.length % 2 = 1 then _
      else readPairs 0 (String.ofList (bytes.flatMap pairOf)).toList) = _
    rw [String.toList_ofList, if_neg heven, readPairs_flatMap]
  digits bytes c hc := by
    rw [plain, String.toList_ofList] at hc
    obtain ⟨b, -, hc⟩ := List.mem_flatMap.mp hc
    have hlt : b.toNat < 16 * 16 := UInt8.toNat_lt b
    rcases List.mem_cons.mp hc with rfl | hc
    · exact ⟨_, Nat.div_lt_of_lt_mul hlt, rfl⟩
    · exact ⟨_, Nat.mod_lt _ (by decide), List.mem_singleton.mp hc⟩

end Hex
