import Nrxp.Lib.Bytes
import Mathlib.Data.List.DropRight

/-!
# Text

Strings, and addresses in text, as a standard library has them. A string is cut and mapped by its
characters; an address is read by its bytes, and only whether one is there matters here.

The lemmas say when a string is left as it is: `trim_eq_self`, `trimEndMatches_eq_self` and
`toAsciiLowercase_idem`.
-/

namespace Text

/-- White space in the sense of Unicode. -/
def whitespace : List Char :=
  ['\u0009', '\u000a', '\u000b', '\u000c', '\u000d', '\u0020', '\u0085', '\u00a0', '\u1680',
    '\u2000', '\u2001', '\u2002', '\u2003', '\u2004', '\u2005', '\u2006', '\u2007', '\u2008',
    '\u2009', '\u200a', '\u2028', '\u2029', '\u202f', '\u205f', '\u3000']

def isWhitespace (c : Char) : Bool := whitespace.contains c

/-- A string without the white space at its ends. -/
def trim (s : String) : String :=
  .ofList ((s.toList.dropWhile isWhitespace).rdropWhile isWhitespace)

/-- A string without the occurrences of a character at its end. -/
def trimEndMatches (s : String) (c : Char) : String := .ofList (s.toList.rdropWhile (· == c))

/-- A string with its ASCII letters in lower case. -/
def toAsciiLowercase (s : String) : String := .ofList (s.toList.map Char.toLower)

/-- The parts of a string between the occurrences of a character. -/
def split (s : String) (c : Char) : List String := (s.toList.splitOn c).map .ofList

/-! ### What is left as it is -/

theorem trim_eq_self {s : String} (h : ∀ c ∈ s.toList, isWhitespace c = false) : trim s = s := by
  have hfront : s.toList.dropWhile isWhitespace = s.toList :=
    List.dropWhile_eq_self_iff.mpr fun hpos ↦ by
      rw [h _ (List.getElem_mem hpos)]
      exact Bool.false_ne_true
  have hback : s.toList.rdropWhile isWhitespace = s.toList :=
    List.rdropWhile_eq_self_iff.mpr fun hne ↦ by
      rw [h _ (List.getLast_mem hne)]
      exact Bool.false_ne_true
  rw [trim, hfront, hback, String.ofList_toList]

theorem getLast?_trimEndMatches (s : String) (c : Char) :
    (trimEndMatches s c).toList.getLast? ≠ some c := by
  rw [trimEndMatches, String.toList_ofList]
  intro hlast
  have hne : s.toList.rdropWhile (· == c) ≠ [] := by
    rintro hnil
    rw [hnil] at hlast
    cases hlast
  have hget := List.rdropWhile_last_not (· == c) s.toList hne
  rw [List.getLast_of_getLast?_eq_some hlast, beq_self_eq_true] at hget
  exact hget rfl

theorem trimEndMatches_eq_self {s : String} {c : Char} (h : s.toList.getLast? ≠ some c) :
    trimEndMatches s c = s := by
  have hback : s.toList.rdropWhile (· == c) = s.toList :=
    List.rdropWhile_eq_self_iff.mpr fun hne hlast ↦
      h (by rw [List.getLast?_eq_some_getLast hne, eq_of_beq hlast])
  rw [trimEndMatches, hback, String.ofList_toList]

theorem toLower_toLower (c : Char) : c.toLower.toLower = c.toLower := by
  unfold Char.toLower
  grind

/-- A character below the letters is the lower case of itself only. -/
theorem eq_of_toLower_eq {c d : Char} (hd : d < 'A') (h : c.toLower = d) : c = d := by
  unfold Char.toLower at h
  split at h
  · rename_i hletter
    have hlow : 65 ≤ c.val.toNat := UInt32.le_iff_toNat_le.mp hletter.1
    have hhigh : c.val.toNat ≤ 90 := UInt32.le_iff_toNat_le.mp hletter.2
    have hval : (c.val + 32).toNat = d.val.toNat := congrArg (fun d : Char ↦ d.val.toNat) h
    have hlt : d.val.toNat < 65 := UInt32.lt_iff_toNat_lt.mp hd
    rw [UInt32.toNat_add, show UInt32.toNat 32 = 32 from rfl] at hval
    omega
  · exact h

theorem toAsciiLowercase_idem (s : String) :
    toAsciiLowercase (toAsciiLowercase s) = toAsciiLowercase s := by
  rw [toAsciiLowercase, toAsciiLowercase, String.toList_ofList, List.map_map]
  congr 1
  exact List.map_congr_left fun c _ ↦ toLower_toLower c

/-- The bytes of a string are those of its characters. -/
theorem utf8_eq (s : String) : utf8 s = s.toList.flatMap String.utf8EncodeChar := by
  have hofList : ∀ l : List Char, utf8 (.ofList l) = l.flatMap String.utf8EncodeChar := fun l ↦ by
    show (l.flatMap String.utf8EncodeChar).toByteArray.data.toList = _
    rw [List.data_toByteArray]
  rw [← hofList, String.ofList_toList]

/-! ### Addresses -/

/-- The value of a digit, or of a letter that is one in the radix. -/
def toDigit (radix : ℕ) (b : UInt8) : Option ℕ :=
  let value :=
    if 0x30 ≤ b ∧ b ≤ 0x39 then b.toNat - 0x30
    else if 0x61 ≤ b ∧ b ≤ 0x7a then b.toNat - 0x61 + 10
    else if 0x41 ≤ b ∧ b ≤ 0x5a then b.toNat - 0x41 + 10
    else radix
  if value < radix then some value else none

/-- What is left behind a number of at most `maxDigits` digits that is less than `limit`. -/
def readNumber (radix maxDigits limit : ℕ) (allowZeroPrefix : Bool) (s : Bytes) : Option Bytes :=
  let digits := s.takeWhile fun b ↦ (toDigit radix b).isSome
  let value := (digits.filterMap (toDigit radix)).foldl (fun n d ↦ n * radix + d) 0
  if digits.length = 0 ∨ maxDigits < digits.length then none
  else if !allowZeroPrefix ∧ digits.head? = some 0x30 ∧ 1 < digits.length then none
  else if limit ≤ value then none
  else some (s.drop digits.length)

/-- What is left behind a given byte. -/
def readGivenChar (target : UInt8) : Bytes → Option Bytes
  | b :: s => if b = target then some s else none
  | [] => none

/-- What is left behind the `index`-th part of a list with a separator. -/
def readSeparator (sep : UInt8) (index : ℕ) (inner : Bytes → Option Bytes) (s : Bytes) :
    Option Bytes :=
  if index > 0 then (readGivenChar sep s).bind inner else inner s

/-- What is left behind four decimal bytes with dots between them. -/
def readIpv4Addr (s : Bytes) : Option Bytes :=
  (List.range 4).foldlM (fun s i ↦ readSeparator 0x2e i (readNumber 10 3 256 false) s) s

/-- Read up to `n` groups of an IPv6 address, after `i` of them: how many there are then, whether
the last two are an IPv4 address, and what is left. -/
def readGroups : ℕ → ℕ → Bytes → ℕ × Bool × Bytes
  | 0, i, s => (i, false, s)
  | n + 1, i, s =>
    match if n = 0 then none else readSeparator 0x3a i readIpv4Addr s with
    | some s => (i + 2, true, s)
    | none =>
      match readSeparator 0x3a i (readNumber 16 4 65536 true) s with
      | some s => readGroups n (i + 1) s
      | none => (i, false, s)

/-- What is left behind eight groups with colons between them, or fewer around a double colon. -/
def readIpv6Addr (s : Bytes) : Option Bytes :=
  let (headSize, headIpv4, s) := readGroups 8 0 s
  if headSize = 8 then some s
  else if headIpv4 then none
  else do
    let s ← readGivenChar 0x3a s
    let s ← readGivenChar 0x3a s
    return (readGroups (7 - headSize) 0 s).2.2

/-- Whether a string is an address of either kind, and nothing else. -/
def isIpAddr (s : String) : Bool :=
  (readIpv4Addr (utf8 s) <|> readIpv6Addr (utf8 s)) == some []

example : ["10.0.0.1", "::1", "fe80::1:2", "::ffff:1.2.3.4", "1:2:3:4:5:6:7:8"].all isIpAddr := by
  decide +kernel

example : ["10.0.0", "10.0.0.01", "1.2.3.4.", "256.0.0.1", ":::", "1::2::3", "a.com"].all
    (!isIpAddr ·) := by
  decide +kernel

end Text
