import Nrxp.Lib.Text
import Mathlib.Algebra.BigOperators.Group.List.Basic
import Mathlib.Algebra.Order.Ring.Nat
import Mathlib.Data.List.Destutter
import Mathlib.Data.List.Sort
import Mathlib.Data.String.Basic

/-!
# The decoy

What a node shows to those who do not belong to it. A catalog holds the domains a node may pass for,
and only a name it has validated is one. A cover flight is the list of the record lengths with which
a TLS server would go on after its hello, computed from its certificate chain.
-/

/-- Why a name was rejected. -/
inductive DecoyError where
  | empty
  /-- More than 253 bytes. -/
  | tooLong
  | ipLiteral
  /-- Characters that no host name has. -/
  | badSyntax
  /-- The node does not own the domain; it owns `available` others. -/
  | notOwned (available : ℕ)
  | unknownMode
  deriving DecidableEq, Repr

namespace Decoy

/-- Letters, digits, dots and hyphens. -/
def isHostByte (b : UInt8) : Bool :=
  (0x30 ≤ b && b ≤ 0x39) || (0x41 ≤ b && b ≤ 0x5a) || (0x61 ≤ b && b ≤ 0x7a)
    || b == 0x2e || b == 0x2d

/-- A name as it is compared: trimmed, without trailing dots, in lower case. -/
def normalise (s : String) : String :=
  Text.toAsciiLowercase (Text.trimEndMatches (Text.trim s) '.')

/-- What a name must be, whoever owns it. -/
structure IsHostName (host : String) : Prop where
  ne_empty : host ≠ ""
  length_le : (utf8 host).length ≤ 253
  not_ip : Text.isIpAddr host = false
  bytes : (utf8 host).all isHostByte = true

end Decoy

/-- A validated name. -/
structure DecoySni where
  asStr : String
  isHostName : Decoy.IsHostName asStr
  deriving DecidableEq

/-- The domains a node owns. -/
structure DecoyCatalog where
  domains : List String
  deriving DecidableEq, Repr

namespace DecoyCatalog

open Decoy

/-- Read a list of names with commas between them. -/
def fromList (list : String) : DecoyCatalog :=
  let domains := ((Text.split list ',').map normalise).filter fun d ↦ !d.isEmpty
  ⟨(domains.mergeSort fun a b ↦ decide (a ≤ b)).destutter (· ≠ ·)⟩

/-- Read the list of the environment; without one the catalog is empty. -/
def fromEnv (value : Option String) : DecoyCatalog := (value.map fromList).getD ⟨[]⟩

def isEmpty (c : DecoyCatalog) : Bool := c.domains.isEmpty

/-- Check a name that is normalised. -/
def validateHost (c : DecoyCatalog) (host : String) : Except DecoyError DecoySni :=
  if hne : host = "" then .error .empty
  else if hlen : (utf8 host).length > 253 then .error .tooLong
  else if hip : Text.isIpAddr host = true then .error .ipLiteral
  else if hbytes : ¬(utf8 host).all isHostByte = true then .error .badSyntax
  else if host ∉ c.domains then .error (.notOwned c.domains.length)
  else .ok ⟨host, hne, Nat.le_of_not_gt hlen, Bool.eq_false_of_not_eq_true hip, not_not.mp hbytes⟩

/-- Check a name. -/
def validate (c : DecoyCatalog) (sni : String) : Except DecoyError DecoySni :=
  c.validateHost (normalise sni)

/-! ### What a catalog accepts -/

theorem sorted_mergeSort {names : List String} :
    (names.mergeSort fun a b ↦ decide (a ≤ b)).Pairwise (· ≤ ·) := by
  refine (List.pairwise_mergeSort (fun a b c hab hbc ↦ ?_) (fun a b ↦ ?_) names).imp
    of_decide_eq_true
  · exact decide_eq_true ((of_decide_eq_true hab).trans (of_decide_eq_true hbc))
  · rw [Bool.or_eq_true, decide_eq_true_eq, decide_eq_true_eq]
    exact le_total a b

theorem mem_domains_fromList {list d : String} :
    d ∈ (fromList list).domains ↔ d ≠ "" ∧ ∃ part ∈ Text.split list ',', normalise part = d := by
  rw [fromList, sorted_mergeSort.destutter_eq_dedup, List.mem_dedup, List.mem_mergeSort,
    List.mem_filter, List.mem_map, and_comm]
  simp

/-- The domains are in order, and each is there once. -/
theorem sortedLT_domains_fromList (list : String) :
    (fromList list).domains.Pairwise (· < ·) := by
  rw [fromList, sorted_mergeSort.destutter_eq_dedup]
  exact ((sorted_mergeSort.sublist (List.dedup_sublist _)).and (List.nodup_dedup _)).imp
    fun h ↦ lt_of_le_of_ne h.1 h.2

/-- **A catalog is the set of its names**: neither their order nor how often and how they are
written matters. -/
theorem fromList_eq_iff (list list' : String) :
    fromList list = fromList list' ↔
      ∀ d, d ≠ "" → ((∃ part ∈ Text.split list ',', normalise part = d) ↔
        ∃ part ∈ Text.split list' ',', normalise part = d) := by
  constructor
  · intro h d hd
    have hmem : d ∈ (fromList list).domains ↔ d ∈ (fromList list').domains := by rw [h]
    rwa [mem_domains_fromList, mem_domains_fromList, and_iff_right hd, and_iff_right hd] at hmem
  · intro h
    have hdomains : (fromList list).domains = (fromList list').domains := by
      refine (sortedLT_domains_fromList list).eq_of_mem_iff (sortedLT_domains_fromList list')
        fun d ↦ ?_
      rw [mem_domains_fromList, mem_domains_fromList]
      exact and_congr_right (h d)
    exact congrArg DecoyCatalog.mk hdomains

/-- A node without a list, or with one without names, has nothing to pass for. -/
theorem isEmpty_fromEnv_iff (value : Option String) :
    (fromEnv value).isEmpty = true ↔
      ∀ list, value = some list → ∀ part ∈ Text.split list ',', normalise part = "" := by
  rw [isEmpty, List.isEmpty_iff]
  cases value with
  | none => exact ⟨fun _ _ h ↦ (nomatch h), fun _ ↦ rfl⟩
  | some list =>
    show (fromList list).domains = [] ↔ _
    rw [List.eq_nil_iff_forall_not_mem]
    constructor
    · rintro h _ ⟨⟩ part hpart
      by_contra hne
      exact h _ (mem_domains_fromList.mpr ⟨hne, part, hpart, rfl⟩)
    · intro h d hd
      obtain ⟨hne, part, hpart, rfl⟩ := mem_domains_fromList.mp hd
      exact hne (h list rfl part hpart)

theorem validateHost_eq_ok_iff {c : DecoyCatalog} {host : String} {s : DecoySni} :
    c.validateHost host = .ok s ↔ host = s.asStr ∧ s.asStr ∈ c.domains := by
  rw [validateHost]
  constructor
  · intro h
    split_ifs at h with hne hlen hip hbytes howned
    have heq : host = s.asStr := congrArg DecoySni.asStr (Except.ok.inj h)
    exact ⟨heq, heq ▸ howned⟩
  · rintro ⟨rfl, hmem⟩
    have hhost := s.isHostName
    rw [dif_neg hhost.ne_empty, dif_neg (Nat.not_lt.mpr hhost.length_le),
      dif_neg (by rw [hhost.not_ip]; exact Bool.false_ne_true),
      dif_neg (not_not.mpr hhost.bytes), if_neg (not_not.mpr hmem)]

/-- A name is accepted if, normalised, it is a host name that the catalog lists. -/
theorem validate_eq_ok_iff {c : DecoyCatalog} {sni : String} {s : DecoySni} :
    c.validate sni = .ok s ↔ normalise sni = s.asStr ∧ s.asStr ∈ c.domains :=
  validateHost_eq_ok_iff

/-- White space takes a byte that no host name has. -/
theorem all_isHostByte_eq_false {c : Char} (h : Text.isWhitespace c = true) :
    (String.utf8EncodeChar c).all isHostByte = false := by
  have hall : (Text.whitespace.all fun c ↦ !(String.utf8EncodeChar c).all isHostByte) = true := by
    decide
  have hspace := List.all_eq_true.mp hall c (List.contains_iff_mem.mp h)
  rwa [Bool.not_eq_true'] at hspace

/-- A normalised name that is a host name is normalised already. -/
theorem normalise_eq_self {part : String} (h : IsHostName (normalise part)) :
    normalise (normalise part) = normalise part := by
  have htrim : Text.trim (normalise part) = normalise part := by
    refine Text.trim_eq_self fun c hc ↦ ?_
    have hbytes : (String.utf8EncodeChar c).all isHostByte = true := by
      refine List.all_eq_true.mpr fun b hb ↦ List.all_eq_true.mp h.bytes b ?_
      rw [Text.utf8_eq]
      exact List.mem_flatMap.mpr ⟨c, hc, hb⟩
    by_contra hspace
    rw [all_isHostByte_eq_false (Bool.eq_true_of_not_eq_false hspace)] at hbytes
    cases hbytes
  have hdots : Text.trimEndMatches (normalise part) '.' = normalise part := by
    refine Text.trimEndMatches_eq_self fun hlast ↦ ?_
    rw [normalise, Text.toAsciiLowercase, String.toList_ofList, List.getLast?_map,
      Option.map_eq_some_iff] at hlast
    obtain ⟨c, hc, hlower⟩ := hlast
    obtain rfl := Text.eq_of_toLower_eq (by decide) hlower
    exact Text.getLast?_trimEndMatches _ _ hc
  conv_lhs => rw [normalise, htrim, hdots]
  rw [normalise, Text.toAsciiLowercase_idem]

/-- The catalog offers exactly what it accepts. -/
def Exact (c : DecoyCatalog) : Prop :=
  {host | ∃ sni s, c.validate sni = .ok s ∧ s.asStr = host} = {host | host ∈ c.domains} ∧
    ∀ d ∈ c.domains, ∃ s, c.validate d = .ok s ∧ s.asStr = d

/-- **A catalog offers exactly what it accepts** if and only if every name of its list is a host
name. -/
theorem exact_fromList_iff (list : String) :
    (fromList list).Exact ↔
      ∀ part ∈ Text.split list ',', normalise part = "" ∨ IsHostName (normalise part) := by
  constructor
  · rintro ⟨haccepts, -⟩ part hpart
    by_cases hempty : normalise part = ""
    · exact Or.inl hempty
    · have hlisted : normalise part ∈ (fromList list).domains :=
        mem_domains_fromList.mpr ⟨hempty, part, hpart, rfl⟩
      obtain ⟨sni, s, -, hs⟩ := (Set.ext_iff.mp haccepts _).mpr hlisted
      exact Or.inr (hs ▸ s.isHostName)
  · intro hnames
    have hoffers : ∀ d ∈ (fromList list).domains,
        ∃ s, (fromList list).validate d = .ok s ∧ s.asStr = d := by
      intro d hd
      obtain ⟨hne, part, hpart, rfl⟩ := mem_domains_fromList.mp hd
      have hhost := (hnames part hpart).resolve_left hne
      exact ⟨⟨normalise part, hhost⟩, validate_eq_ok_iff.mpr ⟨normalise_eq_self hhost, hd⟩, rfl⟩
    refine ⟨Set.ext fun host ↦ ⟨?_, fun hmem ↦ ?_⟩, hoffers⟩
    · rintro ⟨sni, s, hs, rfl⟩
      exact (validate_eq_ok_iff.mp hs).2
    · obtain ⟨s, hs, heq⟩ := hoffers host hmem
      exact ⟨host, s, hs, heq⟩

/-- A name with an underscore is offered, and rejected. -/
theorem not_exact_underscore : ¬(fromList "a_b.com").Exact := by
  rintro ⟨haccepts, -⟩
  have hnormal : normalise "a_b.com" = "a_b.com" := by decide +kernel
  have hlisted : "a_b.com" ∈ (fromList "a_b.com").domains :=
    mem_domains_fromList.mpr ⟨by decide, "a_b.com", by decide +kernel, hnormal⟩
  obtain ⟨sni, s, -, hs⟩ := (Set.ext_iff.mp haccepts _).mpr hlisted
  exact absurd s.isHostName.bytes (by rw [hs]; decide +kernel)

end DecoyCatalog

/-- The lengths of the records that follow a server's hello. -/
structure CoverFlight where
  /-- The length fields, in order. -/
  records : List ℕ
  deriving DecidableEq, Repr

namespace CoverFlight

def asRecords (flight : CoverFlight) : List ℕ := flight.records

/-- What encryption adds to a record: a tag, and a byte for the inner content type. -/
def sealedLen : ℕ := 17

/-- The flight of a server with certificates, a signature and a hash of the given lengths:
`EncryptedExtensions`, `Certificate`, `CertificateVerify` and `Finished`. -/
def fromChain (certDerLens : List ℕ) (signatureLen hashLen : ℕ) : CoverFlight :=
  let encryptedExtensions := 4 + 2 + 7 + sealedLen
  let certBody := (certDerLens.map fun l ↦ 3 + l + 2).sum
  let certificate := 4 + 1 + 3 + certBody + sealedLen
  let certificateVerify := 4 + 2 + 2 + signatureLen + sealedLen
  let finished := 4 + hashLen + sealedLen
  ⟨[encryptedExtensions, certificate, certificateVerify, finished]⟩

/-- The flight of a node that has not measured its chain. -/
def nodeDefault : CoverFlight := fromChain [1250, 1100] 72 32

end CoverFlight
