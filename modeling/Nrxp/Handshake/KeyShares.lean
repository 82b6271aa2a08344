import Nrxp.Crypto.Session

/-!
# Genuine key shares

Which key `extractPeerPublic` is to return, said by walking over the entries: `Reaches` follows a
client's list to its first X25519 entry, `Offers` adds where the list, or a server's single entry,
lies in the extension, and `Genuine` that it is the first key share and not zero. A server returns
exactly such keys. A client never looks at the group, so `MislabelledShare` passes too.
-/

namespace SessionKeys

/-! ### The specification -/

/-- An entry for an exchange of this group. -/
def share (group : UInt16) (key : ByteArr 32) : Tlv.Entry := ⟨group, key.val⟩

/-- Walked entry by entry, the list comes to an X25519 entry with a key of 32 bytes, and the first
such entry carries this one. -/
inductive Reaches (key : ByteArr 32) : Bytes → Prop
  | here (rest : Bytes) : Reaches key ((share groupX25519 key).bytes ++ rest)
  | there {e : Tlv.Entry} {rest : Bytes} (hfits : e.Fits)
      (hother : ¬(e.tag = groupX25519 ∧ e.data.length = 32)) (h : Reaches key rest) :
      Reaches key (e.bytes ++ rest)

/-- A key share offers a key: in a client's, behind the length of the list and inside it; in a
server's, in the single entry. -/
inductive Offers (key : ByteArr 32) : Bytes → Bool → Prop
  | client {list : Bytes} (hlen : list.length < 2 ^ 16) (h : Reaches key list) (rest : Bytes) :
      Offers key (beBytes 2 list.length ++ (list ++ rest)) true
  | server (rest : Bytes) : Offers key ((share groupX25519 key).bytes ++ rest) false

/-- The first key share offers the key, which is not zero. -/
structure Genuine (extensions : ExtensionStack) (isServer : Bool) (key : ByteArr 32) : Prop where
  offers : ∃ dhData, extensions.findByType extKeyShare = some dhData ∧ Offers key dhData isServer
  ne_zero : key ≠ .zero 32

/-- The first key share begins with a key of 32 bytes for an exchange of another group. -/
def MislabelledShare (extensions : ExtensionStack) : Prop :=
  ∃ (group : UInt16) (key : ByteArr 32) (rest : Bytes),
    extensions.findByType extKeyShare = some ((share group key).bytes ++ rest) ∧
      group ≠ groupX25519 ∧ key ≠ .zero 32

theorem offers_server_iff (key : ByteArr 32) (dhData : Bytes) :
    Offers key dhData false ↔ ∃ rest, dhData = (share groupX25519 key).bytes ++ rest := by
  constructor
  · rintro ⟨rest⟩
    exact ⟨_, rfl⟩
  · rintro ⟨rest, rfl⟩
    exact .server rest

/-! ### The walk over a list -/

theorem share_fits (group : UInt16) (key : ByteArr 32) : (share group key).Fits := by
  rw [Tlv.Entry.Fits, share, key.property]
  decide

/-- An X25519 entry of the right length carries a key. -/
theorem exists_share {e : Tlv.Entry} (h : e.tag = groupX25519 ∧ e.data.length = 32) :
    ∃ key, e = share groupX25519 key := by
  obtain ⟨tag, data⟩ := e
  obtain ⟨rfl, hlen⟩ := h
  exact ⟨⟨data, hlen⟩, rfl⟩

theorem keyOfShare_share (key : ByteArr 32) : keyOfShare (share groupX25519 key) = some key := by
  show (if groupX25519 = groupX25519 then ByteArr.ofBytes? 32 key.val else none) = some key
  rw [if_pos rfl, ByteArr.ofBytes?_val]

/-- The walk finds the first X25519 key among the complete entries. -/
theorem reaches_iff (key : ByteArr 32) (list : Bytes) :
    Reaches key list ↔ (Tlv.decode list).1.findSome? keyOfShare = some key := by
  constructor
  · intro h
    induction h with
    | here rest =>
      rw [Tlv.decode_entry_append (share_fits _ _), List.findSome?_cons, keyOfShare_share]
    | there hfits hother h ih =>
      rw [Tlv.decode_entry_append hfits, List.findSome?_cons, keyOfShare_eq_none hother]
      exact ih
  · intro h
    induction list using Tlv.entryInduction with
    | short b hshort =>
      rw [Tlv.decode_of_short hshort] at h
      cases h
    | cut t1 t2 l1 l2 rest hcut =>
      rw [Tlv.decode_of_cut hcut] at h
      cases h
    | entry e rest hfits ih =>
      rw [Tlv.decode_entry_append hfits, List.findSome?_cons] at h
      by_cases hx : e.tag = groupX25519 ∧ e.data.length = 32
      · obtain ⟨found, rfl⟩ := exists_share hx
        rw [keyOfShare_share] at h
        cases h
        exact .here rest
      · rw [keyOfShare_eq_none hx] at h
        exact .there hfits hx (ih h)

/-! ### The key in a key share -/

/-- A server finds exactly the keys that are offered. -/
theorem keyInShare_true_eq_ok_iff (dhData : Bytes) (key : ByteArr 32) :
    keyInShare dhData true = .ok key ↔ Offers key dhData true := by
  constructor
  · intro h
    match dhData with
    | [] | [_] => simp [keyInShare] at h
    | l1 :: l2 :: rest =>
      rw [keyInShare_cons, Outcome.bind_eq_ok_iff] at h
      obtain ⟨list, hlist, hkey⟩ := h
      rw [Outcome.ofOption_eq_ok_iff] at hlist hkey
      rw [Bytes.range?, Option.ite_none_right_eq_some] at hlist
      obtain ⟨hle, hlist⟩ := hlist
      obtain ⟨list', rest, rfl, hlen⟩ := exists_split (n := (be16 l1 l2).toNat) (b := rest)
        (by rw [List.length_cons, List.length_cons] at hle; omega)
      obtain rfl : list' = list := by
        rw [← Option.some.inj hlist, ← hlen]
        exact (List.take_left ..).symm
      have hbytes : l1 :: l2 :: (list' ++ rest) = beBytes 2 list'.length ++ (list' ++ rest) := by
        rw [hlen, beBytes_be16]
        rfl
      rw [hbytes]
      exact .client (hlen ▸ (be16 l1 l2).toNat_lt) ((reaches_iff key list').mpr hkey) rest
  · rintro (⟨hlen, hreaches, rest⟩ | _)
    rename_i list
    obtain ⟨l1, l2, hbytes, hn⟩ := exists_beBytes_two hlen
    rw [hbytes, List.cons_append, List.cons_append, List.nil_append, keyInShare_cons, hn,
      Bytes.range?_two l1 l2 rfl rest, Outcome.ofOption_some, Outcome.ok_bind,
      (reaches_iff key list).mp hreaches, Outcome.ofOption_some]

/-- The bytes of an entry with a key: its group, the length 32, and the key. -/
theorem exists_share_iff (dhData : Bytes) (key : ByteArr 32) :
    (∃ group rest, dhData = (share group key).bytes ++ rest) ↔
      ∃ g1 g2 rest, dhData = g1 :: g2 :: 0 :: 32 :: (key.val ++ rest) := by
  have hbytes (g1 g2 : UInt8) :
      (share (be16 g1 g2) key).bytes = g1 :: g2 :: 0 :: 32 :: key.val := by
    rw [share, Tlv.Entry.bytes_eq, key.property, beBytes_be16]
    rfl
  constructor
  · rintro ⟨group, rest, rfl⟩
    refine ⟨UInt8.ofNat (group.toNat / 256 ^ 1), UInt8.ofNat (group.toNat / 256 ^ 0), rest, ?_⟩
    rw [← be16_beBytes group, hbytes, be16_beBytes]
    rfl
  · rintro ⟨g1, g2, rest, rfl⟩
    exact ⟨be16 g1 g2, rest, by rw [hbytes]; rfl⟩

/-- A client takes the first entry of 32 bytes, whatever its group. -/
theorem keyInShare_false_eq_ok_iff (dhData : Bytes) (key : ByteArr 32) :
    keyInShare dhData false = .ok key ↔
      ∃ group rest, dhData = (share group key).bytes ++ rest := by
  rw [exists_share_iff]
  by_cases hshort : dhData.length < 4 + 32
  · constructor
    · intro h
      simp [keyInShare, hshort] at h
    · rintro ⟨g1, g2, rest, rfl⟩
      simp at hshort
      omega
  -- the two bytes of the group are passed over
  obtain ⟨g1, g2, header, rfl⟩ := exists_cons_cons (b := dhData) (by omega)
  obtain ⟨l1, l2, body, rfl⟩ := exists_cons_cons (b := header) (by simp at hshort; omega)
  obtain ⟨found, rest, rfl, hfound⟩ := exists_split (n := 32) (b := body) (by simp at hshort; omega)
  have hrange := Bytes.range?_append (a := [g1, g2, l1, l2]) rfl hfound rest
  change Bytes.range? (g1 :: g2 :: l1 :: l2 :: (found ++ rest)) 4 32 = _ at hrange
  have hkey : keyInShare (g1 :: g2 :: l1 :: l2 :: (found ++ rest)) false =
      if (be16 l1 l2).toNat ≠ 32 then .err (tamper "Ошибка маскировки"
        s!"Server KeyShare has unexpected key length {(be16 l1 l2).toNat}")
      else .ok ⟨found, hfound⟩ := by
    simp [keyInShare, hrange, ByteArr.ofBytes?, hfound]
  rw [hkey]
  constructor
  · intro h
    split_ifs at h with hlen
    cases h
    have hbytes := beBytes_be16 l1 l2
    rw [not_not.mp hlen] at hbytes
    cases hbytes
    exact ⟨g1, g2, rest, rfl⟩
  · rintro ⟨g1', g2', rest', heq⟩
    simp only [List.cons.injEq] at heq
    obtain ⟨-, -, rfl, rfl, hbody⟩ := heq
    obtain ⟨rfl, -⟩ := List.append_inj hbody (hfound.trans key.property.symm)
    rfl

/-! ### The key of the extensions -/

/-- The key that is extracted is the one in the first key share, unless it is zero. -/
theorem extractPeerPublic_eq_ok_iff (extensions : ExtensionStack) (isServer : Bool)
    (key : ByteArr 32) :
    extractPeerPublic extensions isServer = .ok key ↔
      (∃ dhData, extensions.findByType extKeyShare = some dhData ∧
        keyInShare dhData isServer = .ok key) ∧ key ≠ .zero 32 := by
  constructor
  · intro h
    rw [extractPeerPublic, Outcome.bind_eq_ok_iff] at h
    obtain ⟨dhData, hext, h⟩ := h
    rw [Outcome.bind_eq_ok_iff] at h
    obtain ⟨found, hkey, h⟩ := h
    split_ifs at h with hzero
    obtain rfl : found = key := by simpa using h
    refine ⟨⟨dhData, Outcome.ofOption_eq_ok_iff.mp hext, hkey⟩, ?_⟩
    rintro rfl
    exact hzero (by decide)
  · rintro ⟨⟨dhData, hext, hkey⟩, hne⟩
    exact extractPeerPublic_of_share hext hkey hne

/-- What is asked of the extraction: it returns exactly the genuine key, and where there is none, an
error. -/
def ExtractsGenuine (extensions : ExtensionStack) (isServer : Bool) : Prop :=
  (∀ key, extractPeerPublic extensions isServer = .ok key ↔ Genuine extensions isServer key) ∧
  ((∀ key, ¬Genuine extensions isServer key) →
    ∃ e, extractPeerPublic extensions isServer = .err e) ∧
  extractPeerPublic extensions isServer ≠ .panic

/-- An extraction does not panic, so that only the values matter. -/
theorem extractsGenuine_of_iff {extensions : ExtensionStack} {isServer : Bool}
    (h : ∀ key, extractPeerPublic extensions isServer = .ok key ↔
      Genuine extensions isServer key) : ExtractsGenuine extensions isServer := by
  refine ⟨h, fun hnone ↦ ?_, extractPeerPublic_ne_panic extensions isServer⟩
  rcases hkey : extractPeerPublic extensions isServer with key | e | _
  · exact absurd ((h key).mp hkey) (hnone key)
  · exact ⟨e, rfl⟩
  · exact absurd hkey (extractPeerPublic_ne_panic extensions isServer)

theorem extractsGenuine_server (extensions : ExtensionStack) : ExtractsGenuine extensions true := by
  refine extractsGenuine_of_iff fun key ↦ ?_
  rw [extractPeerPublic_eq_ok_iff]
  simp only [keyInShare_true_eq_ok_iff]
  exact ⟨fun h ↦ ⟨h.1, h.2⟩, fun h ↦ ⟨h.offers, h.ne_zero⟩⟩

theorem extractsGenuine_client {extensions : ExtensionStack} (h : ¬MislabelledShare extensions) :
    ExtractsGenuine extensions false := by
  refine extractsGenuine_of_iff fun key ↦ ?_
  rw [extractPeerPublic_eq_ok_iff]
  simp only [keyInShare_false_eq_ok_iff]
  constructor
  · rintro ⟨⟨dhData, hext, group, rest, rfl⟩, hne⟩
    by_cases hgroup : group = groupX25519
    · subst hgroup
      exact ⟨⟨_, hext, .server rest⟩, hne⟩
    · exact absurd ⟨group, key, rest, hext, hgroup, hne⟩ h
  · rintro ⟨⟨dhData, hext, hoffers⟩, hne⟩
    obtain ⟨rest, rfl⟩ := (offers_server_iff key dhData).mp hoffers
    exact ⟨⟨_, hext, groupX25519, rest, rfl⟩, hne⟩

/-- A client takes a key of another group, which is not genuine. -/
theorem MislabelledShare.not_extractsGenuine {extensions : ExtensionStack}
    (h : MislabelledShare extensions) : ¬ExtractsGenuine extensions false := by
  rintro ⟨hiff, -, -⟩
  obtain ⟨group, key, rest, hext, hgroup, hne⟩ := h
  have hkey : extractPeerPublic extensions false = .ok key :=
    (extractPeerPublic_eq_ok_iff extensions false key).mpr
      ⟨⟨_, hext, (keyInShare_false_eq_ok_iff _ key).mpr ⟨group, rest, rfl⟩⟩, hne⟩
  obtain ⟨dhData, hext', hoffers⟩ := ((hiff key).mp hkey).offers
  obtain ⟨rest', rfl⟩ := (offers_server_iff key dhData).mp hoffers
  rw [hext, Option.some.injEq] at hext'
  have heq := Tlv.Entry.eq_of_bytes_append (share_fits _ _) (share_fits _ _) hext'
  exact hgroup (congrArg Tlv.Entry.tag heq)

/-- **Only genuine keys are used**, by a server for all extensions, by a client exactly if the first
key share is not that of another group with a key of the same length. -/
theorem extractsGenuine_iff (extensions : ExtensionStack) (isServer : Bool) :
    ExtractsGenuine extensions isServer ↔ ¬(isServer = false ∧ MislabelledShare extensions) := by
  constructor
  · rintro hgenuine ⟨rfl, hlabel⟩
    exact hlabel.not_extractsGenuine hgenuine
  · intro h
    cases isServer with
    | true => exact extractsGenuine_server extensions
    | false => exact extractsGenuine_client fun hlabel ↦ h ⟨rfl, hlabel⟩

/-- A server's share for secp256r1, with a key of 32 bytes. -/
def p256Share : ExtensionStack := ⟨[.new extKeyShare (share 0x0017 (.fill 32 9)).bytes]⟩

/-- **A client takes it** for an X25519 key. -/
theorem extractPeerPublic_p256 :
    extractPeerPublic p256Share false = .ok (.fill 32 9) ∧ ¬ExtractsGenuine p256Share false := by
  have hext : p256Share.findByType extKeyShare
      = some ((share 0x0017 (.fill 32 9)).bytes ++ []) := rfl
  have hne : ByteArr.fill 32 9 ≠ ByteArr.zero 32 := by decide
  have hlabel : MislabelledShare p256Share := ⟨0x0017, .fill 32 9, [], hext, by decide, hne⟩
  exact ⟨(extractPeerPublic_eq_ok_iff _ _ _).mpr
    ⟨⟨_, hext, (keyInShare_false_eq_ok_iff _ _).mpr ⟨_, _, rfl⟩⟩, hne⟩,
    hlabel.not_extractsGenuine⟩

end SessionKeys
