import Nrxp.Crypto.Session
import Nrxp.Tls.ExtensionBlock

/-!
# Extension blocks round trip

Reading a block that was written for a profile. If the vectors of the profile fit, so do the entries
of every block, and the reader takes exactly these off; looking one up by its type gives what its
slot wrote, because no GREASE value is the type of another extension. From the contents `IsSlot`
records, the other side gets the host, the key and the groups.
-/

open ExtensionBuilder

/-! ### What the other side looks up -/

/-- The key share of a block in which every key share carries the key. -/
theorem extractPeerPublic_ofEntries {es : List Tlv.Entry} {key : ByteArr 32}
    (hcarries : ∀ e ∈ es, e.tag = TlsExtensions.keyShare → IsClientShare key.val e.data)
    (hexists : ∃ e ∈ es, e.tag = TlsExtensions.keyShare) (hne : key ≠ .zero 32) :
    SessionKeys.extractPeerPublic (.ofEntries es) true = .ok key := by
  obtain ⟨e, hfirst⟩ : ∃ e, es.find? (fun e ↦ e.tag == SessionKeys.extKeyShare) = some e := by
    obtain ⟨e, he, htag⟩ := hexists
    exact Option.isSome_iff_exists.mp (List.find?_isSome.mpr ⟨e, he, by rw [htag]; rfl⟩)
  have hmatch := List.find?_some hfirst
  have htag : e.tag = TlsExtensions.keyShare := beq_iff_eq.mp hmatch
  obtain ⟨others, hothers, hlen, hdata⟩ :=
    hcarries e (List.mem_of_find?_eq_some hfirst) htag
  have hfound : (ExtensionStack.ofEntries es).findByType SessionKeys.extKeyShare
      = some e.data := by
    rw [ExtensionStack.findByType_ofEntries, hfirst]
    rfl
  refine SessionKeys.extractPeerPublic_of_share hfound ?_ hne
  rw [hdata]
  refine SessionKeys.keyInShare_client ?_ hlen ?_
  · intro share hshare
    rcases List.mem_append.mp hshare with hshare | hshare
    · exact (hothers share hshare).2
    · obtain rfl := List.mem_singleton.mp hshare
      rw [Tlv.Entry.Fits, key.property]
      decide
  · -- the shares in front are of other groups
    have hnone : others.findSome? SessionKeys.keyOfShare = none :=
      List.findSome?_eq_none_iff.mpr fun share hshare ↦ if_neg (hothers share hshare).1
    have hkey : SessionKeys.keyOfShare ⟨TlsGroups.x25519, key.val⟩ = some key := by
      show ByteArr.ofBytes? 32 key.val = some key
      rw [ByteArr.ofBytes?_val]
    rw [List.findSome?_append, hnone, Option.none_or, List.findSome?_cons, hkey]

/-- The first group of a list of groups, or of key shares, behind its length. -/
def firstGroup : Bytes → Option UInt16
  | _ :: _ :: g1 :: g2 :: _ => some (be16 g1 g2)
  | _ => none

theorem firstGroup_append (len : ℕ) (group : UInt16) (rest : Bytes) :
    firstGroup (beBytes 2 len ++ (beBytes 2 group.toNat ++ rest)) = some group :=
  congrArg some (be16_beBytes group)

/-- The host of a list with this host. -/
theorem serverName_hostName {stack : ExtensionStack} {host : String}
    (hfound : stack.findByType TlsExtensions.sni = some (hostName host))
    (hhost : (utf8 host).length ≤ 253) : stack.serverName = some host := by
  let n := (utf8 host).length
  have hn : (UInt16.ofNat n).toNat = n := by
    rw [UInt16.toNat_ofNat', Nat.mod_eq_of_lt (by omega)]
  have hinner : (1 + 2 + UInt16.ofNat n).toNat = 3 + n := by
    rw [UInt16.toNat_add, hn]
    show (3 + n) % 2 ^ 16 = 3 + n
    omega
  obtain ⟨l1, l2, hl, hlen⟩ := exists_beBytes_two (n := 3 + n) (by omega)
  obtain ⟨n1, n2, hname, hnameLen⟩ := exists_beBytes_two (n := n) (by omega)
  have hdata : hostName host = l1 :: l2 :: typeHostName :: n1 :: n2 :: utf8 host := by
    show beBytes 2 (1 + 2 + UInt16.ofNat n).toNat ++ [0x00] ++ beBytes 2 (UInt16.ofNat n).toNat
      ++ utf8 host = _
    rw [hinner, hn, hl, hname]
    rfl
  have hlist := Bytes.range?_two (m := typeHostName :: n1 :: n2 :: utf8 host) (n := 3 + n) l1 l2
    (by simp [n]; omega) []
  have hbytes := Bytes.range?_append (a := [typeHostName, n1, n2]) (m := utf8 host)
    (i := 3) (n := n) rfl rfl []
  rw [List.append_nil] at hlist hbytes
  change Bytes.range? (typeHostName :: n1 :: n2 :: utf8 host) 3 n = _ at hbytes
  simp only [ExtensionStack.serverName, hfound, hdata, hlen, hlist, hnameLen, hbytes,
    Option.bind_eq_bind, Option.bind_some, ne_eq, not_true_eq_false, if_false, fromUTF8?_utf8]

/-! ### Blocks that fit -/

/-- Each vector of a profile fits the length field of its extension, with the lengths inside. -/
structure BrowserProfile.VectorsFit (profile : BrowserProfile) : Prop where
  groups : 2 + 2 * (profile.groups.length + profile.hasGrease.toNat) < 2 ^ 16
  signatures : 2 + 2 * profile.signatures.length < 2 ^ 16
  delegatedSignatures : 2 + 2 * profile.delegatedSignatures.length < 2 ^ 16
  versions : 1 + 2 * (profile.versions.length + profile.hasGrease.toNat) < 2 ^ 16
  alpn : (protocolList profile.alpn).length < 2 ^ 16
  alpsProtocols : (protocolList profile.alpsProtocols).length < 2 ^ 16

/-- The vectors of the profile in use fit. -/
theorem BrowserProfile.VectorsFit.chrome140 : BrowserProfile.chrome140.VectorsFit := by
  constructor <;> decide

namespace ExtensionBuilder

variable {profile : BrowserProfile} {host : String} {pubKey : Bytes} {grease : GreaseSet}
  {size : ℕ} {order : List UInt16} {es : List Tlv.Entry}

theorem slotSize_lt (hfit : profile.VectorsFit) {hostLen : ℕ} (hhost : hostLen ≤ 253) (size : ℕ)
    (extId : UInt16) : slotSize profile hostLen size extId < 4 + 2 ^ 16 := by
  have := hfit.groups
  have := hfit.signatures
  have := hfit.delegatedSignatures
  have := hfit.versions
  have := hfit.alpn
  have := hfit.alpsProtocols
  have hgrease : profile.hasGrease.toNat ≤ 1 := Bool.toNat_le profile.hasGrease
  have htarget : profile.targetPaddingLen.toNat < 2 ^ 16 := UInt16.toNat_lt _
  unfold slotSize
  split
  all_goals first | omega | skip
  split <;> omega

namespace Block

theorem fits (h : Block profile host pubKey grease size order es) (hfit : profile.VectorsFit)
    (hhost : (utf8 host).length ≤ 253) : ∀ e ∈ es, e.Fits := by
  intro e he
  obtain ⟨size, extId, -, hslot⟩ := h.exists_isSlot e he
  have hlen := hslot.length
  have hlt := slotSize_lt hfit hhost size extId
  rw [Tlv.Entry.length_bytes] at hlen
  rw [Tlv.Entry.Fits]
  omega

/-- Looking up the type of a slot that always writes gives what it wrote. -/
theorem exists_findByType (h : Block profile host pubKey grease size order es) {etype : UInt16}
    (hmem : etype ∈ order) (hetype : TlsExtensions.isGrease etype = false)
    (hwrite : ∀ size, isWritten profile size etype = true) :
    ∃ e size, IsSlot profile host pubKey grease size etype e ∧
      (ExtensionStack.ofEntries es).findByType etype = some e.data := by
  obtain ⟨e, hfirst⟩ : ∃ e, es.find? (fun e ↦ e.tag == etype) = some e := by
    obtain ⟨e, he, _, hslot⟩ := h.exists_of_mem hmem hwrite
    have htag : (e.tag == etype) = true := by
      rw [hslot.tag, beq_iff_eq, wireType_eq_iff hetype]
    exact Option.isSome_iff_exists.mp (List.find?_isSome.mpr ⟨e, he, htag⟩)
  obtain ⟨size, extId, -, hslot⟩ := h.exists_isSlot e (List.mem_of_find?_eq_some hfirst)
  have hmatch := List.find?_some hfirst
  rw [hslot.tag, beq_iff_eq, wireType_eq_iff hetype] at hmatch
  subst hmatch
  exact ⟨e, size, hslot, by rw [ExtensionStack.findByType_ofEntries, hfirst]; rfl⟩

end Block

end ExtensionBuilder

theorem ExtensionStack.map_etype_ofEntries (es : List Tlv.Entry) :
    (ofEntries es).extensions.map Extension.etype = es.map Tlv.Entry.tag := by
  rw [ofEntries, List.map_map]
  rfl

/-- **The block decodes to what the profile asked for**, whatever is drawn: every slot that is to
write something under its type and in its turn, the host, the key, and one GREASE group in both
places. -/
theorem applyProfile_decodes {profile : BrowserProfile} (hfit : profile.VectorsFit)
    (hsni : TlsExtensions.sni ∈ profile.extensionOrder)
    (hgroups : TlsExtensions.supportedGroups ∈ profile.extensionOrder)
    (hshare : TlsExtensions.keyShare ∈ profile.extensionOrder) {host : String}
    (hhost : (utf8 host).length ≤ 253) {key : ByteArr 32} (hne : key ≠ .zero 32) (overhead : ℕ)
    (grease : GreaseSet) (rng : OsRng) :
    ∃ stack : ExtensionStack,
      ExtensionStack.parse
          ((withGrease grease).applyProfile profile host key.val overhead rng).1.payload
        = (.ok (some stack), []) ∧
      stack.extensions.map Extension.etype
        = (writtenSlots profile (utf8 host).length overhead (drawnOrder profile rng)).map
            (wireType grease) ∧
      stack.serverName = some host ∧
      SessionKeys.extractPeerPublic stack true = .ok key ∧
      (profile.hasGrease = true → ∃ group : UInt16,
        (stack.findByType TlsExtensions.supportedGroups).bind firstGroup = some group ∧
        (stack.findByType TlsExtensions.keyShare).bind firstGroup = some group) := by
  obtain ⟨es, hblock, hrun⟩ := withGrease_block profile host key overhead grease rng
  have hperm := drawnOrder_perm profile rng
  obtain ⟨sniEntry, _, hsniSlot, hsniFound⟩ :=
    hblock.exists_findByType (hperm.mem_iff.mpr hsni) rfl fun _ ↦ rfl
  obtain ⟨groupsEntry, _, hgroupsSlot, hgroupsFound⟩ :=
    hblock.exists_findByType (hperm.mem_iff.mpr hgroups) rfl fun _ ↦ rfl
  obtain ⟨shareEntry, _, hshareSlot, hshareFound⟩ :=
    hblock.exists_findByType (hperm.mem_iff.mpr hshare) rfl fun _ ↦ rfl
  -- both lists begin with the GREASE group of the connection
  refine ⟨.ofEntries es, ?_, ?_, ?_, ?_, fun hgrease ↦ ⟨grease.group.val, ?_, ?_⟩⟩
  · rw [hrun]
    exact ExtensionStack.parse_encode (hblock.fits hfit hhost)
  · rw [ExtensionStack.map_etype_ofEntries]
    exact hblock.map_tag
  · exact serverName_hostName (hsniSlot.host rfl ▸ hsniFound) hhost
  · obtain ⟨e, he, _, hslot⟩ := hblock.exists_of_mem (hperm.mem_iff.mpr hshare) fun _ ↦ rfl
    exact extractPeerPublic_ofEntries (hblock.isClientShare key.property) ⟨e, he, hslot.tag⟩ hne
  · rw [hgroupsFound, Option.bind_some, hgroupsSlot.groups rfl, withGreaseValue, if_pos hgrease]
    exact firstGroup_append _ _ _
  · obtain ⟨ballast, hdata⟩ := hshareSlot.shares rfl
    rw [hshareFound, Option.bind_some, hdata, shareVector, encode_clientShares, if_pos hgrease]
    simp only [List.append_assoc]
    exact firstGroup_append _ _ _

/-- The profile in use does, with a host and a key. -/
theorem applyProfile_decodes_chrome140 :
    ∃ stack : ExtensionStack,
      ExtensionStack.parse
          ((withGrease (GreaseSet.random (.repeating 7)).1).applyProfile .chrome140 "example.com"
            (ByteArr.fill 32 0x7a).val 77 (GreaseSet.random (.repeating 7)).2).1.payload
        = (.ok (some stack), []) ∧
      stack.extensions.map Extension.etype
        = (writtenSlots .chrome140 (utf8 "example.com").length 77
            (drawnOrder .chrome140 (GreaseSet.random (.repeating 7)).2)).map
              (wireType (GreaseSet.random (.repeating 7)).1) ∧
      stack.serverName = some "example.com" ∧
      SessionKeys.extractPeerPublic stack true = .ok (ByteArr.fill 32 0x7a) ∧
      (BrowserProfile.chrome140.hasGrease = true → ∃ group : UInt16,
        (stack.findByType TlsExtensions.supportedGroups).bind firstGroup = some group ∧
        (stack.findByType TlsExtensions.keyShare).bind firstGroup = some group) :=
  applyProfile_decodes .chrome140 (by decide) (by decide) (by decide) (by decide) (by decide) 77 _ _
