import Nrxp.Tls.ExtensionBuilder

/-!
# What an extension block contains

The block of a client hello, entry by entry. Whether a slot of the order writes something
(`isWritten`), under which type (`wireType`) and how many bytes (`slotSize`) is settled before any
content is; `IsSlot` adds of the contents what the other side reads. A `Block` goes along an order
and skips the slots that write nothing, with the size so far, on which the padding depends.

`applySlot_fills` says of each slot what it writes and `applyProfile_block` of a whole block, for
every draw. What the rest needs to know of a block is read off the derivation.
-/

namespace ExtensionBuilder

open TlsExtensions

/-! ### The slots of an order -/

/-- The type a slot stands for on the wire: the markers are replaced by this connection's values. -/
def wireType (grease : GreaseSet) : UInt16 → UInt16
  | greaseSlotFirst => grease.extFirst.val
  | greaseSlotLast => grease.extLast.val
  | extId => extId

/-- Whether a slot writes anything, when the hello has a given size so far. -/
def isWritten (profile : BrowserProfile) (size : ℕ) : UInt16 → Bool
  | TlsExtensions.sni | TlsExtensions.supportedGroups | TlsExtensions.signatureAlgorithms
  | TlsExtensions.alpn | TlsExtensions.sct | TlsExtensions.ems | TlsExtensions.ech
  | TlsExtensions.compressCert | TlsExtensions.delegatedCredential | TlsExtensions.sessionTicket
  | TlsExtensions.supportedVersions | TlsExtensions.pskModes | TlsExtensions.keyShare
  | TlsExtensions.statusRequest | TlsExtensions.ecPointFormats
  | TlsExtensions.renegotiationInfo => true
  | TlsExtensions.alps => profile.alpsProtocols ≠ []
  | TlsExtensions.padding => profile.targetPaddingLen.toNat > size + 4
  | extId => isGrease extId && profile.hasGrease

/-- How many bytes a slot writes if it does, the header included. -/
def slotSize (profile : BrowserProfile) (hostLen size : ℕ) : UInt16 → ℕ
  | greaseSlotLast => 4 + 1
  | TlsExtensions.sni => 4 + (5 + hostLen)
  | TlsExtensions.supportedGroups => 4 + (2 + 2 * (profile.groups.length + profile.hasGrease.toNat))
  | TlsExtensions.signatureAlgorithms => 4 + (2 + 2 * profile.signatures.length)
  | TlsExtensions.alpn => 4 + (protocolList profile.alpn).length
  | TlsExtensions.ech => 4 + 186
  | TlsExtensions.compressCert => 4 + 3
  | TlsExtensions.delegatedCredential => 4 + (2 + 2 * profile.delegatedSignatures.length)
  | TlsExtensions.supportedVersions =>
    4 + (1 + 2 * (profile.versions.length + profile.hasGrease.toNat))
  | TlsExtensions.pskModes => 4 + 2
  | TlsExtensions.keyShare => 4 + (2 + (5 * profile.hasGrease.toNat
      + (if profile.groups.contains TlsGroups.x25519Mlkem768 then 4 + 1216 else 0) + (4 + 32)))
  | TlsExtensions.alps => 4 + (protocolList profile.alpsProtocols).length
  | TlsExtensions.statusRequest => 4 + 5
  | TlsExtensions.ecPointFormats => 4 + 2
  | TlsExtensions.renegotiationInfo => 4 + 1
  | TlsExtensions.padding => profile.targetPaddingLen.toNat - size
  | _ => 4

/-- The size after the turn of a slot. -/
def sizeWith (profile : BrowserProfile) (hostLen size : ℕ) (extId : UInt16) : ℕ :=
  if isWritten profile size extId then size + slotSize profile hostLen size extId else size

/-- The size after all slots of an order. -/
def sizeAfter (profile : BrowserProfile) (hostLen size : ℕ) (order : List UInt16) : ℕ :=
  order.foldl (sizeWith profile hostLen) size

/-- The slots of an order that write something. -/
def writtenSlots (profile : BrowserProfile) (hostLen : ℕ) : ℕ → List UInt16 → List UInt16
  | _, [] => []
  | size, extId :: order =>
    let rest := writtenSlots profile hostLen (sizeWith profile hostLen size extId) order
    if isWritten profile size extId then extId :: rest else rest

/-- The order of the slots of one connection. -/
def drawnOrder (profile : BrowserProfile) (rng : OsRng) : List UInt16 :=
  if profile.shuffleExtensions then (shuffleMiddle profile.extensionOrder rng).1
  else profile.extensionOrder

/-! ### Contents -/

/-- A host name, as the only entry of its list. -/
def hostName (host : String) : Bytes :=
  beBytes 2 (1 + 2 + UInt16.ofNat (utf8 host).length).toNat ++ [0x00]
    ++ beBytes 2 (UInt16.ofNat (utf8 host).length).toNat ++ utf8 host

/-- The shares a client offers, the last of which is its key. -/
def clientShares (profile : BrowserProfile) (pubKey : Bytes) (grease : GreaseSet)
    (ballast : ByteArr 1216) : List Tlv.Entry :=
  (if profile.hasGrease then [⟨grease.group.val, [0x00]⟩] else [])
    ++ (if profile.groups.contains TlsGroups.x25519Mlkem768
        then [⟨TlsGroups.x25519Mlkem768, ballast.val⟩] else [])
    ++ [⟨TlsGroups.x25519, pubKey⟩]

/-- Shares behind the length of all of them. -/
def shareVector (shares : List Tlv.Entry) : Bytes :=
  beBytes 2 (Tlv.encode shares).length ++ Tlv.encode shares

/-- An entry is what a slot writes when the hello has a given size so far. -/
structure IsSlot (profile : BrowserProfile) (host : String) (pubKey : Bytes) (grease : GreaseSet)
    (size : ℕ) (extId : UInt16) (e : Tlv.Entry) : Prop where
  tag : e.tag = wireType grease extId
  length : e.bytes.length = slotSize profile (utf8 host).length size extId
  host : extId = TlsExtensions.sni → e.data = hostName host
  groups : extId = TlsExtensions.supportedGroups →
    e.data = u16Vector (withGreaseValue profile.hasGrease grease.group profile.groups)
  shares : extId = TlsExtensions.keyShare →
    ∃ ballast, e.data = shareVector (clientShares profile pubKey grease ballast)

/-- Entries are what an order writes, from a size on. -/
inductive Block (profile : BrowserProfile) (host : String) (pubKey : Bytes) (grease : GreaseSet) :
    ℕ → List UInt16 → List Tlv.Entry → Prop
  | nil (size : ℕ) : Block profile host pubKey grease size [] []
  | skip {size : ℕ} {extId : UInt16} {order : List UInt16} {es : List Tlv.Entry}
      (hskip : isWritten profile size extId = false)
      (hrest : Block profile host pubKey grease size order es) :
      Block profile host pubKey grease size (extId :: order) es
  | write {size : ℕ} {extId : UInt16} {order : List UInt16} {e : Tlv.Entry} {es : List Tlv.Entry}
      (hwrite : isWritten profile size extId = true)
      (hslot : IsSlot profile host pubKey grease size extId e)
      (hrest : Block profile host pubKey grease (size + e.bytes.length) order es) :
      Block profile host pubKey grease size (extId :: order) (e :: es)

/-! ### What one slot writes -/

variable {profile : BrowserProfile} {host : String} {pubKey : Bytes} {overhead : ℕ}

/-- What the turn of a slot does to a block in the making. -/
def Fills (profile : BrowserProfile) (host : String) (pubKey : Bytes) (overhead : ℕ)
    (extId : UInt16) (b b' : ExtensionBuilder) : Prop :=
  if isWritten profile (b.payload.length + overhead) extId then
    ∃ e : Tlv.Entry, IsSlot profile host pubKey b.grease (b.payload.length + overhead) extId e ∧
      b' = b.addExtension e.tag e.data
  else b' = b

/-- A slot that writes an entry under a condition. -/
theorem fills_ite {extId : UInt16} {b : ExtensionBuilder} {etype : UInt16} {data : Bytes}
    (c : Prop) [Decidable c]
    (hwritten : isWritten profile (b.payload.length + overhead) extId = decide c)
    (hslot : c → IsSlot profile host pubKey b.grease (b.payload.length + overhead) extId
      ⟨etype, data⟩) :
    Fills profile host pubKey overhead extId b (if c then b.addExtension etype data else b) := by
  rw [Fills, hwritten]
  by_cases hc : c
  · rw [if_pos (decide_eq_true hc), if_pos hc]
    exact ⟨⟨etype, data⟩, hslot hc, rfl⟩
  · rw [if_neg (by rwa [decide_eq_true_iff]), if_neg hc]

/-- A slot that writes an entry. -/
theorem fills_of_written {extId : UInt16} {b : ExtensionBuilder} {etype : UInt16} {data : Bytes}
    (hwritten : isWritten profile (b.payload.length + overhead) extId = true)
    (hslot : IsSlot profile host pubKey b.grease (b.payload.length + overhead) extId
      ⟨etype, data⟩) :
    Fills profile host pubKey overhead extId b (b.addExtension etype data) := by
  rw [Fills, if_pos hwritten]
  exact ⟨⟨etype, data⟩, hslot, rfl⟩

/-- The slots whose contents the other side reads. -/
def readSlots : List UInt16 :=
  [TlsExtensions.sni, TlsExtensions.supportedGroups, TlsExtensions.keyShare]

/-- An entry whose contents nobody reads. -/
theorem isSlot_of_length {grease : GreaseSet} {size : ℕ} {extId etype : UInt16} {data : Bytes}
    (hread : extId ∉ readSlots) (htag : etype = wireType grease extId)
    (hlength : 4 + data.length = slotSize profile (utf8 host).length size extId) :
    IsSlot profile host pubKey grease size extId ⟨etype, data⟩ where
  tag := htag
  length := (Tlv.Entry.length_bytes ⟨etype, data⟩).trans hlength
  host h := absurd (h ▸ by decide) hread
  groups h := absurd (h ▸ by decide) hread
  shares h := absurd (h ▸ by decide) hread

/-- A slot that always writes such an entry. -/
theorem fills_of_length {extId : UInt16} {b : ExtensionBuilder} {data : Bytes}
    (hwritten : isWritten profile (b.payload.length + overhead) extId = true)
    (hread : extId ∉ readSlots) (htag : extId = wireType b.grease extId)
    (hlength : 4 + data.length
      = slotSize profile (utf8 host).length (b.payload.length + overhead) extId) :
    Fills profile host pubKey overhead extId b (b.addExtension extId data) :=
  fills_of_written hwritten (isSlot_of_length hread htag hlength)

theorem encode_clientShares (profile : BrowserProfile) (pubKey : Bytes) (grease : GreaseSet)
    (ballast : ByteArr 1216) :
    Tlv.encode (clientShares profile pubKey grease ballast)
      = (if profile.hasGrease then
            beBytes 2 grease.group.val.toNat ++ beBytes 2 1 ++ [0x00]
          else [])
        ++ (if profile.groups.contains TlsGroups.x25519Mlkem768 then
            beBytes 2 TlsGroups.x25519Mlkem768.toNat ++ beBytes 2 ballast.val.length ++ ballast.val
          else [])
        ++ (beBytes 2 TlsGroups.x25519.toNat ++ beBytes 2 pubKey.length ++ pubKey) := by
  rw [clientShares, Tlv.encode_append, Tlv.encode_append, Tlv.encode_ite, Tlv.encode_ite,
    Tlv.encode_cons, Tlv.encode_nil, List.append_nil, Tlv.Entry.bytes_eq, Tlv.Entry.bytes_eq,
    Tlv.Entry.bytes_eq]
  rfl

theorem length_clientShares (hlen : pubKey.length = 32) (grease : GreaseSet)
    (ballast : ByteArr 1216) :
    (Tlv.encode (clientShares profile pubKey grease ballast)).length
      = 5 * profile.hasGrease.toNat
        + (if profile.groups.contains TlsGroups.x25519Mlkem768 then 4 + 1216 else 0)
        + (4 + 32) := by
  rw [encode_clientShares]
  simp only [List.length_append, length_beBytes, hlen, apply_ite List.length, List.length_nil,
    ByteArr.length_val, List.length_singleton]
  cases profile.hasGrease <;> rfl

/-- The key share of a hello. -/
theorem keyShare_eq (profile : BrowserProfile) (pubKey : Bytes) (b : ExtensionBuilder)
    (rng : OsRng) :
    ∃ ballast, (b.keyShare profile pubKey rng).1
      = b.addExtension TlsExtensions.keyShare
          (shareVector (clientShares profile pubKey b.grease ballast)) := by
  refine ⟨⟨_, Mlkem.length_sampleX25519Mlkem768Share rng⟩, ?_⟩
  rw [shareVector, encode_clientShares, keyShare]
  by_cases hpq : profile.groups.contains TlsGroups.x25519Mlkem768 = true
  · rw [if_pos hpq, if_pos hpq]
    rfl
  · rw [if_neg hpq, if_neg hpq]
    rfl

theorem length_hostName (host : String) : (hostName host).length = 5 + (utf8 host).length := by
  simp only [hostName, List.length_append, length_beBytes, List.length_singleton]

/-! ### The contents that are read -/

theorem isSlot_sni (profile : BrowserProfile) (host : String) (pubKey : Bytes) (grease : GreaseSet)
    (size : ℕ) :
    IsSlot profile host pubKey grease size TlsExtensions.sni
      ⟨TlsExtensions.sni, hostName host⟩ where
  tag := rfl
  length := by
    rw [Tlv.Entry.length_bytes]
    exact congrArg (4 + ·) (length_hostName host)
  host _ := rfl
  groups h := absurd h (by decide)
  shares h := absurd h (by decide)

theorem isSlot_supportedGroups (profile : BrowserProfile) (host : String) (pubKey : Bytes)
    (grease : GreaseSet) (size : ℕ) :
    IsSlot profile host pubKey grease size TlsExtensions.supportedGroups
      ⟨TlsExtensions.supportedGroups,
        u16Vector (withGreaseValue profile.hasGrease grease.group profile.groups)⟩ where
  tag := rfl
  length := by
    rw [Tlv.Entry.length_bytes, length_u16Vector, length_withGreaseValue]
    rfl
  host h := absurd h (by decide)
  groups _ := rfl
  shares h := absurd h (by decide)

theorem isSlot_keyShare (profile : BrowserProfile) (host : String) (hlen : pubKey.length = 32)
    (grease : GreaseSet) (size : ℕ) (ballast : ByteArr 1216) :
    IsSlot profile host pubKey grease size TlsExtensions.keyShare
      ⟨TlsExtensions.keyShare,
        shareVector (clientShares profile pubKey grease ballast)⟩ where
  tag := rfl
  length := by
    rw [Tlv.Entry.length_bytes]
    show 4 + (shareVector (clientShares profile pubKey grease ballast)).length = _
    rw [shareVector, List.length_append, length_beBytes, length_clientShares hlen]
    rfl
  host h := absurd h (by decide)
  groups h := absurd h (by decide)
  shares _ := ⟨ballast, rfl⟩

/-! ### Every slot -/

/-- The padding with its condition, which says that there is a target. -/
theorem padding_eq (target : UInt16) (overhead : ℕ) (b : ExtensionBuilder) :
    (if target > 0 then b.padding target.toNat overhead else b)
      = if target.toNat > b.payload.length + overhead + 4 then
          b.addExtension TlsExtensions.padding
            (List.replicate (target.toNat - (b.payload.length + overhead) - 4) 0)
        else b := by
  by_cases hroom : target.toNat > b.payload.length + overhead + 4
  · have hpos : target > 0 := by
      rw [gt_iff_lt, UInt16.lt_iff_toNat_lt]
      show 0 < target.toNat
      omega
    rw [if_pos hpos]
    rfl
  · rw [if_neg hroom, padding, if_neg hroom, ite_self]

/-- Any other id is written, with nothing in it, if it is a GREASE value. -/
theorem fills_other {extId : UInt16} {b : ExtensionBuilder}
    (hwritten : isWritten profile (b.payload.length + overhead) extId
      = (isGrease extId && profile.hasGrease))
    (hread : extId ∉ readSlots) (htag : wireType b.grease extId = extId)
    (hsize : slotSize profile (utf8 host).length (b.payload.length + overhead) extId = 4) :
    Fills profile host pubKey overhead extId b
      (if isGrease extId && profile.hasGrease then b.greaseWithId extId else b) :=
  fills_ite _ (by rw [hwritten, Bool.decide_eq_true]) fun _ ↦
    isSlot_of_length hread htag.symm hsize.symm

/-- **What the turn of a slot does.** -/
theorem applySlot_fills (profile : BrowserProfile) (host : String) (hlen : pubKey.length = 32)
    (overhead : ℕ) (b : ExtensionBuilder) (extId : UInt16) (rng : OsRng) :
    Fills profile host pubKey overhead extId b
      (applySlot profile host pubKey overhead b extId rng).1 := by
  unfold applySlot
  split
  · exact fills_ite _ Bool.decide_eq_true.symm fun _ ↦ isSlot_of_length (by decide) rfl rfl
  · exact fills_ite _ Bool.decide_eq_true.symm fun _ ↦ isSlot_of_length (by decide) rfl rfl
  · exact fills_of_written rfl (isSlot_sni profile host pubKey b.grease _)
  · exact fills_of_written rfl (isSlot_supportedGroups profile host pubKey b.grease _)
  · -- the signatures
    refine fills_of_length rfl (by decide) rfl ?_
    rw [length_u16Vector]
    rfl
  · exact fills_of_length rfl (by decide) rfl rfl
  · exact fills_of_length rfl (by decide) rfl rfl
  · exact fills_of_length rfl (by decide) rfl rfl
  · -- the encrypted hello
    exact fills_of_length rfl (by decide) rfl
      (congrArg (4 + ·) (length_echGrease (OsRng.fillBytes 177 rng).1))
  · exact fills_of_length rfl (by decide) rfl rfl
  · -- the delegated signatures
    refine fills_of_length rfl (by decide) rfl ?_
    rw [length_u16Vector]
    rfl
  · exact fills_of_length rfl (by decide) rfl rfl
  · -- the versions
    refine fills_of_length rfl (by decide) rfl ?_
    rw [List.length_append, length_beBytes, length_u16s, length_withGreaseValue]
    rfl
  · exact fills_of_length rfl (by decide) rfl rfl
  · -- the key share
    obtain ⟨ballast, hshares⟩ := keyShare_eq profile pubKey b rng
    rw [hshares]
    exact fills_of_written rfl (isSlot_keyShare profile host hlen b.grease _ ballast)
  · exact fills_ite _ rfl fun _ ↦ isSlot_of_length (by decide) rfl rfl
  · exact fills_of_length rfl (by decide) rfl rfl
  · exact fills_of_length rfl (by decide) rfl rfl
  · exact fills_of_length rfl (by decide) rfl rfl
  · -- the padding, which goes by the size so far
    show Fills profile host pubKey overhead TlsExtensions.padding b
      (if profile.targetPaddingLen > 0 then b.padding profile.targetPaddingLen.toNat overhead
        else b)
    rw [padding_eq]
    refine fills_ite _ rfl fun hroom ↦ isSlot_of_length (by decide) rfl ?_
    rw [List.length_replicate]
    show _ = profile.targetPaddingLen.toNat - (b.payload.length + overhead)
    omega
  · -- none of the patterns of the three definitions matches
    refine fills_other ?_ ?_ ?_ ?_
    · unfold isWritten
      split <;> first | contradiction | rfl
    · rintro (_ | ⟨_, _ | ⟨_, _ | ⟨_, ⟨⟩⟩⟩⟩) <;> contradiction
    · unfold wireType
      split <;> first | contradiction | rfl
    · unfold slotSize
      split <;> first | contradiction | rfl

/-! ### What an order writes -/

/-- The slots of an order write a block. -/
theorem foldlM_applySlot_block (profile : BrowserProfile) (host : String)
    (hlen : pubKey.length = 32) (overhead : ℕ) (order : List UInt16) (b : ExtensionBuilder)
    (rng : OsRng) :
    ∃ es, Block profile host pubKey b.grease (b.payload.length + overhead) order es ∧
      (order.foldlM (applySlot profile host pubKey overhead) b rng).1
        = { b with payload := b.payload ++ Tlv.encode es } := by
  induction order generalizing b rng with
  | nil =>
    refine ⟨[], .nil _, ?_⟩
    rw [Tlv.encode_nil, List.append_nil]
    rfl
  | cons extId order ih =>
    have hfills := applySlot_fills profile host hlen overhead b extId rng
    obtain ⟨es, hblock, hrun⟩ := ih (applySlot profile host pubKey overhead b extId rng).1
      (applySlot profile host pubKey overhead b extId rng).2
    change ((extId :: order).foldlM (applySlot profile host pubKey overhead) b rng).1 = _ at hrun
    rw [Fills] at hfills
    split at hfills
    · next hwrite =>
      obtain ⟨e, hslot, happ⟩ := hfills
      rw [happ] at hblock hrun
      -- the rest of the block begins where this entry ends
      refine ⟨e :: es, .write hwrite hslot ?_, ?_⟩
      · have hsize : (b.addExtension e.tag e.data).payload.length + overhead
            = b.payload.length + overhead + e.bytes.length := by
          show (b.payload ++ e.bytes).length + overhead = _
          rw [List.length_append]
          omega
        rw [← hsize]
        exact hblock
      · rw [hrun, Tlv.encode_cons, ← List.append_assoc]
        rfl
    · next hskip =>
      rw [hfills] at hblock hrun
      exact ⟨es, .skip (Bool.eq_false_iff.mpr hskip) hblock, hrun⟩

/-- **What a profile writes**, whatever is drawn: a block along the order of the connection. -/
theorem applyProfile_block (profile : BrowserProfile) (host : String) (hlen : pubKey.length = 32)
    (overhead : ℕ) (b : ExtensionBuilder) (rng : OsRng) :
    ∃ es, Block profile host pubKey b.grease (b.payload.length + overhead) (drawnOrder profile rng)
        es ∧
      (b.applyProfile profile host pubKey overhead rng).1
        = { b with payload := b.payload ++ Tlv.encode es } := by
  by_cases hshuffle : profile.shuffleExtensions = true
  · rw [drawnOrder, applyProfile, if_pos hshuffle, if_pos hshuffle]
    exact foldlM_applySlot_block profile host hlen overhead
      (shuffleMiddle profile.extensionOrder rng).1 b (shuffleMiddle profile.extensionOrder rng).2
  · rw [drawnOrder, applyProfile, if_neg hshuffle, if_neg hshuffle]
    exact foldlM_applySlot_block profile host hlen overhead profile.extensionOrder b rng

/-- From an empty builder, the block is all there is. -/
theorem withGrease_block (profile : BrowserProfile) (host : String) (key : ByteArr 32)
    (overhead : ℕ) (grease : GreaseSet) (rng : OsRng) :
    ∃ es, Block profile host key.val grease overhead (drawnOrder profile rng) es ∧
      ((withGrease grease).applyProfile profile host key.val overhead rng).1.payload
        = Tlv.encode es := by
  obtain ⟨es, hblock, hrun⟩ :=
    applyProfile_block profile host key.property overhead (withGrease grease) rng
  have hempty : (withGrease grease).payload.length + overhead = overhead := Nat.zero_add overhead
  exact ⟨es, hempty ▸ hblock, congrArg payload hrun⟩

theorem drawnOrder_perm (profile : BrowserProfile) (rng : OsRng) :
    (drawnOrder profile rng).Perm profile.extensionOrder := by
  rw [drawnOrder]
  split
  · exact shuffleMiddle_perm profile.extensionOrder rng
  · exact List.Perm.refl _

namespace Block

variable {grease : GreaseSet} {size : ℕ} {order : List UInt16} {es : List Tlv.Entry}

/-- The size a block reaches. -/
theorem size_add_length (h : Block profile host pubKey grease size order es) :
    size + (Tlv.encode es).length = sizeAfter profile (utf8 host).length size order := by
  induction h with
  | nil size => rfl
  | skip hskip _ ih =>
    rw [ih, sizeAfter, sizeAfter, List.foldl_cons, sizeWith, hskip, if_neg Bool.false_ne_true]
  | write hwrite hslot _ ih =>
    rw [Tlv.encode_cons, List.length_append, ← Nat.add_assoc, ih, sizeAfter, sizeAfter,
      List.foldl_cons, sizeWith, if_pos hwrite, hslot.length]

/-- The types of a block: those of the slots that write something. -/
theorem map_tag (h : Block profile host pubKey grease size order es) :
    es.map Tlv.Entry.tag
      = (writtenSlots profile (utf8 host).length size order).map (wireType grease) := by
  induction h with
  | nil size => rfl
  | skip hskip _ ih =>
    rw [ih, writtenSlots, sizeWith, hskip, if_neg Bool.false_ne_true, if_neg Bool.false_ne_true]
  | write hwrite hslot _ ih =>
    rw [List.map_cons, ih, writtenSlots, sizeWith, if_pos hwrite, if_pos hwrite, List.map_cons,
      hslot.tag, hslot.length]

/-- Every entry was written by a slot. -/
theorem exists_isSlot (h : Block profile host pubKey grease size order es) :
    ∀ e ∈ es, ∃ size, ∃ extId ∈ order, IsSlot profile host pubKey grease size extId e := by
  induction h with
  | nil size => exact fun e he ↦ absurd he List.not_mem_nil
  | skip _ _ ih =>
    intro e he
    obtain ⟨size, extId, hmem, hslot⟩ := ih e he
    exact ⟨size, extId, List.mem_cons_of_mem _ hmem, hslot⟩
  | write _ hslot _ ih =>
    rintro e (_ | ⟨_, he⟩)
    · exact ⟨_, _, List.mem_cons_self, hslot⟩
    · obtain ⟨size, extId, hmem, hslot⟩ := ih e he
      exact ⟨size, extId, List.mem_cons_of_mem _ hmem, hslot⟩

/-- A slot that always writes has written. -/
theorem exists_of_mem (h : Block profile host pubKey grease size order es) {extId : UInt16}
    (hmem : extId ∈ order) (hwrite : ∀ size, isWritten profile size extId = true) :
    ∃ e ∈ es, ∃ size, IsSlot profile host pubKey grease size extId e := by
  induction h with
  | nil size => exact absurd hmem List.not_mem_nil
  | skip hskip _ ih =>
    rcases List.mem_cons.mp hmem with rfl | hmem
    · rw [hwrite] at hskip
      cases hskip
    · exact ih hmem
  | write _ hslot _ ih =>
    rcases List.mem_cons.mp hmem with rfl | hmem
    · exact ⟨_, List.mem_cons_self, _, hslot⟩
    · obtain ⟨e, he, hslot⟩ := ih hmem
      exact ⟨e, List.mem_cons_of_mem _ he, hslot⟩

end Block

/-! ### Summaries -/

/-- The value of a key share that carries an X25519 key: shares of other groups, then the key. -/
def IsClientShare (pubKey data : Bytes) : Prop :=
  ∃ others : List Tlv.Entry, (∀ e ∈ others, e.tag ≠ TlsGroups.x25519 ∧ e.Fits) ∧
    let shares := Tlv.encode (others ++ [⟨TlsGroups.x25519, pubKey⟩])
    shares.length < 2 ^ 16 ∧ data = beBytes 2 shares.length ++ shares

/-- The most bytes a slot of the order takes, with a host name of a given length. -/
def slotLen (profile : BrowserProfile) (hostLen : ℕ) : UInt16 → ℕ
  | greaseSlotLast => 5
  | TlsExtensions.sni => 9 + hostLen
  | TlsExtensions.supportedGroups => 8 + 2 * profile.groups.length
  | TlsExtensions.signatureAlgorithms => 6 + 2 * profile.signatures.length
  | TlsExtensions.alpn => 4 + (protocolList profile.alpn).length
  | TlsExtensions.ech => 190
  | TlsExtensions.compressCert => 7
  | TlsExtensions.delegatedCredential => 6 + 2 * profile.delegatedSignatures.length
  | TlsExtensions.supportedVersions => 7 + 2 * profile.versions.length
  | TlsExtensions.pskModes => 6
  -- Two lengths, the GREASE share, the ballast and the key.
  | TlsExtensions.keyShare => 6 + 5 + (4 + 1216) + (4 + 32)
  | TlsExtensions.alps => 4 + (protocolList profile.alpsProtocols).length
  | TlsExtensions.statusRequest => 9
  | TlsExtensions.ecPointFormats => 6
  | TlsExtensions.renegotiationInfo => 5
  | TlsExtensions.padding => profile.targetPaddingLen.toNat
  | _ => 4

/-- A type that is no GREASE value is written by its own slot only. -/
theorem wireType_eq_iff {grease : GreaseSet} {extId etype : UInt16}
    (hetype : isGrease etype = false) : wireType grease extId = etype ↔ extId = etype := by
  unfold wireType
  split
  · exact iff_of_false (ne_of_isGrease grease.extFirst.property hetype) (ne_of_isGrease rfl hetype)
  · exact iff_of_false (ne_of_isGrease grease.extLast.property hetype) (ne_of_isGrease rfl hetype)
  · exact Iff.rfl

theorem isClientShare_clientShares (profile : BrowserProfile) (hlen : pubKey.length = 32)
    (grease : GreaseSet) (ballast : ByteArr 1216) :
    IsClientShare pubKey (shareVector (clientShares profile pubKey grease ballast)) := by
  refine ⟨_, fun e he ↦ ?_, ?_, rfl⟩
  · rcases List.mem_append.mp he with he | he <;>
      obtain rfl := List.mem_singleton.mp (List.mem_ite_nil_right.mp he).2
    · exact ⟨ne_of_isGrease grease.group.property rfl, show 1 < 2 ^ 16 by decide⟩
    · have hne : TlsGroups.x25519Mlkem768 ≠ TlsGroups.x25519 := by decide
      refine ⟨hne, ?_⟩
      rw [Tlv.Entry.Fits, ballast.property]
      decide
  · show (Tlv.encode (clientShares profile pubKey grease ballast)).length < 2 ^ 16
    rw [length_clientShares hlen]
    cases profile.hasGrease <;> split <;> decide

/-- Every key share of a block carries the key. -/
theorem Block.isClientShare {grease : GreaseSet} {size : ℕ} {order : List UInt16}
    {es : List Tlv.Entry} (h : Block profile host pubKey grease size order es)
    (hlen : pubKey.length = 32) :
    ∀ e ∈ es, e.tag = TlsExtensions.keyShare → IsClientShare pubKey e.data := by
  intro e he htag
  obtain ⟨size, extId, -, hslot⟩ := h.exists_isSlot e he
  obtain rfl := (wireType_eq_iff rfl).mp (hslot.tag.symm.trans htag)
  obtain ⟨ballast, hdata⟩ := hslot.shares rfl
  rw [hdata]
  exact isClientShare_clientShares profile hlen grease ballast

theorem slotSize_le_slotLen (profile : BrowserProfile) (hostLen size : ℕ) (extId : UInt16) :
    slotSize profile hostLen size extId ≤ slotLen profile hostLen extId := by
  have hgrease : profile.hasGrease.toNat ≤ 1 := Bool.toNat_le profile.hasGrease
  unfold slotSize slotLen
  split
  all_goals first | omega | skip
  split <;> omega

/-- A block takes no more than the slots of its order allow. -/
theorem Block.length_le {grease : GreaseSet} {size : ℕ} {order : List UInt16}
    {es : List Tlv.Entry} (h : Block profile host pubKey grease size order es) :
    (Tlv.encode es).length ≤ (order.map (slotLen profile (utf8 host).length)).sum := by
  induction h with
  | nil size => exact Nat.le_refl 0
  | skip _ _ ih =>
    rw [List.map_cons, List.sum_cons]
    omega
  | @write size extId _ _ _ _ hslot _ ih =>
    have hle := slotSize_le_slotLen profile (utf8 host).length size extId
    rw [Tlv.encode_cons, List.length_append, hslot.length, List.map_cons, List.sum_cons]
    omega

end ExtensionBuilder
