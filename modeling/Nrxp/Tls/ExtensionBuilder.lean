import Nrxp.Crypto.Identity
import Nrxp.Lib.FisherYates
import Nrxp.Lib.Tlv
import Nrxp.Tls.Mlkem
import Nrxp.Tls.Profile

/-!
# Writing extension blocks

The extension block of a client hello, as it is written: one method for each extension, and
`applyProfile`, which calls them in the order of a profile. GREASE values, the order of the middle,
the post-quantum ballast and the contents of the encrypted-hello extension are random.
-/

/-! ### GREASE -/

/-- A GREASE value. -/
abbrev GreaseValue : Type := { v : UInt16 // TlsExtensions.isGrease v = true }

/-- All sixteen GREASE values. -/
def greaseValues : Vector GreaseValue 16 :=
  #v[⟨0x0a0a, rfl⟩, ⟨0x1a1a, rfl⟩, ⟨0x2a2a, rfl⟩, ⟨0x3a3a, rfl⟩, ⟨0x4a4a, rfl⟩, ⟨0x5a5a, rfl⟩,
    ⟨0x6a6a, rfl⟩, ⟨0x7a7a, rfl⟩, ⟨0x8a8a, rfl⟩, ⟨0x9a9a, rfl⟩, ⟨0xaaaa, rfl⟩, ⟨0xbaba, rfl⟩,
    ⟨0xcaca, rfl⟩, ⟨0xdada, rfl⟩, ⟨0xeaea, rfl⟩, ⟨0xfafa, rfl⟩]

/-- The GREASE values of one connection. -/
structure GreaseSet where
  cipher : GreaseValue
  group : GreaseValue
  extFirst : GreaseValue
  extLast : GreaseValue
  version : GreaseValue

/-- Draw a set; the low four bits of a byte pick a value. -/
def GreaseSet.random : StateM OsRng GreaseSet := do
  let b ← OsRng.fillBytes 5
  let pick (i : ℕ) : GreaseValue := greaseValues[(b.val.getD i 0).toNat % 16]
  return ⟨pick 0, pick 1, pick 2, pick 3, pick 4⟩

/-! ### The builder -/

/-- An extension block in the making. -/
structure ExtensionBuilder where
  payload : Bytes
  grease : GreaseSet

/-- A list of 16-bit values, without a length. -/
def u16s (values : List UInt16) : Bytes := values.flatMap fun v ↦ beBytes 2 v.toNat

/-- A list of 16-bit values behind its length in bytes, which is a `u16`. -/
def u16Vector (values : List UInt16) : Bytes := beBytes 2 (values.length * 2) ++ u16s values

/-- A list of protocol names, each behind its length, behind the length of the whole. -/
def protocolList (protocols : List String) : Bytes :=
  let listData := protocols.flatMap fun proto ↦ beBytes 1 (utf8 proto).length ++ utf8 proto
  beBytes 2 listData.length ++ listData

namespace ExtensionBuilder

open TlsExtensions

def withGrease (grease : GreaseSet) : ExtensionBuilder := ⟨[], grease⟩

/-- Write one extension. -/
def addExtension (etype : UInt16) (data : Bytes) (b : ExtensionBuilder) : ExtensionBuilder :=
  { b with payload := b.payload ++ (Tlv.Entry.mk etype data).bytes }

def greaseWithId (etype : UInt16) (b : ExtensionBuilder) : ExtensionBuilder :=
  b.addExtension etype []

/-- The host in the clear. -/
def serverName (host : String) (b : ExtensionBuilder) : ExtensionBuilder :=
  let hostLen := UInt16.ofNat (utf8 host).length
  let listInnerLen := 1 + 2 + hostLen
  b.addExtension sni
    (beBytes 2 listInnerLen.toNat ++ [0x00] ++ beBytes 2 hostLen.toNat ++ utf8 host)

def extendedMainSecret (b : ExtensionBuilder) : ExtensionBuilder := b.addExtension ems []

/-- The values of a list, with a GREASE value in front if the profile has GREASE. -/
def withGreaseValue (hasGrease : Bool) (v : GreaseValue) (values : List UInt16) : List UInt16 :=
  if hasGrease then v.val :: values else values

def supportedGroups (groups : TlsGroups) (hasGrease : Bool) (b : ExtensionBuilder) :
    ExtensionBuilder :=
  b.addExtension TlsExtensions.supportedGroups
    (u16Vector (withGreaseValue hasGrease b.grease.group groups))

def signatureAlgorithms (algs : TlsSignatures) (b : ExtensionBuilder) : ExtensionBuilder :=
  b.addExtension TlsExtensions.signatureAlgorithms (u16Vector algs)

/-- The length of this list is a single byte. -/
def supportedVersions (versions : TlsVersions) (hasGrease : Bool) (b : ExtensionBuilder) :
    ExtensionBuilder :=
  let values := withGreaseValue hasGrease b.grease.version versions
  b.addExtension TlsExtensions.supportedVersions (beBytes 1 (values.length * 2) ++ u16s values)

/-- The shares of a client: a GREASE group with one zero byte, the post-quantum ballast if the
profile offers that group, and the X25519 key. -/
def keyShare (profile : BrowserProfile) (pubKey : Bytes) (b : ExtensionBuilder) :
    StateM OsRng ExtensionBuilder := do
  let greaseShare := if profile.hasGrease then
    beBytes 2 b.grease.group.val.toNat ++ beBytes 2 1 ++ [0x00] else []
  let ballast ←
    if profile.groups.contains TlsGroups.x25519Mlkem768 then do
      let share ← Mlkem.sampleX25519Mlkem768Share
      pure (beBytes 2 TlsGroups.x25519Mlkem768.toNat ++ beBytes 2 share.length ++ share)
    else pure []
  let x25519Share := beBytes 2 TlsGroups.x25519.toNat ++ beBytes 2 pubKey.length ++ pubKey
  let list := greaseShare ++ ballast ++ x25519Share
  return b.addExtension TlsExtensions.keyShare (beBytes 2 list.length ++ list)

/-- An encrypted hello that is not one. -/
def echGrease (b : ExtensionBuilder) : StateM OsRng ExtensionBuilder := do
  let rnd ← OsRng.fillBytes (1 + 32 + 144)
  return b.addExtension ech ([0x00] ++ beBytes 2 0x0001 ++ beBytes 2 0x0001 ++ rnd.val.take 1
    ++ beBytes 2 32 ++ (rnd.val.drop 1).take 32 ++ beBytes 2 144 ++ rnd.val.drop (1 + 32))

def applicationSettings (protocols : List String) (b : ExtensionBuilder) : ExtensionBuilder :=
  b.addExtension alps (protocolList protocols)

def alpn (protocols : List String) (b : ExtensionBuilder) : ExtensionBuilder :=
  b.addExtension TlsExtensions.alpn (protocolList protocols)

def pskKeyExchangeModes (b : ExtensionBuilder) : ExtensionBuilder :=
  b.addExtension pskModes [1, 0x01]

def compressCertificate (algorithms : List UInt16) (b : ExtensionBuilder) : ExtensionBuilder :=
  b.addExtension compressCert (beBytes 1 (algorithms.length * 2) ++ u16s algorithms)

def statusRequest (b : ExtensionBuilder) : ExtensionBuilder :=
  b.addExtension TlsExtensions.statusRequest ([0x01] ++ beBytes 2 0 ++ beBytes 2 0)

def ecPointFormats (b : ExtensionBuilder) : ExtensionBuilder :=
  b.addExtension TlsExtensions.ecPointFormats [1, 0x00]

def signedCertificateTimestamp (b : ExtensionBuilder) : ExtensionBuilder := b.addExtension sct []

def delegatedCredential (algs : TlsSignatures) (b : ExtensionBuilder) : ExtensionBuilder :=
  b.addExtension TlsExtensions.delegatedCredential (u16Vector algs)

def sessionTicket (b : ExtensionBuilder) : ExtensionBuilder :=
  b.addExtension TlsExtensions.sessionTicket []

def renegotiationInfo (b : ExtensionBuilder) : ExtensionBuilder :=
  b.addExtension TlsExtensions.renegotiationInfo [0x00]

/-- Zeros up to a target size, if an extension header fits below it. -/
def padding (targetSize overhead : ℕ) (b : ExtensionBuilder) : ExtensionBuilder :=
  let currentTotalSize := b.payload.length + overhead
  if targetSize > currentTotalSize + 4 then
    b.addExtension TlsExtensions.padding (List.replicate (targetSize - currentTotalSize - 4) 0)
  else b

/-- Fisher–Yates from the back: swap the entry at `i` with one at or before it, for `i` from the
given index down to 1. -/
def shuffleFrom (rnd : Bytes) : ℕ → Array UInt16 → Array UInt16
  | 0, middle => middle
  | i + 1, middle =>
    let r := (be16 (rnd.getD ((i + 1) * 2 + 1) 0) (rnd.getD ((i + 1) * 2) 0)).toNat
    shuffleFrom rnd i (middle.swapIfInBounds (i + 1) (r % (i + 2)))

/-- Shuffle all entries but the first and the last. -/
def shuffleMiddle (order : List UInt16) : StateM OsRng (List UInt16) := do
  let len := order.length
  if len < 4 then return order
  let middle := (order.drop 1).take (len - 2)
  let rnd ← OsRng.fillBytes (middle.length * 2)
  let shuffled := shuffleFrom rnd.val (middle.length - 1) middle.toArray
  return order.take 1 ++ shuffled.toList ++ order.drop (len - 1)

/-- Write what belongs into one slot of the order. -/
def applySlot (profile : BrowserProfile) (host : String) (pubKey : Bytes) (overhead : ℕ)
    (b : ExtensionBuilder) (extId : UInt16) : StateM OsRng ExtensionBuilder :=
  match extId with
  | greaseSlotFirst =>
    return if profile.hasGrease then b.greaseWithId b.grease.extFirst.val else b
  | greaseSlotLast =>
    return if profile.hasGrease then b.addExtension b.grease.extLast.val [0x00] else b
  | TlsExtensions.sni => return b.serverName host
  | TlsExtensions.supportedGroups => return b.supportedGroups profile.groups profile.hasGrease
  | TlsExtensions.signatureAlgorithms => return b.signatureAlgorithms profile.signatures
  | TlsExtensions.alpn => return b.alpn profile.alpn
  | TlsExtensions.sct => return b.signedCertificateTimestamp
  | TlsExtensions.ems => return b.extendedMainSecret
  | TlsExtensions.ech => b.echGrease
  | TlsExtensions.compressCert => return b.compressCertificate [0x0002]
  | TlsExtensions.delegatedCredential => return b.delegatedCredential profile.delegatedSignatures
  | TlsExtensions.sessionTicket => return b.sessionTicket
  | TlsExtensions.supportedVersions => return b.supportedVersions profile.versions profile.hasGrease
  | TlsExtensions.pskModes => return b.pskKeyExchangeModes
  | TlsExtensions.keyShare => b.keyShare profile pubKey
  | TlsExtensions.alps =>
    return if profile.alpsProtocols ≠ [] then b.applicationSettings profile.alpsProtocols else b
  | TlsExtensions.statusRequest => return b.statusRequest
  | TlsExtensions.ecPointFormats => return b.ecPointFormats
  | TlsExtensions.renegotiationInfo => return b.renegotiationInfo
  | TlsExtensions.padding =>
    return if profile.targetPaddingLen > 0 then b.padding profile.targetPaddingLen.toNat overhead
      else b
  | id => return if isGrease id && profile.hasGrease then b.greaseWithId id else b

/-- Write the whole block in the order of a profile. -/
def applyProfile (profile : BrowserProfile) (host : String) (pubKey : Bytes) (overhead : ℕ)
    (b : ExtensionBuilder) : StateM OsRng ExtensionBuilder := do
  let order ←
    if profile.shuffleExtensions then shuffleMiddle profile.extensionOrder
    else pure profile.extensionOrder
  order.foldlM (applySlot profile host pubKey overhead) b

/-! ### What the shuffle does -/

/-- The place that two bytes of entropy pick for the entry at `i`. -/
def pickOf (rnd : Bytes) (i : ℕ) : ℕ :=
  (be16 (rnd.getD (i * 2 + 1) 0) (rnd.getD (i * 2) 0)).toNat % (i + 1)

theorem shuffleFrom_eq (rnd : Bytes) (i : ℕ) (middle : Array UInt16) :
    shuffleFrom rnd i middle = FisherYates.shuffle (pickOf rnd) i middle := by
  induction i generalizing middle with
  | zero => rfl
  | succ i ih => exact ih _

/-- Nothing is lost and nothing invented. -/
theorem shuffleMiddle_perm (order : List UInt16) (rng : OsRng) :
    (shuffleMiddle order rng).1.Perm order := by
  by_cases hshort : order.length < 4
  · simp only [shuffleMiddle, if_pos hshort]
    exact List.Perm.refl order
  · have hsplit : order.take 1 ++ (order.drop 1).take (order.length - 2)
        ++ order.drop (order.length - 1) = order := by
      have hdrop : order.drop (order.length - 1)
          = (order.drop 1).drop (order.length - 2) := by
        rw [List.drop_drop]
        congr 1
        omega
      rw [hdrop, List.append_assoc, List.take_append_drop, List.take_append_drop]
    simp only [shuffleMiddle, if_neg hshort]
    refine List.Perm.trans ?_ (List.Perm.of_eq hsplit)
    refine List.Perm.append_right _ (List.Perm.append_left _ ?_)
    have hperm := FisherYates.shuffle_perm
      (pickOf (OsRng.fillBytes (((order.drop 1).take (order.length - 2)).length * 2) rng).1.val)
      (((order.drop 1).take (order.length - 2)).length - 1)
      ((order.drop 1).take (order.length - 2)).toArray
    rw [← shuffleFrom_eq] at hperm
    exact hperm.toList

/-! ### Lengths -/

theorem length_u16s (values : List UInt16) : (u16s values).length = 2 * values.length := by
  induction values with
  | nil => rfl
  | cons v values ih =>
    rw [u16s, List.flatMap_cons, List.length_append, length_beBytes, ← u16s, ih, List.length_cons]
    omega

theorem length_u16Vector (values : List UInt16) :
    (u16Vector values).length = 2 + 2 * values.length := by
  rw [u16Vector, List.length_append, length_beBytes, length_u16s]

theorem length_withGreaseValue (hasGrease : Bool) (v : GreaseValue) (values : List UInt16) :
    (withGreaseValue hasGrease v values).length = values.length + hasGrease.toNat := by
  cases hasGrease <;> rfl

theorem length_echGrease (rnd : ByteArr 177) :
    ([0x00] ++ beBytes 2 0x0001 ++ beBytes 2 0x0001 ++ rnd.val.take 1 ++ beBytes 2 32
      ++ (rnd.val.drop 1).take 32 ++ beBytes 2 144 ++ rnd.val.drop (1 + 32)).length = 186 := by
  simp only [List.length_append, length_beBytes, List.length_take, List.length_drop,
    ByteArr.length_val, List.length_cons, List.length_nil]
  rfl

theorem ne_of_isGrease {v w : UInt16} (hv : isGrease v = true) (hw : isGrease w = false) :
    v ≠ w := by
  rintro rfl
  rw [hv] at hw
  cases hw

end ExtensionBuilder
