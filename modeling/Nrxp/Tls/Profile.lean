import Nrxp.Tls.Types

/-!
# Fingerprint profiles

What a hello message is to look like. A `BrowserProfile` lists what goes into a client hello and in
which order, a `ServerProfile` how a server answers. The values are the placeholders of the public
repository.
-/

/-- Key-exchange groups, in order of preference. -/
abbrev TlsGroups : Type := List UInt16

namespace TlsGroups

def x25519 : UInt16 := 0x001d
def secp256r1 : UInt16 := 0x0017
def secp521r1 : UInt16 := 0x0019

/-- The hybrid post-quantum group. -/
def x25519Mlkem768 : UInt16 := 0x11ec

def chromium : TlsGroups := [x25519, secp256r1]
def chromiumPq : TlsGroups := [x25519Mlkem768, x25519]
def firefox : TlsGroups := [x25519, secp256r1, secp521r1]
def safari : TlsGroups := [x25519, secp256r1]

end TlsGroups

/-- Signature algorithms. -/
abbrev TlsSignatures : Type := List UInt16

namespace TlsSignatures

def chromePq : TlsSignatures := [0x0904, 0x0403, 0x0804]
def browserStandard : TlsSignatures := [0x0403, 0x0804, 0x0401, 0x0503, 0x0805, 0x0501, 0x0806]

end TlsSignatures

/-- TLS versions. -/
abbrev TlsVersions : Type := List UInt16

namespace TlsVersions

def tls13Only : TlsVersions := [0x0304]
def modern : TlsVersions := [0x0304, 0x0303]

/-- The highest version of a set. -/
def max (versions : TlsVersions) : ProtocolVersion :=
  if versions.contains 0x0304 then .tls13
  else if versions.contains 0x0303 then .tls12
  else .tls10

end TlsVersions

namespace TlsExtensions

@[match_pattern] def sni : UInt16 := 0x0000
@[match_pattern] def statusRequest : UInt16 := 0x0005
@[match_pattern] def supportedGroups : UInt16 := 0x000a
@[match_pattern] def ecPointFormats : UInt16 := 0x000b
@[match_pattern] def signatureAlgorithms : UInt16 := 0x000d
@[match_pattern] def alpn : UInt16 := 0x0010
@[match_pattern] def sct : UInt16 := 0x0012
@[match_pattern] def padding : UInt16 := 0x0015
@[match_pattern] def ems : UInt16 := 0x0017
@[match_pattern] def compressCert : UInt16 := 0x001b
@[match_pattern] def delegatedCredential : UInt16 := 0x0022
@[match_pattern] def sessionTicket : UInt16 := 0x0023
@[match_pattern] def supportedVersions : UInt16 := 0x002b
@[match_pattern] def pskModes : UInt16 := 0x002d
@[match_pattern] def keyShare : UInt16 := 0x0033
@[match_pattern] def alps : UInt16 := 0x44cd
@[match_pattern] def ech : UInt16 := 0xfe0d
@[match_pattern] def renegotiationInfo : UInt16 := 0xff01

/-- Where the first GREASE extension goes. -/
@[match_pattern] def greaseSlotFirst : UInt16 := 0x0a0a

/-- Where the last GREASE extension goes. -/
@[match_pattern] def greaseSlotLast : UInt16 := 0x2a2a

/-- Whether an id is a GREASE value: both bytes equal, of the form `0x?a`. -/
def isGrease (id : UInt16) : Bool :=
  let low : UInt16 := id &&& 0x00ff
  let high : UInt16 := id >>> 8
  if id &&& (0x0f0f : UInt16) ≠ 0x0a0a then false else low == high

end TlsExtensions

/-- The order of the extensions of a client hello. -/
abbrev ExtensionOrder : Type := List UInt16

namespace ExtensionOrder

open TlsExtensions

def chromium131 : ExtensionOrder :=
  [0xaaaa, sni, supportedGroups, signatureAlgorithms, keyShare, supportedVersions, padding]

def chrome140 : ExtensionOrder :=
  [greaseSlotFirst, sni, supportedGroups, keyShare, supportedVersions, signatureAlgorithms,
    greaseSlotLast]

def edge130 : ExtensionOrder :=
  [0x1a1a, sni, supportedGroups, signatureAlgorithms, keyShare, supportedVersions, 0x3a3a, padding]

def firefox133 : ExtensionOrder :=
  [sni, renegotiationInfo, supportedGroups, keyShare, supportedVersions, signatureAlgorithms]

def safari17 : ExtensionOrder :=
  [sni, renegotiationInfo, supportedGroups, keyShare, supportedVersions]

end ExtensionOrder

/-- The client fingerprint of a browser. -/
structure BrowserProfile where
  groups : TlsGroups
  signatures : TlsSignatures
  delegatedSignatures : TlsSignatures
  versions : TlsVersions
  alpn : List String
  extensionOrder : ExtensionOrder
  cipherSuites : List UInt16
  recordLayerVersion : ProtocolVersion
  /-- The size to pad the hello to; zero for none. -/
  targetPaddingLen : UInt16
  alpsProtocols : List String
  hasGrease : Bool
  /-- Shuffle all extensions but the first and the last, anew for each connection. -/
  shuffleExtensions : Bool

namespace BrowserProfile

def chrome140 : BrowserProfile where
  groups := .chromiumPq
  signatures := .chromePq
  delegatedSignatures := .chromePq
  versions := .modern
  recordLayerVersion := .tls10
  cipherSuites := [0x1301, 0x1302, 0x1303]
  alpn := ["h2", "http/1.1"]
  extensionOrder := .chrome140
  hasGrease := true
  shuffleExtensions := true
  alpsProtocols := ["h2"]
  targetPaddingLen := 0

def chrome131 : BrowserProfile where
  groups := .chromium
  signatures := .browserStandard
  delegatedSignatures := .browserStandard
  versions := .tls13Only
  recordLayerVersion := .tls10
  cipherSuites := [0x1301, 0x1302, 0x1303]
  alpn := ["h2", "http/1.1"]
  extensionOrder := .chromium131
  hasGrease := true
  shuffleExtensions := true
  alpsProtocols := ["h2"]
  targetPaddingLen := 512

def firefox130 : BrowserProfile where
  groups := .firefox
  signatures := .browserStandard
  delegatedSignatures := .browserStandard
  versions := .modern
  recordLayerVersion := .tls12
  cipherSuites := [0x1301, 0x1302, 0x1303]
  alpn := ["h2", "http/1.1"]
  extensionOrder := .firefox133
  hasGrease := false
  shuffleExtensions := false
  alpsProtocols := []
  targetPaddingLen := 0

def edge130 : BrowserProfile := { chrome131 with extensionOrder := .edge130 }

def safari17 : BrowserProfile :=
  { firefox130 with groups := .safari, extensionOrder := .safari17 }

/-- The profiles that sessions rotate through. -/
def all : List BrowserProfile := [chrome140]

/-- The profile of a session, and of all its connections, by a hash of its id. -/
def forSession (hash : String → UInt64) (sessionId : String) : BrowserProfile :=
  all.get ⟨(hash sessionId).toNat % all.length, Nat.mod_lt _ (by decide)⟩

/-- The profiles of the repository. -/
def shipped : List BrowserProfile := [chrome140, chrome131, firefox130, edge130, safari17]

end BrowserProfile

/-- How a server answers. -/
structure ServerProfile where
  versions : TlsVersions
  recordLayerVersion : ProtocolVersion
  cipherSuites : List UInt16
  /-- Prefer the server's order of cipher suites to the client's. -/
  honorCipherOrder : Bool

namespace ServerProfile

def modern : ServerProfile := ⟨.modern, .tls12, [0x1301, 0x1302, 0x1303], true⟩

def compat : ServerProfile :=
  ⟨.modern, .tls12, [0x1301, 0x1302, 0x1303, 0xc02b, 0xc02f, 0xc02c, 0xc030], true⟩

end ServerProfile
