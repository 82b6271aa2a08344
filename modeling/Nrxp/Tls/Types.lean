import Nrxp.Lib.Bytes

/-!
# TLS wire constants

The enumerations of the record and hello headers, with their codes and the checks that read them
back.
-/

/-- The type of a TLS record. -/
inductive ContentType where
  | changeCipherSpec
  | handshake
  | applicationData
  | alert
  deriving DecidableEq, Repr

namespace ContentType

/-- The code on the wire. -/
def toByte : ContentType → UInt8
  | changeCipherSpec => 0x14
  | handshake => 0x16
  | applicationData => 0x17
  | alert => 0x15

/-- Read a code. -/
def tryFrom (value : UInt8) : Except String ContentType :=
  match value with
  | 0x14 => .ok changeCipherSpec
  | 0x16 => .ok handshake
  | 0x17 => .ok applicationData
  | 0x15 => .ok alert
  | _ => .error "This is not ContentType"

@[simp] theorem tryFrom_toByte (c : ContentType) : tryFrom c.toByte = .ok c := by
  cases c <;> rfl

end ContentType

/-- A TLS version. -/
inductive ProtocolVersion where
  | tls10
  | tls12
  | tls13
  deriving DecidableEq, Repr

namespace ProtocolVersion

/-- The code on the wire. -/
def toU16 : ProtocolVersion → UInt16
  | tls10 => 0x0301
  | tls12 => 0x0303
  | tls13 => 0x0304

/-- Read a code. -/
def tryFrom (value : UInt16) : Except String ProtocolVersion :=
  match value with
  | 0x0301 => .ok tls10
  | 0x0303 => .ok tls12
  | 0x0304 => .ok tls13
  | _ => .error "This is not Protocol Version"

@[simp] theorem tryFrom_toU16 (v : ProtocolVersion) : tryFrom v.toU16 = .ok v := by
  cases v <;> rfl

end ProtocolVersion

/-- The type of a hello message. -/
inductive HelloType where
  | client
  | server
  deriving DecidableEq, Repr

namespace HelloType

/-- The code on the wire. -/
def toByte : HelloType → UInt8
  | client => 0x01
  | server => 0x02

/-- Read a code. -/
def tryFrom (value : UInt8) : Except String HelloType :=
  match value with
  | 0x01 => .ok client
  | 0x02 => .ok server
  | _ => .error "This is not Hello header"

@[simp] theorem tryFrom_toByte (t : HelloType) : tryFrom t.toByte = .ok t := by
  cases t <;> rfl

end HelloType
