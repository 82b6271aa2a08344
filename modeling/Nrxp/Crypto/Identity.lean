import Nrxp.Lib.Bytes

/-!
# Ephemeral keys and credentials

X25519 is a parameter. `ECDH` is the ephemeral pair of one handshake, whose private half is burnt
once the keys are derived; `Identity` is what a side knows for longer than a handshake, the client
the node's public static key, the node the private one.
-/

/-- The system's randomness: the bytes that will be drawn, and the coefficients below the modulus
that rejection sampling will keep. Words it rejects leave no trace. -/
structure OsRng where
  bytes : Entropy
  coefficients : Stream' (Fin 3329)

namespace OsRng

/-- Draw `n` bytes. -/
def fillBytes (n : ℕ) : StateM OsRng (ByteArr n) := fun rng ↦
  (⟨rng.bytes.take n, Stream'.length_take n rng.bytes⟩, { rng with bytes := rng.bytes.drop n })

/-- Draw `n` coefficients. -/
def sampleCoefficients (n : ℕ) : StateM OsRng (List (Fin 3329)) := fun rng ↦
  (rng.coefficients.take n, { rng with coefficients := rng.coefficients.drop n })

/-- A source to compute with, that repeats one byte. -/
def repeating (b : UInt8) : OsRng := ⟨Stream'.const b, Stream'.const 0⟩

end OsRng

/-- X25519 of the `x25519-dalek` crate, as a parameter. -/
structure X25519 where
  /-- The public key of a secret. -/
  publicKey : ByteArr 32 → ByteArr 32
  /-- `diffieHellman secret public`: the shared secret. -/
  diffieHellman : ByteArr 32 → ByteArr 32 → ByteArr 32

/-- Both ends of an exchange compute one secret. -/
def X25519.Commutes (x : X25519) : Prop :=
  ∀ a b, x.diffieHellman a (x.publicKey b) = x.diffieHellman b (x.publicKey a)

/-- An exchange to compute with, that adds up bytes. -/
def X25519.sum : X25519 where
  publicKey secret := secret
  diffieHellman secret publicKey :=
    ⟨List.zipWith (· + ·) secret.val publicKey.val, by simp [List.length_zipWith]⟩

theorem X25519.sum_commutes : X25519.sum.Commutes := fun _ _ ↦
  Subtype.ext (List.zipWith_comm_of_comm (fun x y ↦ UInt8.add_comm x y))

/-- One side of an ephemeral exchange. -/
structure ECDH where
  publicKey : ByteArr 32
  /-- Gone once it is burnt. -/
  privateKey : Option (ByteArr 32)

namespace ECDH

variable (x : X25519)

/-- A fresh pair. -/
def new : StateM OsRng ECDH := do
  let secret ← OsRng.fillBytes 32
  return ⟨x.publicKey secret, some secret⟩

/-- The shared secret with a public key, which does not use the private key up. -/
def dh (e : ECDH) (publicKey : ByteArr 32) : Option (ByteArr 32) :=
  e.privateKey.map (x.diffieHellman · publicKey)

/-- Destroy the private key. -/
def burn (e : ECDH) : ECDH := { e with privateKey := none }

end ECDH

/-- What a client knows of its node. -/
structure PeerIdentity where
  secret : ByteArr 32
  staticPublic : ByteArr 32

/-- What a node knows of itself. -/
structure LocalIdentity where
  secret : ByteArr 32
  staticPrivate : ByteArr 32
  strict : Bool

/-- The credentials of a side. -/
inductive Identity where
  | ofPeer (p : PeerIdentity)
  | ofLocal (l : LocalIdentity)

namespace Identity

/-- The secret the node shares with its clients: the key of hello tags. -/
def secret : Identity → ByteArr 32
  | ofPeer p => p.secret
  | ofLocal l => l.secret

/-- The second exchange: the client's ephemeral key with the node's static one. -/
def staticDh (x : X25519) (id : Identity) (ecdh : ECDH) (peerEphemeral : ByteArr 32) :
    Option (ByteArr 32) :=
  match id with
  | ofPeer p => ecdh.dh x p.staticPublic
  | ofLocal l => some (x.diffieHellman l.staticPrivate peerEphemeral)

/-- Whether clients of the older version are to be refused. -/
def strict : Identity → Bool
  | ofPeer _ => true
  | ofLocal l => l.strict

end Identity
