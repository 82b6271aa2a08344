import Nrxp.Lib.Bytes

/-!
# Time-based authentication tags

A tag is the first half of an HMAC over a time step, a step being a minute. There are two kinds, on
disjoint inputs: the tag of a frame, keyed with the session, and the tag of a client hello, which
also covers the client's salt and ephemeral key.

The clock is an argument everywhere: the seconds since the epoch, as `now_unix_secs` returns them.
-/

/-- The seconds in a time step. -/
def authTimeStep : UInt64 := 60

/-- How many neighbouring steps a verifier tolerates, on either side. -/
def authWindowSize : ℕ := 2

/-- HMAC-SHA256, as a parameter: `hmac key message`. -/
abbrev HmacSha256 : Type := Bytes → Bytes → ByteArr 32

/-- A MAC to compute with, that adds up bytes. -/
def HmacSha256.sum : HmacSha256 := fun key message ↦
  ByteArr.fill 32 ((key ++ message).foldl (· + ·) 0)

/-- The first 16 bytes of a MAC. -/
def truncateTag (mac : ByteArr 32) : ByteArr 16 := ⟨mac.val.take 16, by simp⟩

/-- The steps a verifier at step `current` tries: `authWindowSize` on either side, saturating. -/
def stepWindow (current : UInt64) : List UInt64 :=
  let first := current.toNat - authWindowSize
  let last := min (current.toNat + authWindowSize) (2 ^ 64 - 1)
  (List.range' first (last + 1 - first)).map UInt64.ofNat

/-- What the codecs keep of a session: the key of the frame tags. -/
structure SessionAuth where
  authKey : ByteArr 32

namespace SessionAuth

variable (hmac : HmacSha256)

/-- The tag of one step. -/
def computeTag (secret : Bytes) (step : UInt64) : ByteArr 16 :=
  truncateTag (hmac secret (beBytes 8 step.toNat))

/-- The tag of the current moment, for outgoing frames. -/
def generateCurrentTag (auth : SessionAuth) (now : UInt64) : ByteArr 16 :=
  computeTag hmac auth.authKey.val (now / authTimeStep)

/-- The domain separator of hello tags. -/
def handshakeTagLabel : Bytes := utf8 "nrxp-handshake-v3"

/-- The tag of a client hello for one step, bound to its salt and its ephemeral key. -/
def computeHandshakeTag (secret : Bytes) (step : UInt64) (random peerPublic : ByteArr 32) :
    ByteArr 16 :=
  truncateTag
    (hmac secret (handshakeTagLabel ++ beBytes 8 step.toNat ++ random.val ++ peerPublic.val))

/-- The tag of a client hello at the current moment. -/
def generateHandshakeTag (auth : SessionAuth) (now : UInt64) (random peerPublic : ByteArr 32) :
    ByteArr 16 :=
  computeHandshakeTag hmac auth.authKey.val (now / authTimeStep) random peerPublic

/-- Whether a step of the window gives the tag. Every candidate is computed and compared. -/
def matchesWindow (candidate : UInt64 → ByteArr 16) (now : UInt64) (receivedTag : ByteArr 16) :
    Bool :=
  (stepWindow (now / authTimeStep)).foldl
    (fun matched step ↦ matched || decide (candidate step = receivedTag)) false

/-- Check a hello tag against the window. -/
def verifyHandshakeTag (auth : SessionAuth) (now : UInt64) (receivedTag : ByteArr 16)
    (random peerPublic : ByteArr 32) : Bool :=
  matchesWindow (fun step ↦ computeHandshakeTag hmac auth.authKey.val step random peerPublic) now
    receivedTag

/-- Check a frame tag against the window. -/
def verifyTag (auth : SessionAuth) (now : UInt64) (receivedTag : ByteArr 16) : Bool :=
  matchesWindow (computeTag hmac auth.authKey.val) now receivedTag

end SessionAuth

/-! ### The window -/

/-- Or-ing a test over a list decides existence. -/
theorem foldl_or_eq_true_iff {α : Type} (p : α → Bool) (l : List α) (b : Bool) :
    l.foldl (fun acc a ↦ acc || p a) b = true ↔ b = true ∨ ∃ a ∈ l, p a = true := by
  induction l generalizing b with
  | nil => simp
  | cons x xs ih => simp [ih, or_assoc]

/-- A step is in the window exactly when it is within `authWindowSize` of the current one. -/
theorem mem_stepWindow {current s : UInt64} :
    s ∈ stepWindow current ↔
      current.toNat - authWindowSize ≤ s.toNat ∧ s.toNat ≤ current.toNat + authWindowSize := by
  have hs := s.toNat_lt
  have hc := current.toNat_lt
  simp only [stepWindow, List.mem_map, List.mem_range'_1, authWindowSize]
  constructor
  · rintro ⟨n, hn, rfl⟩
    have : (UInt64.ofNat n).toNat = n := by
      rw [UInt64.toNat_ofNat', Nat.mod_eq_of_lt (by omega)]
    omega
  · intro h
    exact ⟨s.toNat, by omega, UInt64.ofNat_toNat⟩

namespace SessionAuth

/-- **What a verifier accepts**: a tag some step of the window gives. -/
theorem matchesWindow_iff {candidate : UInt64 → ByteArr 16} {now : UInt64} {tag : ByteArr 16} :
    matchesWindow candidate now tag = true ↔
      ∃ s ∈ stepWindow (now / authTimeStep), candidate s = tag := by
  rw [matchesWindow, foldl_or_eq_true_iff]
  simp

/-- A tag made at one moment is accepted at another when the steps are near. -/
theorem matchesWindow_of_near {candidate : UInt64 → ByteArr 16} {now now' : UInt64}
    (h : (now' / authTimeStep).toNat ≤ (now / authTimeStep).toNat + authWindowSize)
    (h' : (now / authTimeStep).toNat ≤ (now' / authTimeStep).toNat + authWindowSize) :
    matchesWindow candidate now (candidate (now' / authTimeStep)) = true :=
  matchesWindow_iff.mpr ⟨_, mem_stepWindow.mpr ⟨by omega, h⟩, rfl⟩

end SessionAuth
