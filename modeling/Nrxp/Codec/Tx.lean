import Nrxp.Bridge.AppData
import Nrxp.Crypto.ChaCha
import Nrxp.Crypto.SessionAuth
import Nrxp.Frame

/-!
# The sending codec

Frames go out in encrypted application-data records, several to a record. `encodeBatch` fills
records greedily; a frame too large to share a record travels alone. Padding is decided for the
record as a whole and rides at the end of its last frame; `PadShaper` decides it, from boundaries
that each connection draws for itself.
-/

/-- The most a record's length field may hold. -/
def maxRecordLen : ℕ := maxRecordPlaintext + aeadTagLen

/-- The length an item takes in a record. -/
def Item.wireLen (item : Item) : ℕ := Frame.wireLen item.payload.length 0

/-- Binary search in a strictly increasing list: the index of the element, or where it would go. -/
def binarySearch (l : List ℕ) (x : ℕ) : Except ℕ (Fin l.length) :=
  let idx := l.countP (· < x)
  if h : ∃ h : idx < l.length, l[idx] = x then .ok ⟨idx, h.1⟩ else .error idx

/-! ### The shaper -/

/-- The length quantiser of one connection: its boundaries, in increasing order. -/
structure PadShaper where
  boundaries : List ℕ
  /-- The boundaries increase strictly. -/
  increasing : boundaries.Pairwise (· < ·)

/-- What is drawn for one gap: the cap, and what the product with the random ratio comes to. The
product is of floats, and nothing is assumed about it. -/
structure GapDraw where
  scaled : ℕ
  cap : ℕ
  /-- The range of the draw. -/
  le_cap : 128 ≤ cap
  cap_le : cap ≤ 320

/-- The least gap between boundaries. -/
def minGap : ℕ := 16

/-- The gap a draw gives: the product, clamped. -/
def GapDraw.gap (draw : GapDraw) : ℕ := max minGap (min draw.scaled draw.cap)

/-- What is drawn for a shaper. -/
structure ShaperDraws where
  floor : ℕ
  /-- The range of the draw. -/
  le_floor : 64 ≤ floor
  floor_le : floor ≤ 256
  gaps : Stream' GapDraw

namespace PadShaper

/-- The boundaries from `current` on. The sum saturates. -/
def boundariesFrom (gaps : Stream' GapDraw) (current : ℕ) : List ℕ :=
  if _h : current < maxRecordLen then
    current :: boundariesFrom gaps.tail (min (current + gaps.head.gap) (2 ^ 64 - 1))
  else [maxRecordLen]
termination_by maxRecordLen - current
decreasing_by
  have hgap : minGap ≤ gaps.head.gap := Nat.le_max_left _ _
  simp only [maxRecordLen, maxRecordPlaintext, aeadTagLen, minGap] at _h hgap ⊢
  omega

/-- No boundary is below the first, unless that is beyond the last. -/
theorem le_of_mem_boundariesFrom {gaps : Stream' GapDraw} {current b : ℕ}
    (hb : b ∈ boundariesFrom gaps current) : min current maxRecordLen ≤ b := by
  fun_induction boundariesFrom gaps current with
  | case1 gaps current h ih =>
    rcases List.mem_cons.mp hb with rfl | hb
    · exact Nat.min_le_left _ _
    · have := ih hb
      simp only [maxRecordLen, maxRecordPlaintext, aeadTagLen] at h this ⊢
      omega
  | case2 gaps current h =>
    obtain rfl := List.mem_singleton.mp hb
    exact Nat.min_le_right _ _

theorem boundariesFrom_increasing (gaps : Stream' GapDraw) (current : ℕ) :
    (boundariesFrom gaps current).Pairwise (· < ·) := by
  fun_induction boundariesFrom gaps current with
  | case1 gaps current h ih =>
    refine List.pairwise_cons.mpr ⟨fun b hb ↦ ?_, ih⟩
    have hle := le_of_mem_boundariesFrom hb
    have hgap : minGap ≤ gaps.head.gap := Nat.le_max_left _ _
    simp only [maxRecordLen, maxRecordPlaintext, aeadTagLen, minGap] at h hgap hle
    omega
  | case2 gaps current h => exact List.pairwise_singleton _ _

/-- A shaper of its own for every connection. -/
def new (draws : ShaperDraws) : PadShaper :=
  ⟨boundariesFrom draws.gaps draws.floor, boundariesFrom_increasing _ _⟩

end PadShaper

/-- The length a record with that much plaintext is padded to: the least boundary above. -/
def PadShaper.targetRecordLen (shaper : PadShaper) (plaintextLen : ℕ) : ℕ :=
  let recordLen := plaintextLen + aeadTagLen
  if recordLen ≥ maxRecordLen then recordLen
  else
    match binarySearch shaper.boundaries recordLen with
    | .ok idx => shaper.boundaries[idx]
    | .error idx => if h : idx < shaper.boundaries.length then shaper.boundaries[idx] else recordLen

/-! ### The codec -/

/-- The sending direction. `rng` is where the padding bytes come from. -/
structure TxCodec where
  crypto : ChaChaStream
  auth : SessionAuth
  shaper : PadShaper
  rng : Entropy

namespace TxCodec

variable (A : ChaCha20Poly1305) (hmac : HmacSha256)

def new (crypto : ChaChaStream) (auth : SessionAuth) (shaper : PadShaper) (rng : Entropy) :
    TxCodec :=
  ⟨crypto, auth, shaper, rng⟩

/-- The plaintext of a record: the frames in order, `pad` bytes of padding in the last. -/
def putFrames (tag : ByteArr 16) (pad : ℕ) : List Item → Entropy → Bytes × Entropy
  | [], rng => ([], rng)
  | item :: rest, rng =>
    let padHere := if rest.isEmpty then UInt16.ofNat pad else 0
    let frame := Frame.new item.streamId item.frameType item.payload
    let (bytes, rng) := frame.intoBytes tag padHere rng
    let (more, rng) := putFrames tag pad rest rng
    (bytes ++ more, rng)

/-- Lay frames out, encrypt them in one go, and wrap the result. Panics on an empty list. -/
def flushRecord (tag : ByteArr 16) (frames : List Item) (pad : ℕ) :
    Exec TxCodec TlsError Bytes := fun tx ↦
  if frames.isEmpty then (.panic, tx)
  else
    let (buf, rng) := putFrames tag pad frames tx.rng
    match tx.crypto.encrypt A buf with
    | (.ok cipher, crypto) => (.ok (TlsBridge.packAppData cipher), { tx with crypto, rng })
    | (.err _, crypto) => (.err ⟨.tls "Encryption failed", .drop, []⟩, { tx with crypto, rng })
    | (.panic, crypto) => (.panic, { tx with crypto, rng })

/-- A record padded to the shaper's target. Panics if the plaintext exceeds a record. -/
def flushShaped (tag : ByteArr 16) (frames : List Item) (plainLen : ℕ) :
    Exec TxCodec TlsError Bytes := do
  let tx ← Exec.get
  let room ← Exec.lift
    (.expect (if plainLen ≤ maxRecordPlaintext then some (maxRecordPlaintext - plainLen) else none))
  let pad := min (tx.shaper.targetRecordLen plainLen - (plainLen + aeadTagLen)) room
  flushRecord A tag frames pad

/-- The batching loop: `batch` is what the current record holds so far, `out` what was emitted. -/
def batchLoop (tag : ByteArr 16) :
    List Item → List Item → ℕ → Bytes → Exec TxCodec TlsError Bytes
  | [], batch, batchLen, out =>
    if batch.isEmpty then pure out
    else do
      let record ← flushShaped A tag batch batchLen
      pure (out ++ record)
  | item :: items, batch, batchLen, out =>
    let need := Frame.wireLen item.payload.length 0
    if need > maxRecordPlaintext then
      -- too large to share a record: what is waiting goes first, then the frame on its own
      if batch.isEmpty then do
        let own ← flushRecord A tag [item] 0
        batchLoop tag items batch batchLen (out ++ own)
      else do
        let record ← flushShaped A tag batch batchLen
        let own ← flushRecord A tag [item] 0
        batchLoop tag items [] 0 (out ++ record ++ own)
    else if batchLen + need > maxRecordPlaintext then do
      let record ← flushShaped A tag batch batchLen
      batchLoop tag items [item] need (out ++ record)
    else
      batchLoop tag items (batch ++ [item]) (batchLen + need) out

/-- Encode a batch of frames into as few records as they fit. -/
def encodeBatch (now : UInt64) (items : List Item) : Exec TxCodec TlsError Bytes := do
  if items.isEmpty then return []
  let tx ← Exec.get
  batchLoop A (tx.auth.generateCurrentTag hmac now) items [] 0 []

/-- Encode one frame. -/
def encodeFrame (now : UInt64) (streamId : UInt32) (frameType : FrameType) (payload : Bytes) :
    Exec TxCodec TlsError Bytes :=
  encodeBatch A hmac now [⟨streamId, frameType, payload⟩]

/-- The length field of a record with one empty frame. -/
def emptyCoverRecord : ℕ := frameHeaderSize + aeadTagLen

/-- Encode a cover frame whose record has the given length, as far as lengths allow. -/
def encodeCover (now : UInt64) (targetRecordLen : ℕ) : Exec TxCodec TlsError Bytes := do
  let target := max emptyCoverRecord (min targetRecordLen maxRecordLen)
  let pad := target - emptyCoverRecord
  let tx ← Exec.get
  flushRecord A (tx.auth.generateCurrentTag hmac now) [⟨0, .cover, []⟩] pad

end TxCodec

/-- A call of the sending codec. -/
inductive EncodeCall where
  | batch (items : List Item)
  | frame (streamId : UInt32) (frameType : FrameType) (payload : Bytes)
  | cover (targetRecordLen : ℕ)

namespace EncodeCall

variable (A : ChaCha20Poly1305) (hmac : HmacSha256)

/-- Make the call, at a clock reading. -/
def run (now : UInt64) : EncodeCall → Exec TxCodec TlsError Bytes
  | batch items => TxCodec.encodeBatch A hmac now items
  | frame streamId frameType payload => TxCodec.encodeFrame A hmac now streamId frameType payload
  | cover targetRecordLen => TxCodec.encodeCover A hmac now targetRecordLen

/-- The frames a call submits. -/
def items : EncodeCall → List Item
  | batch items => items
  | frame streamId frameType payload => [⟨streamId, frameType, payload⟩]
  | cover _ => [⟨0, .cover, []⟩]

end EncodeCall

/-- Make calls in order, each at its own clock reading, and concatenate the output. -/
def encodeAll (A : ChaCha20Poly1305) (hmac : HmacSha256) :
    List (UInt64 × EncodeCall) → Exec TxCodec TlsError Bytes
  | [] => pure []
  | (now, call) :: calls => do
    let out ← call.run A hmac now
    let more ← encodeAll A hmac calls
    pure (out ++ more)
