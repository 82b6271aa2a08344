import Nrxp.Codec.Injection
import Nrxp.Handshake.Agreement
import Mathlib.Logic.Relation

/-!
# A session

Two sides and everything that can happen between them: bytes arrive at a side, a side is asked to
read, a side is asked to send. What calls these operations is the tunnel, which is not part of the
repository; their order within a side is the documented one. The client writes its hello, both
sides write the record for middleboxes right after their hello, the keys of the hello exchange load
the cipher, the cipher makes the codecs, and from then on frames are exchanged.

The order of events is free, and so are the pieces bytes arrive in. A run goes on after errors. What
a network may do is a condition on the events of a run: `Faithful` networks deliver what was written
on the other side, and a network that is not faithful may deliver anything.
-/

open TlsBridge

/-! ### The pair of codecs -/

/-- Both directions of a side, until they are handed out. -/
structure Codec where
  tx : TxCodec
  rx : RxCodec

namespace Codec

/-- The codecs of a session, from its cipher and the key of its frame tags. -/
def new (cipher : ChaChaCipher) (authKey : ByteArr 32) (draws : ShaperDraws) (rng : Entropy) :
    Codec :=
  let (rxStream, txStream) := cipher.split
  let auth := SessionAuth.mk authKey
  ⟨.new txStream auth (.new draws) rng, .new rxStream auth []⟩

/-- Hand them out. -/
def split (codec : Codec) : RxCodec × TxCodec := (codec.rx, codec.tx)

end Codec

/-! ### One side -/

/-- The primitives both sides are built with. -/
structure Primitives where
  aead : ChaCha20Poly1305
  x25519 : X25519
  hkdf : HkdfSha256
  hmac : HmacSha256

/-- An error of one of the operations. -/
inductive SessionError where
  | tls (error : TlsError)
  | app (error : AppError)

/-- The part a side plays. -/
inductive Role where
  | client
  | server (profile : ServerProfile)

/-- How far a side has come in what it reads. -/
inductive Phase where
  /-- The hello of the other side is awaited. -/
  | hello
  /-- The codecs are there; the record for middleboxes is awaited. -/
  | ccs (codec : Codec)
  /-- Frames are read. -/
  | data (codec : Codec)

namespace Phase

def codec : Phase → Option Codec
  | hello => none
  | ccs codec => some codec
  | data codec => some codec

/-- Put the sending codec back. -/
def putTx (tx : TxCodec) : Phase → Phase
  | hello => hello
  | ccs codec => ccs { codec with tx }
  | data codec => data { codec with tx }

end Phase

/-- A side of a session. The last four fields are history. -/
structure Endpoint where
  role : Role
  keys : SessionKeys
  phase : Phase
  /-- Bytes that arrived and were not taken off yet. -/
  buffer : Bytes
  /-- What its codecs will draw. -/
  draws : ShaperDraws
  rng : Entropy
  /-- All bytes that arrived. -/
  fed : Bytes
  /-- All bytes it wrote. -/
  written : Bytes
  /-- All frames it was given to send, and sent. -/
  submitted : List Item
  /-- All frames it returned. -/
  returned : List Frame

namespace Endpoint

variable (P : Primitives)

/-- Call an operation on the read buffer. -/
def onBuffer {α : Type} (m : Exec Bytes TlsError α) : Exec Endpoint SessionError α :=
  (m.mapErr .tls).zoom buffer fun buffer e ↦ { e with buffer }

/-- Call an operation on the keys. -/
def onKeys {ε α : Type} (error : ε → SessionError) (m : Exec SessionKeys ε α) :
    Exec Endpoint SessionError α :=
  (m.mapErr error).zoom keys fun keys e ↦ { e with keys }

/-- Write to the other side. -/
def write (bytes : Bytes) : Exec Endpoint SessionError Unit :=
  Exec.modify fun e ↦ { e with written := e.written ++ bytes }

/-- Make the codecs from the keys. -/
def openCodec : Exec Endpoint SessionError Unit := do
  let e ← Exec.get
  let aead ← Exec.lift (e.keys.getAeadParameters.mapErr .app)
  let cipher := ChaChaCipher.new.setKeys aead.txKey aead.txIv aead.rxKey aead.rxIv
  Exec.modify fun e ↦ { e with phase := .ccs (.new cipher e.keys.authKey e.draws e.rng) }

/-- Take in the hello of the other side: a client derives its keys, a server answers. -/
def acceptHello (now : UInt64) (message : HandshakeMessage) :
    Role → Exec Endpoint SessionError Unit
  | .client => do
    let _ ← onKeys .app
      (SessionKeys.updateKeys P.x25519 P.hkdf message.random message.extensions false)
    openCodec
  | .server profile => do
    let (answer, _) ← onKeys .tls (wrapServerHello P.x25519 P.hkdf P.hmac now message profile)
    openCodec
    write (answer ++ buildMiddleboxCcs)

/-- Read that hello. -/
def readHello (now : UInt64) : Exec Endpoint SessionError Unit := do
  match ← onBuffer unpackHandshake with
  | none => pure ()
  | some message => do
    let e ← Exec.get
    acceptHello P now message e.role

/-- Read the record for middleboxes. -/
def readCcs (codec : Codec) : Exec Endpoint SessionError Unit := do
  match ← onBuffer unpackMiddleboxCcs with
  | none => pure ()
  | some () => Exec.modify fun e ↦ { e with phase := .data codec }

/-- Read a frame. -/
def readFrame (codec : Codec) : Exec Endpoint SessionError Unit := fun e ↦
  let (r, rx, buffer) := codec.rx.decodeInbound P.aead e.buffer
  let e := { e with phase := .data { codec with rx }, buffer }
  match r with
  | .ok none => (.ok (), e)
  | .ok (some frame) => (.ok (), { e with returned := e.returned ++ [frame] })
  | .err error => (.err (.tls error), e)
  | .panic => (.panic, e)

/-- Read what comes next, if it is there. -/
def read (now : UInt64) : Exec Endpoint SessionError Unit := do
  let e ← Exec.get
  match e.phase with
  | .hello => readHello P now
  | .ccs codec => readCcs codec
  | .data codec => readFrame P codec

/-- Send frames. Before there is a codec nothing is sent. -/
def send (now : UInt64) (call : EncodeCall) : Exec Endpoint SessionError Unit := fun e ↦
  match e.phase.codec with
  | none => (.ok (), e)
  | some codec =>
    match call.run P.aead P.hmac now codec.tx with
    | (.ok out, tx) => (.ok (), { e with
        phase := e.phase.putTx tx
        written := e.written ++ out
        submitted := e.submitted ++ call.items })
    | (.err error, tx) => (.err (.tls error), { e with phase := e.phase.putTx tx })
    | (.panic, tx) => (.panic, { e with phase := e.phase.putTx tx })

/-- Bytes arrive. -/
def feed (bytes : Bytes) : Exec Endpoint SessionError Unit :=
  Exec.modify fun e ↦ { e with buffer := e.buffer ++ bytes, fed := e.fed ++ bytes }

end Endpoint

/-! ### Both sides -/

/-- A side. -/
inductive Side where
  | client
  | server
  deriving DecidableEq, Repr

/-- Both sides of a session. -/
structure Session where
  client : Endpoint
  server : Endpoint

namespace Session

/-- The state of a side. -/
def endpoint (s : Session) : Side → Endpoint
  | .client => s.client
  | .server => s.server

/-- Put a side back. -/
def put (side : Side) (e : Endpoint) (s : Session) : Session :=
  match side with
  | .client => { s with client := e }
  | .server => { s with server := e }

end Session

/-- The other side. -/
def Side.other : Side → Side
  | client => server
  | server => client

/-- What may happen. -/
inductive Event where
  /-- The network hands bytes to a side. -/
  | feed (bytes : Bytes)
  /-- A side reads, at a clock reading. -/
  | read (now : UInt64)
  /-- A side sends, at a clock reading. -/
  | send (now : UInt64) (call : EncodeCall)

namespace Event

/-- What an event does to its side. -/
def run (P : Primitives) : Event → Exec Endpoint SessionError Unit
  | feed bytes => Endpoint.feed bytes
  | read now => Endpoint.read P now
  | send now call => Endpoint.send P now call

end Event

/-- An event at a side. An error is returned, and the session goes on. -/
def Session.step (P : Primitives) (side : Side) (event : Event) : Exec Session SessionError Unit :=
  (event.run P).zoom (Session.endpoint · side) (Session.put side)

/-- Some events that `Admits` allows where they happen lead from one session to another. -/
def Session.Runs (P : Primitives) (Admits : Session → Side → Event → Prop) :
    Session → Session → Prop :=
  Relation.ReflTransGen fun s s' ↦ ∃ side event, Admits s side event ∧
    (Session.step P side event s).2 = s'

theorem Session.Runs.mono {P : Primitives} {Admits Admits' : Session → Side → Event → Prop}
    (h : ∀ s side event, Admits s side event → Admits' s side event) {s s' : Session}
    (hruns : Session.Runs P Admits s s') : Session.Runs P Admits' s s' :=
  Relation.ReflTransGen.mono (fun _ _ ⟨side, event, hadmits, hstep⟩ ↦
    ⟨side, event, h _ side event hadmits, hstep⟩) s s' hruns

/-! ### The beginning -/

/-- What a session starts from. -/
structure SessionConfig where
  clientIdentity : Option Identity
  serverIdentity : Option Identity
  profile : BrowserProfile
  serverProfile : ServerProfile
  host : String
  /-- The clock of the client when it makes its hello. -/
  now : UInt64
  clientRng : OsRng
  serverRng : OsRng
  /-- What the hello is drawn from. -/
  helloRng : OsRng
  clientDraws : ShaperDraws
  serverDraws : ShaperDraws
  clientPadding : Entropy
  serverPadding : Entropy

namespace SessionConfig

variable (P : Primitives) (cfg : SessionConfig)

/-- The keys of the client before it has read anything. -/
def clientKeys : SessionKeys := (freshKeys P.x25519 true cfg.clientIdentity cfg.clientRng).1

/-- The keys of the server before it has read anything. -/
def serverKeys : SessionKeys := (freshKeys P.x25519 false cfg.serverIdentity cfg.serverRng).1

/-- The hello of the client. -/
def clientHello : Bytes :=
  (wrapClientHello P.hmac cfg.now cfg.profile cfg.host (cfg.clientKeys P) cfg.helloRng).1

/-- The client has written its hello; nothing has arrived anywhere. -/
def start : Session where
  client :=
    { role := .client, keys := cfg.clientKeys P, phase := .hello, buffer := []
      draws := cfg.clientDraws, rng := cfg.clientPadding, fed := []
      written := cfg.clientHello P ++ buildMiddleboxCcs, submitted := [], returned := [] }
  server :=
    { role := .server cfg.serverProfile, keys := cfg.serverKeys P, phase := .hello, buffer := []
      draws := cfg.serverDraws, rng := cfg.serverPadding, fed := [], written := []
      submitted := [], returned := [] }

end SessionConfig
