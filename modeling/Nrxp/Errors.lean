import Nrxp.Lib.Bytes

/-!
# Protocol errors

`TlsError` says where a failure happened and what the caller is to do about it; `AppError` is the
error of the parts that are not tied to the byte stream. Logging reads both and changes neither, so
it has no counterpart here.
-/

/-- What to do with the connection after an error. -/
inductive ErrorAction where
  /-- Not enough data yet. -/
  | wait
  /-- Proxy the connection as ordinary TLS. -/
  | redirect
  /-- Close the leg. -/
  | drop
  deriving DecidableEq, Repr

/-- The layer an error happened in, with the reason. -/
inductive ErrorStage where
  /-- TLS records and encryption. -/
  | tls (message : String)
  /-- The hellos and the key exchange. -/
  | handshake (message : String)
  /-- The data phase. -/
  | applicationData (message : String)
  deriving DecidableEq, Repr

/-- A protocol error: stage, prescribed action, and the raw bytes to redirect, if any. -/
structure TlsError where
  stage : ErrorStage
  action : ErrorAction
  data : Bytes
  deriving DecidableEq, Repr

/-- An application error, without the metadata and cause that no code path here fills in. -/
structure AppError where
  code : String
  userMsg : String
  internalMsg : String
  deriving DecidableEq, Repr

/-- The code of a violated record or a failed decryption. -/
def errNetTlsTamper : String := "NET_TLS_TAMPER"
