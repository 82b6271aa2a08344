import Nrxp.Lib.Exec
import Nrxp.Lib.Bytes
import Nrxp.Lib.Incremental
import Nrxp.Lib.Aead
import Nrxp.Errors
import Nrxp.Lib.Tlv
import Nrxp.Crypto.ChaCha
import Nrxp.Crypto.SessionAuth
import Nrxp.Crypto.Identity
import Nrxp.Tls.Types
import Nrxp.Tls.Record
import Nrxp.Tls.Extension
import Nrxp.Crypto.Session
import Nrxp.Tls.Profile
import Nrxp.Lib.FisherYates
import Nrxp.Lib.Sampling
import Nrxp.Tls.Mlkem
import Nrxp.Lib.Text
import Nrxp.Lib.Hex
import Nrxp.Tls.ExtensionBuilder
import Nrxp.Tls.Shuffle
import Nrxp.Tls.ExtensionBlock
import Nrxp.Tls.BlockRoundTrip
import Nrxp.Tls.Handshake
import Nrxp.Tls.HelloRoundTrip
import Nrxp.Tls.Fingerprint
import Nrxp.Bridge.AppData
import Nrxp.Bridge.Handshake
import Nrxp.Bridge.Hellos
import Nrxp.Bridge.Fingerprints
import Nrxp.Bridge.Negotiation
import Nrxp.Bridge.Redirects
import Nrxp.Bridge.Stalls
import Nrxp.Bridge.Contract
import Nrxp.Handshake.Admission
import Nrxp.Handshake.Agreement
import Nrxp.Handshake.KeyBinding
import Nrxp.Handshake.KeyShares
import Nrxp.Handshake.Lifecycle
import Nrxp.Handshake.Panics
import Nrxp.Handshake.Replay
import Nrxp.Frame
import Nrxp.Parser
import Nrxp.Lib.Packing
import Nrxp.Codec.Tx
import Nrxp.Codec.Sent
import Nrxp.Tls.Decoy
import Nrxp.Bridge.DecoyName
import Nrxp.Codec.Cover
import Nrxp.Codec.Rx
import Nrxp.Codec.RoundTrip
import Nrxp.Codec.Integrity
import Nrxp.Codec.Injection
import Nrxp.Codec.Nonces
import Nrxp.Codec.Segmentation
import Nrxp.Codec.Shaping
import Nrxp.Codec.Batching
import Nrxp.Codec.Lengths
import Nrxp.Codec.Tags
import Nrxp.Session.Endpoint
import Nrxp.Session.Flow
import Nrxp.Session.Safety
import Nrxp.Session.Completion
import Nrxp.Session.Provisioning
import Nrxp.Session.Alone
import Nrxp.Session.Hostile
import Nrxp.Session.Memory
import Nrxp.Session.DatagramLeg
import Nrxp.Session.LegDelivery
import Nrxp.Lib.SlidingWindow
import Nrxp.Lib.Words
import Nrxp.Lib.EpochFilter
import Nrxp.Lib.KeyTree
import Nrxp.Crypto.Hkdf
import Nrxp.Crypto.DatagramKeys
import Nrxp.Crypto.KeySchedule
import Nrxp.Datagram.Window
import Nrxp.Datagram.Leg
import Nrxp.Datagram.Authenticity
import Nrxp.Datagram.Counters
import Nrxp.Datagram.Channel
import Nrxp.Datagram.Delivery
import Nrxp.Datagram.Nonces
import Nrxp.Datagram.Rejection
