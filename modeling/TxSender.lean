import TxSender.Lib.Search
import TxSender.Lib.Exec
import TxSender.Lib.Machine
import TxSender.Lib.Trace
import TxSender.Lib.Base64
import TxSender.Lib.Text
import TxSender.Lib.Json
import TxSender.Lib.JsonScan
import TxSender.Error
import TxSender.Sink
import TxSender.ResultLane
import TxSender.Provider.Response
import TxSender.Provider.Config
import TxSender.Protocol.Quic
import TxSender.Http.SpecBuilder
import TxSender.Http.Envelope
import TxSender.Http.EnvelopeFrame
import TxSender.Http.Engine
import TxSender.Http.Response
import TxSender.Http.Pipeline
import TxSender.Http.Reassembly
import TxSender.Http.EnvelopeSlot
import TxSender.Http.RequestFrame
import TxSender.Conn.Basic
import TxSender.Conn.Reconnect
import TxSender.Backend.RawLibc
import TxSender.Transport.Connect
import TxSender.Transport.Event
import TxSender.Transport.Parallel
import TxSender.Transport.Sequential
import TxSender.Transport.Provider
import TxSender.Transport.Projection
import TxSender.Transport.Order
import TxSender.Transport.InFlight
import TxSender.Transport.Attribution
import TxSender.Transport.Abandoned
import TxSender.Transport.Reuse
import TxSender.Transport.Sender
import TxSender.Transport.Wiring
import TxSender.Transport.Rebuild
import TxSender.Transport.Duty
import TxSender.Transport.Isolation
import TxSender.Lib.WordScan
import TxSender.Provider.FlatResponse
import TxSender.Protocol.QuicDatagrams
import TxSender.Transport.Trigger
import TxSender.Transport.Shutdown
import TxSender.Backend.IoUring
import TxSender.Backend.UringStream
import TxSender.Transport.Agreement
import TxSender.Conn.Window
import TxSender.Lib.Reader
import TxSender.Transport.JobsSent
import TxSender.Transport.Truncation
import TxSender.Transport.Buffering
import TxSender.Backend.RingRecv
import TxSender.Backend.EndOfStream
import TxSender.Backend.RingSend
import TxSender.Backend.RingBuffers
import TxSender.Backend.RingModes
import TxSender.Backend.RingPoll
import TxSender.Backend.RingAlone
import TxSender.Http.EnvelopeCompile
import TxSender.Http.EnvelopeCapacity
import TxSender.Provider.Registry
import TxSender.Backend.LibTpa
import TxSender.Protocol.QuicStreams
import TxSender.Transport.Launch
import TxSender.Transport.Replacement
import TxSender.Transport.Delivery
import TxSender.Lib.Progress
import TxSender.Transport.Round
import TxSender.Transport.Upkeep
import TxSender.Rt.Wait
import TxSender.Rt.LaneThread
import TxSender.Backend.TpaRuntime
import TxSender.Conn.TlsStream
import TxSender.Transport.Halting
import TxSender.Transport.TpaEngine
import TxSender.Lib.Drain
import TxSender.Transport.Handshake
import TxSender.Lib.JsonPath
import TxSender.Provider.Payload
import TxSender.Transport.Panics
import TxSender.Transport.Acceptance
import TxSender.Transport.Stamps
import TxSender.Transport.Lengthless
