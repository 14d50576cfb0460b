import RtcmBridge.AcceptedOptions
import RtcmBridge.Agreement
import RtcmBridge.Asio
import RtcmBridge.Automaton
import RtcmBridge.BackoffRange
import RtcmBridge.Base64
import RtcmBridge.Base64.Overflow
import RtcmBridge.Base64.Standard
import RtcmBridge.BitReader
import RtcmBridge.BitReader.Cursor
import RtcmBridge.Bits
import RtcmBridge.Bytes
import RtcmBridge.Canonical.Files
import RtcmBridge.Canonical.Numbers
import RtcmBridge.Canonical.Programs
import RtcmBridge.Chunk
import RtcmBridge.Configuration
import RtcmBridge.ConfigurationFile
import RtcmBridge.DecoderClient.Basic
import RtcmBridge.DecoderClient.Bodies
import RtcmBridge.DecoderClient.Chains
import RtcmBridge.DecoderClient.Chunked
import RtcmBridge.DecoderClient.Connections
import RtcmBridge.DecoderClient.Shutdown
import RtcmBridge.DecoderClient.Stream
import RtcmBridge.DecoderNats
import RtcmBridge.Digits
import RtcmBridge.Endpoints.Entries
import RtcmBridge.Endpoints.Grammar
import RtcmBridge.Endpoints.Usable
import RtcmBridge.Family
import RtcmBridge.Fields
import RtcmBridge.Framer.Basic
import RtcmBridge.Framer.Buffer
import RtcmBridge.Framer.Crc
import RtcmBridge.Framer.Errors
import RtcmBridge.Framer.Resync
import RtcmBridge.Framer.RoundTrip
import RtcmBridge.Framer.Seams
import RtcmBridge.Framer.Stream
import RtcmBridge.Gf2
import RtcmBridge.HeaderBlock
import RtcmBridge.Layout.Blocks
import RtcmBridge.Layout.Edits
import RtcmBridge.Layout.Independence
import RtcmBridge.Logger.Basic
import RtcmBridge.Logger.Hang
import RtcmBridge.Logger.Loss
import RtcmBridge.MachineInt
import RtcmBridge.MessageDecoder.Basic
import RtcmBridge.MessageDecoder.Coordinates
import RtcmBridge.MessageDecoder.Descriptors
import RtcmBridge.MessageDecoder.Dispatch
import RtcmBridge.MessageDecoder.Glonass
import RtcmBridge.MessageDecoder.Lengths
import RtcmBridge.MessageDecoder.MsmCells
import RtcmBridge.MessageDecoder.MsmLength
import RtcmBridge.MessageDecoder.RoundTrip
import RtcmBridge.MessageDecoder.Safety
import RtcmBridge.MessageDecoder.Text
import RtcmBridge.MessageDecoder.Truncation
import RtcmBridge.Monitor
import RtcmBridge.Msm.Basic
import RtcmBridge.Msm.Layout
import RtcmBridge.Msm.Length
import RtcmBridge.Msm.Masks
import RtcmBridge.Msm.Read
import RtcmBridge.Msm.Safety
import RtcmBridge.Msm.Vectors
import RtcmBridge.Nats2Ntrip.Atomicity
import RtcmBridge.Nats2Ntrip.Backoff
import RtcmBridge.Nats2Ntrip.Balance
import RtcmBridge.Nats2Ntrip.Lifetime
import RtcmBridge.Nats2Ntrip.Mountpoints
import RtcmBridge.Nats2Ntrip.Order
import RtcmBridge.Nats2Ntrip.Parser
import RtcmBridge.Nats2Ntrip.Process
import RtcmBridge.Nats2Ntrip.ProcessSteps
import RtcmBridge.Nats2Ntrip.Queue
import RtcmBridge.Nats2Ntrip.Received
import RtcmBridge.Nats2Ntrip.Session
import RtcmBridge.Nats2Ntrip.Shutdown
import RtcmBridge.Nats2Ntrip.SignalWait
import RtcmBridge.Nats2Ntrip.Source
import RtcmBridge.Nats2Ntrip.Upload
import RtcmBridge.Nats2Ntrip.Wakeups
import RtcmBridge.Nats2Ntrip.Wires
import RtcmBridge.Ntrip2Nats.Names
import RtcmBridge.Ntrip2Nats.Parser
import RtcmBridge.Ntrip2Nats.Process
import RtcmBridge.Ntrip2Nats.Session
import RtcmBridge.NtripConnection.Backoff
import RtcmBridge.NtripConnection.Basic
import RtcmBridge.NtripConnection.Liveness
import RtcmBridge.NtripConnection.Published
import RtcmBridge.NtripConnection.Transfer
import RtcmBridge.Pipeline
import RtcmBridge.PrefixCode
import RtcmBridge.Rank
import RtcmBridge.Reading
import RtcmBridge.Records
import RtcmBridge.Refinement
import RtcmBridge.Relay
import RtcmBridge.Requests
import RtcmBridge.Response
import RtcmBridge.Rfc4648
import RtcmBridge.Safety
import RtcmBridge.Scanner
import RtcmBridge.Search
import RtcmBridge.Subject
import RtcmBridge.Text
import RtcmBridge.Trace
