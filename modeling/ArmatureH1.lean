import ArmatureH1.Lib.Bytes
import ArmatureH1.Lib.Numeral
import ArmatureH1.Lib.Lines
import ArmatureH1.Vocabulary
import ArmatureH1.Header
import ArmatureH1.Chunked
import ArmatureH1.ChunkedTheorems
import ArmatureH1.ChunkedBudget
import ArmatureH1.SizeLine
import ArmatureH1.ChunkedGrammar
import ArmatureH1.ChunkedSplit
import ArmatureH1.Write
import ArmatureH1.ChunkedRoundTrip
import ArmatureH1.Head
import ArmatureH1.Framing
import ArmatureH1.Parse
import ArmatureH1.ScratchTiers
import ArmatureH1.Body
import ArmatureH1.BodyTheorems
import ArmatureH1.BodyRun
import ArmatureH1.BodySignal
import ArmatureH1.HeadRead
import ArmatureH1.HeadReadTheorems
import ArmatureH1.Conn
import ArmatureH1.ConnInput
import ArmatureH1.ConnOutput
import ArmatureH1.ConnReplies
import ArmatureH1.ConnScan
import ArmatureH1.ConnRequests
import ArmatureH1.Client
import ArmatureH1.WriteTheorems
import ArmatureH1.HeadLines
import ArmatureH1.FieldNames
import ArmatureH1.ResponseFraming
import ArmatureH1.ConnClient
import ArmatureH1.Authority
import ArmatureH1.FramingTheorems
import ArmatureH1.Numbers
import ArmatureH1.Target
import ArmatureH1.ConnFlush
import ArmatureH1.Persistence
import ArmatureH1.DroppedField
import ArmatureH1.Bridge
import ArmatureH1.BridgeResponse
import ArmatureH1.BridgeHead
import ArmatureH1.Lib.Ledger
import ArmatureH1.Server
import ArmatureH1.ServerMoves
import ArmatureH1.ServerSlots
import ArmatureH1.ServerCustody
import ArmatureH1.Deadline
import ArmatureH1.PhaseClock
import ArmatureH1.Watchdog
import ArmatureH1.Splice
import ArmatureH1.ServerPlacement
import ArmatureH1.ServerRetire
import ArmatureH1.ServerSentinel
import ArmatureH1.Lib.Descent
import ArmatureH1.ServerWindDown
import ArmatureH1.ConnPast
import ArmatureH1.ConnReuse
import ArmatureH1.Handover
import ArmatureH1.ConnClock
import ArmatureH1.ConnWaits
import ArmatureH1.Collect
import ArmatureH1.RawBody
import ArmatureH1.Dispatch
import ArmatureH1.HyperIo
import ArmatureH1.WatchdogWaits
import ArmatureH1.ServerStartup
import ArmatureH1.ConnPersists
import ArmatureH1.ConnItems
import ArmatureH1.ConnHeard
import ArmatureH1.OutBody
