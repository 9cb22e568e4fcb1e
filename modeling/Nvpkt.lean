import Nvpkt.Library.SegmentList
import Nvpkt.Library.FixedWidth
import Nvpkt.Source.TxpktOne
import Nvpkt.Guarantees.SgWalk
import Nvpkt.Guarantees.TxpktPayload
import Nvpkt.Guarantees.TxpktDma
import Nvpkt.Guarantees.TxpktStatus
import Nvpkt.Guarantees.BenchLba
import Nvpkt.Guarantees.BenchRounds
import Nvpkt.Guarantees.RecvLoop
import Nvpkt.Guarantees.RecvSetup
import Nvpkt.Guarantees.SlotBuffers
import Nvpkt.Guarantees.TableLookup
import Nvpkt.Guarantees.XmitWindow
import Nvpkt.Guarantees.DeviceHeld
import Nvpkt.Guarantees.LoadBalance
import Nvpkt.Guarantees.TxpktCount
import Nvpkt.Guarantees.CommandEncoding
import Nvpkt.Guarantees.SubmitLength
import Nvpkt.Library.Ledger
import Nvpkt.Guarantees.TxpktOwnership
import Nvpkt.Guarantees.LoadRing
import Nvpkt.Guarantees.LoadContent
import Nvpkt.Guarantees.XmitCount
import Nvpkt.Guarantees.SenderStatus
import Nvpkt.Guarantees.SlotAddress
import Nvpkt.Guarantees.SeqSweep
import Nvpkt.Guarantees.ReportedIntervals
import Nvpkt.Guarantees.TxpktAdmission
import Nvpkt.Guarantees.SgView
import Nvpkt.Guarantees.BioMapping
import Nvpkt.Guarantees.BuiltPackets
import Nvpkt.Guarantees.OptionBounds
import Nvpkt.Guarantees.LogParser
import Nvpkt.Guarantees.Variants
import Nvpkt.Guarantees.StoreThenXmit
import Nvpkt.Guarantees.StoredPackets
import Nvpkt.Guarantees.FrameContent
import Nvpkt.Guarantees.BenchShutdown
import Nvpkt.Guarantees.HexDumps
import Nvpkt.Guarantees.ResultTable
import Nvpkt.Guarantees.GlobOrder
import Nvpkt.Guarantees.OptionLoops
import Nvpkt.Guarantees.NativeStatus
import Nvpkt.Guarantees.InterimLines
