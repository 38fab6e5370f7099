import Sricd.Lib.Run
import Sricd.Lib.Stuffing
import Sricd.Lib.MainLoop
import Sricd.Lib.Queue
import Sricd.Lib.ShiftRegister
import Sricd.Frame
import Sricd.Crc16
import Sricd.Burst
import Sricd.Calls
import Sricd.Mail
import Sricd.Transmission
import Sricd.Registry
import Sricd.NoteIds
import Sricd.Escape
import Sricd.Rx
import Sricd.RxBuffers
import Sricd.Deframing
import Sricd.Segments
import Sricd.Encoding
import Sricd.Ostric
import Sricd.Reception
import Sricd.Resync
import Sricd.OutputQueue
import Sricd.Device
import Sricd.Client
import Sricd.Ipc
import Sricd.Request
import Sricd.Incoming
import Sricd.Libsric
import Sricd.Formats
import Sricd.NoteCache
import Sricd.Daemon
import Sricd.SricEnum
import Sricd.SricIf
import Sricd.Transmitter
import Sricd.Callbacks
import Sricd.Effects
import Sricd.Cancel
import Sricd.Ledger
import Sricd.WholeFrames
import Sricd.Bounds
import Sricd.Session
import Sricd.Statuses
import Sricd.Link
import Sricd.EnumLink
import Sricd.Enumeration
import Sricd.EnumBus
import Sricd.Addresses
import Sricd.Enumerated
import Sricd.Lifetimes
import Sricd.Responses
import Sricd.RxMemory
import Sricd.TxFifo
import Sricd.NoteMask
import Sricd.DeviceTable
import Sricd.SendErrors
import Sricd.DeviceList
import Sricd.Progress
import Sricd.TokenRing
import Sricd.Trumpets
import Sricd.Releases
import Sricd.TimerIds
import Sricd.Unescape
import Sricd.Lib.Parts
import Sricd.Halves
import Sricd.Lib.Feed
import Sricd.Order
import Sricd.Subscriptions
import Sricd.Conversations
import Sricd.SimulatedEnum
import Sricd.Service
import Sricd.Bench
import Sricd.Draining
import Sricd.Program
import Sricd.Crashes
import Sricd.Turns
import Sricd.Txrx
import Sricd.Caller
