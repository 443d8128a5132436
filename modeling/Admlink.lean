import Admlink.Lib.Runs
import Admlink.Lib.Interrupt
import Admlink.Lib.StableQueue
import Admlink.Lib.DelayQueue
import Admlink.Lib.LengthPrefixed
import Admlink.CJson
import Admlink.ParseTree
import Admlink.ParseReport
import Admlink.Mqtt.Packet
import Admlink.Mqtt.Client
import Admlink.Eloop
import Admlink.World
import Admlink.MsgHandle
import Admlink.MsgSteps
import Admlink.Mqtt.Sync
import Admlink.Daemon
import Admlink.SyncRules
import Admlink.SyncSteps
import Admlink.Frame
import Admlink.SyncResult
import Admlink.Closing
import Admlink.Opening
import Admlink.Handlers
import Admlink.Logged
import Admlink.Lib.History
import Admlink.Bios
import Admlink.Traffic
import Admlink.Holding
import Admlink.RebootGate
import Admlink.Deferred
import Admlink.Initialised
import Admlink.Uploads
import Admlink.Reports
import Admlink.CtrlCommands
import Admlink.RcBuffers
import Admlink.Retained
import Admlink.LateTimers
import Admlink.TlsContexts
import Admlink.ConnSteps
import Admlink.SendPass
import Admlink.Flushing
import Admlink.Settled
import Admlink.Session
import Admlink.CtrlSocket
import Admlink.Signals
import Admlink.Releases
import Admlink.Mutexes
import Admlink.Stepwise
import Admlink.Alpn
import Admlink.CmdTable
import Admlink.Config
import Admlink.CopiedBytes
import Admlink.CleanClose
import Admlink.Responses
import Admlink.Lib.Utf8
import Admlink.Lib.JsonText
import Admlink.Lib.JsonReads
import Admlink.Lib.JsonMembers
import Admlink.Lib.JsonPasted
import Admlink.EventTexts
import Admlink.ClientMoves
import Admlink.Lib.Block
import Admlink.Lib.Framing
import Admlink.Lib.XorMap
import Admlink.Mqtt.Codec
import Admlink.Mqtt.PacketIds
import Admlink.Mqtt.Qos2
import Admlink.Mqtt.MqMemory
import Admlink.Mqtt.QueueWrites
import Admlink.Mqtt.QueueMemory
import Admlink.PacketStream
import Admlink.ParseNumbers
import Admlink.ParseStrings
import Admlink.ParseJson
import Admlink.Timers
