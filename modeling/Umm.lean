import Umm.Basic
import Umm.Foundations.Purge
import Umm.Foundations.Run
import Umm.Foundations.Tabulate
import Umm.Foundations.WaitingQueue
import Umm.Foundations.Bimap
import Umm.Foundations.Field
import Umm.Foundations.OnesComplement
import Umm.Foundations.Outcome
import Umm.Foundations.Allocator
import Umm.Foundations.RadixTree
import Umm.Foundations.RadixMap
import Umm.Foundations.RadixPath
import Umm.Foundations.RadixLevel
import Umm.Foundations.RadixFamily
import Umm.Foundations.RadixUpdate
import Umm.Foundations.RadixSteps
import Umm.Foundations.RadixWalk
import Umm.Foundations.RadixVisitLog
import Umm.Foundations.RadixFree
import Umm.Foundations.RadixVisits
import Umm.Foundations.Json
import Umm.Foundations.JsonTexts
import Umm.Foundations.Http
import Umm.Proxy.ProxyRoot
import Umm.Proxy.UmProxy
import Umm.Proxy.PortMachine
import Umm.Proxy.RoundTrip
import Umm.Proxy.SourcePorts
import Umm.Proxy.PortPool
import Umm.Proxy.Frame
import Umm.Manager.Instance
import Umm.Manager.Core
import Umm.Proxy.Packets
import Umm.Proxy.Preprocess
import Umm.Proxy.Redirect
import Umm.Proxy.TcpPath
import Umm.Proxy.Activity
import Umm.Proxy.Checksum
import Umm.Proxy.OutgoingSafety
import Umm.Proxy.PacketPorts
import Umm.Proxy.Network
import Umm.Proxy.Conversations
import Umm.Manager.Slot
import Umm.Manager.Machine
import Umm.Manager.Rules
import Umm.Manager.YieldCalls
import Umm.Manager.SlotInvariant
import Umm.Manager.Control
import Umm.Manager.Attribution
import Umm.Manager.StatusSafety
import Umm.Manager.Wakeups
import Umm.Manager.Timers
import Umm.Manager.Frames
import Umm.Manager.HaltSignal
import Umm.Manager.YieldOrder
import Umm.Manager.SignalSafety
import Umm.Manager.Stranded
import Umm.Manager.ReceiveQueue
import Umm.Manager.HaltDrain
import Umm.PageTable.SimplePte
import Umm.Manager.Checkpoint
import Umm.Manager.SystemCalls
import Umm.Manager.GuestRegisters
import Umm.PageTable.UmPgTblMgr
import Umm.PageTable.Translate
import Umm.PageTable.UserWalk
import Umm.PageTable.SlotTable
import Umm.PageTable.Mapping
import Umm.PageTable.LargePages
import Umm.PageTable.Copy
import Umm.PageTable.CopyClaims
import Umm.PageTable.DirtyPages
import Umm.PageTable.Reconstruct
import Umm.PageTable.Tables
import Umm.PageTable.Representation
import Umm.PageTable.Counters
import Umm.PageTable.Freeing
import Umm.PageTable.Permissions
import Umm.Memory.Region
import Umm.Loader.Elf
import Umm.Loader.Sections
import Umm.Loader.Bounds
import Umm.Loader.Regions
import Umm.Memory.System
import Umm.Memory.Rules
import Umm.Memory.Steps
import Umm.Memory.Sharing
import Umm.Memory.Content
import Umm.Memory.WriteLog
import Umm.Memory.PrivateCopy
import Umm.Memory.Swap
import Umm.Memory.Reclaim
import Umm.Memory.Accounting
import Umm.Memory.FaultCounters
import Umm.Memory.Faults
import Umm.Memory.LawfulAccess
import Umm.Memory.TranslationCaches
import Umm.Memory.NoCow
import Umm.Memory.Isolation
import Umm.Loader.ProgramImage
import Umm.Session.InvocationSession
import Umm.Session.SessionPromises
import Umm.Session.HttpRequest
import Umm.Manager.OwnCheckpoints
