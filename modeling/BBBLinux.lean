import BBBLinux.Transition.Basic
import BBBLinux.Fifo.Basic
import BBBLinux.ThreadSync.Queue.Impl
import BBBLinux.ThreadSync.ProCon.Impl
import BBBLinux.ThreadSync.ProCon.Lemmas
import BBBLinux.ThreadSync.ProCon.Safety
import BBBLinux.ThreadSync.ProCon.Progress
import BBBLinux.ThreadSync.DnPhil.Impl
import BBBLinux.ThreadSync.DnPhil.Invariant
import BBBLinux.ThreadSync.DnPhil.Exclusion
import BBBLinux.ThreadSync.DnPhil.WakeUp
import BBBLinux.ThreadSync.DnPhil.Deadlock
import BBBLinux.CString.Basic
import BBBLinux.CString.Strtok
import BBBLinux.KeyedList.Basic
import BBBLinux.RoutingTable.Table.Impl
import BBBLinux.RoutingTable.Table.Lemmas
import BBBLinux.RoutingTable.Table.Unique
import BBBLinux.RoutingTable.Parser.Impl
import BBBLinux.RoutingTable.Parser.Words
import BBBLinux.RoutingTable.Peers.Impl
import BBBLinux.RoutingTable.Peers.Lemmas
import BBBLinux.RoutingTable.Peers.Broadcast
import BBBLinux.RoutingTable.Parser.Command
import BBBLinux.RoutingTable.Parser.Route
import BBBLinux.RoutingTable.Peers.Lines
import BBBLinux.RoutingTable.Peers.Snapshot
import BBBLinux.RoutingTable.Peers.DeleteRoute
import BBBLinux.RoutingTable.Peers.Slots
import BBBLinux.RoutingTable.Network.Impl
import BBBLinux.RoutingTable.Network.Lemmas
import BBBLinux.RoutingTable.Network.Registry
import BBBLinux.RoutingTable.Network.Replication
import BBBLinux.RoutingTable.Network.Flush
import BBBLinux.RoutingTable.Network.Overtaking
import BBBLinux.RoutingTable.Connections.Impl
import BBBLinux.RoutingTable.Connections.Lemmas
import BBBLinux.RoutingTable.Connections.Monitored
import BBBLinux.RoutingTable.Connections.Handlers
import BBBLinux.RoutingTable.Connections.Registered
import BBBLinux.RoutingTable.Peers.Validated
import BBBLinux.RoutingTable.Peers.MacStore
import BBBLinux.RoutingTable.Parser.Accepted
import BBBLinux.RoutingTable.Parser.Grammar
import BBBLinux.CString.Numeral
import BBBLinux.RoutingTable.Parser.Uninitialized
import BBBLinux.CharDevice.Impl
import BBBLinux.CharDevice.Lemmas
import BBBLinux.WriteLog.Basic
import BBBLinux.CharDevice.Bounded
import BBBLinux.CharDevice.Permissions
import BBBLinux.CharDevice.Position
import BBBLinux.CharDevice.Faults
import BBBLinux.CharDevice.Load
import BBBLinux.CharDevice.Platform
import BBBLinux.RoutingTable.Peers.AbsentKey
import BBBLinux.RoutingTable.Parser.Copies
import BBBLinux.RoutingTable.Peers.ShowMac
import BBBLinux.SlotTable.Basic
import BBBLinux.SumServer.Impl
import BBBLinux.SumServer.Refinement
import BBBLinux.RoutingTable.Parser.MacLine
import BBBLinux.IndexedLoop.Basic
import BBBLinux.RoutingTable.Select.Impl
import BBBLinux.RoutingTable.Select.Lemmas
import BBBLinux.RoutingTable.Select.Sound
import BBBLinux.MiscDev.Config
import BBBLinux.MiscDev.Blink
import BBBLinux.LittleEndian.Basic
import BBBLinux.SumServer.Stream
import BBBLinux.TcpServer.Impl
import BBBLinux.TcpServer.Pairs
import BBBLinux.LinkedList.Basic
import BBBLinux.LinkedList.Surgery
import BBBLinux.RoutingTable.OnHeap.Impl
import BBBLinux.RoutingTable.OnHeap.Loops
import BBBLinux.RoutingTable.OnHeap.Tables
import BBBLinux.RoutingTable.OnHeap.MacTable
import BBBLinux.RoutingTable.Network.Tells
import BBBLinux.RoutingTable.Network.Mirror
import BBBLinux.RoutingTable.Network.Shutdown.Impl
import BBBLinux.RoutingTable.Network.Shutdown.Serving
import BBBLinux.RoutingTable.Network.Shutdown.Ending
import BBBLinux.LinkedList.Account
import BBBLinux.RoutingTable.OnHeap.Server.Impl
import BBBLinux.RoutingTable.OnHeap.Server.Dispatch
import BBBLinux.RoutingTable.OnHeap.Server.Blocks
import BBBLinux.ThreadSync.ProCon.Outcome
import BBBLinux.LinkedList.Program
import BBBLinux.RoutingTable.OnHeap.Signal.Impl
import BBBLinux.RoutingTable.OnHeap.Signal.Functions
import BBBLinux.RoutingTable.OnHeap.Signal.Doomed
import BBBLinux.RoutingTable.OnHeap.Signal.Safe
import BBBLinux.RoutingTable.OnHeap.Signal.Lost
import BBBLinux.CString.Copy
import BBBLinux.RoutingTable.Peers.ShowRoutes
import BBBLinux.ThreadSync.DnPhil.Progress
import BBBLinux.RoutingTable.Parser.Menu
import BBBLinux.RoutingTable.Connections.Departed
import BBBLinux.ThreadSync.DnPhil.Together
import BBBLinux.RoutingTable.Peers.EndOfFile
import BBBLinux.RoutingTable.Select.Served
import BBBLinux.Framing.Basic
import BBBLinux.RoutingTable.Streams.Impl
import BBBLinux.RoutingTable.Streams.Refinement
import BBBLinux.RoutingTable.Streams.Mirror
import BBBLinux.RoutingTable.Streams.Converge
