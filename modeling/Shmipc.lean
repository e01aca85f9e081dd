import Shmipc.Buffer.BestFit
import Shmipc.Buffer.Calls
import Shmipc.Buffer.Classes
import Shmipc.Buffer.Concurrent
import Shmipc.Buffer.Content
import Shmipc.Buffer.Corrupted
import Shmipc.Buffer.Create
import Shmipc.Buffer.Fidelity
import Shmipc.Buffer.Flat
import Shmipc.Buffer.FreeList
import Shmipc.Buffer.FreeListRun
import Shmipc.Buffer.Heap
import Shmipc.Buffer.Held
import Shmipc.Buffer.Linked
import Shmipc.Buffer.Manager
import Shmipc.Buffer.Moves
import Shmipc.Buffer.NewManager
import Shmipc.Buffer.NonPositive
import Shmipc.Buffer.OwnList
import Shmipc.Buffer.Parts
import Shmipc.Buffer.Publish
import Shmipc.Buffer.Reader
import Shmipc.Buffer.Receive
import Shmipc.Buffer.Region
import Shmipc.Buffer.Returned
import Shmipc.Buffer.Send
import Shmipc.Buffer.SizeChecks
import Shmipc.Buffer.Slice
import Shmipc.Buffer.Stock
import Shmipc.Buffer.Views
import Shmipc.Buffer.Writer
import Shmipc.Common.Bytes
import Shmipc.Common.Chain
import Shmipc.Common.Dialogue
import Shmipc.Common.Directory
import Shmipc.Common.FrameWriter
import Shmipc.Common.GoSlice
import Shmipc.Common.Mem
import Shmipc.Common.Ownership
import Shmipc.Common.Refinement
import Shmipc.Common.RingQueue
import Shmipc.Common.Trans
import Shmipc.Config
import Shmipc.EventDispatcher.Conns
import Shmipc.EventDispatcher.Lambda
import Shmipc.EventDispatcher.WriteLoop
import Shmipc.EventDispatcher.Writev
import Shmipc.Listener.Adapter
import Shmipc.Listener.FailedRestart
import Shmipc.Listener.HotRestart
import Shmipc.Listener.SessionMu
import Shmipc.Protocol.Event
import Shmipc.Protocol.Handshake
import Shmipc.Protocol.Metadata
import Shmipc.Protocol.Parser
import Shmipc.Protocol.ReadBuffer
import Shmipc.Queue.Fifo
import Shmipc.Queue.Machine
import Shmipc.Queue.Mapping
import Shmipc.Queue.Ring
import Shmipc.Queue.WakeUp
import Shmipc.Session.Accept
import Shmipc.Session.CloseOrder
import Shmipc.Session.Machine
import Shmipc.Session.OpenStream
import Shmipc.Session.Order
import Shmipc.Session.Registry
import Shmipc.Session.SendLoop
import Shmipc.Session.StreamIds
import Shmipc.SessionManager.HotRestart
import Shmipc.SessionManager.PoolRing
import Shmipc.SessionManager.Reuse
import Shmipc.SessionManager.StreamPool
import Shmipc.Stream.Async
import Shmipc.Stream.Books
import Shmipc.Stream.DataPath
import Shmipc.Stream.Drain
import Shmipc.Stream.LocalClose
import Shmipc.Stream.Machine
import Shmipc.Stream.PeerNotice
import Shmipc.Stream.Pipes
import Shmipc.Stream.ReadMore
