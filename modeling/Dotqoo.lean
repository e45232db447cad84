import Dotqoo.Lib.Runs
import Dotqoo.Lib.Bytes
import Dotqoo.Lib.Chains
import Dotqoo.Table.Hash
import Dotqoo.Table.AddrHash
import Dotqoo.Capture.Options
import Dotqoo.Capture.Packet
import Dotqoo.Capture.Rotate
import Dotqoo.Capture.Encode
import Dotqoo.Capture.Mqtt
import Dotqoo.Capture.Tick
import Dotqoo.Publish.Moves
import Dotqoo.Publish.Buffers
import Dotqoo.Publish.Pending
import Dotqoo.Client.SaveData
import Dotqoo.Wire.Format
import Dotqoo.Publish.Complete
import Dotqoo.Wire.Totals
import Dotqoo.Flow.Conversation
import Dotqoo.Flow.Conservation
import Dotqoo.Flow.PortFilter
import Dotqoo.Flow.Approval
import Dotqoo.Lib.Spaced
import Dotqoo.Publish.Flight
import Dotqoo.Flow.Decided
import Dotqoo.Flow.Times
import Dotqoo.Flow.OneFlow
import Dotqoo.Flow.LongLived
import Dotqoo.Lib.SearchTree
import Dotqoo.Lib.Dispatch
import Dotqoo.Config.StringMap
import Dotqoo.Config.Args
import Dotqoo.Config.ArgOrder
import Dotqoo.Lib.Lines
import Dotqoo.Config.CfgFile
import Dotqoo.Config.Continuation
import Dotqoo.Config.Precedence
import Dotqoo.Lib.Streams
import Dotqoo.Publish.Payload
import Dotqoo.Capture.Threads
import Dotqoo.Lib.Reads
import Dotqoo.Link.Handlers
import Dotqoo.Link.Bounds
import Dotqoo.Link.Ipv6
import Dotqoo.Lib.Links
import Dotqoo.Lib.Shadow
import Dotqoo.Table.Memory
import Dotqoo.Table.Walk
import Dotqoo.Table.Refine
import Dotqoo.Capture.Pass
import Dotqoo.Capture.Released
import Dotqoo.Lib.Sentinel
import Dotqoo.Flow.BlockList
import Dotqoo.Flow.Fragments
import Dotqoo.Config.ListOptions
import Dotqoo.Config.ArgsFile
import Dotqoo.Config.ArgsExact
import Dotqoo.Config.ArgsFaithful
import Dotqoo.Config.Make
import Dotqoo.Config.NetFilter
import Dotqoo.Config.Malformed
import Dotqoo.Config.NetFilter6
import Dotqoo.Lib.Upsert
import Dotqoo.Client.Views
import Dotqoo.Client.Merged
import Dotqoo.Client.OnMessage
import Dotqoo.Client.Sorted
import Dotqoo.Wire.Topic
import Dotqoo.Lib.Bisect
import Dotqoo.Client.Locator
import Dotqoo.Config.MapCells
import Dotqoo.Config.FirstWins
import Dotqoo.Lib.Ring
import Dotqoo.Resolver.NsHash
import Dotqoo.Resolver.Resolve
import Dotqoo.Resolver.Queue
import Dotqoo.Resolver.Cache
import Dotqoo.Lib.Cells
import Dotqoo.Config.LineBuffer
import Dotqoo.Config.LineBounds
import Dotqoo.Lib.Blocks
import Dotqoo.Table.Vector
import Dotqoo.Lib.Parts
import Dotqoo.Wire.Posted
import Dotqoo.Client.Commands
import Dotqoo.Wire.Network
import Dotqoo.Wire.Provenance
import Dotqoo.Wire.Requests
import Dotqoo.Lib.Waiting
import Dotqoo.Resolver.Wake
import Dotqoo.Publish.Checks
import Dotqoo.Flow.Pages
import Dotqoo.Client.Places
import Dotqoo.Lib.Ranked
import Dotqoo.Client.Report
import Dotqoo.Lib.Timer
import Dotqoo.Publish.Timers
import Dotqoo.Config.StartUp
import Dotqoo.Client.Threads
import Dotqoo.Wire.Flows
