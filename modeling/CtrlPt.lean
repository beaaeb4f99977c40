import CtrlPt.Lib.Resume
import CtrlPt.Lib.Merge
import CtrlPt.Lib.Transition
import CtrlPt.Lib.Rounds
import CtrlPt.Lib.EventQueue
import CtrlPt.Lib.CharArray
import CtrlPt.Lib.Locks
import CtrlPt.Codes
import CtrlPt.Http.Match
import CtrlPt.Http.Message
import CtrlPt.Uri
import CtrlPt.Http.Parser
import CtrlPt.Http.Stability
import CtrlPt.Http.StartLine
import CtrlPt.Http.Fragmentation
import CtrlPt.Http.Requests
import CtrlPt.Http.HeaderText
import CtrlPt.Http.HeaderList
import CtrlPt.Http.Lookup
import CtrlPt.Http.Download
import CtrlPt.Http.Chunked
import CtrlPt.Http.Fields
import CtrlPt.Http.Lengths
import CtrlPt.Http.Delivery
import CtrlPt.Http.Recv
import CtrlPt.Http.Post
import CtrlPt.Http.Limit
import CtrlPt.Http.Document
import CtrlPt.Http.CheckedScanner
import CtrlPt.Http.CheckedParser
import CtrlPt.Gena.Notify
import CtrlPt.Web.Ranges
import CtrlPt.Web.Request
import CtrlPt.Thread.Pool
import CtrlPt.Thread.Regions
import CtrlPt.Thread.Counters
import CtrlPt.Thread.TimerRuns
import CtrlPt.Soap.Action
import CtrlPt.Uri.HostPort
import CtrlPt.Uri.Decompose
import CtrlPt.Uri.Chars
import CtrlPt.Uri.Escapes
import CtrlPt.Uri.Dots
import CtrlPt.Uri.RelativeDots
import CtrlPt.Uri.Resolve
import CtrlPt.Sdk
import CtrlPt.Ssdp.Search
import CtrlPt.Ssdp.Discovery
import CtrlPt.Ssdp.SearchRuns
import CtrlPt.Sample.Devices
import CtrlPt.Gena.Subscribe
import CtrlPt.Gena.Calls
import CtrlPt.Gena.Renewals
import CtrlPt.Gena.LockOrder
import CtrlPt.Gena.Linked
import CtrlPt.Gena.Leases
import CtrlPt.Gena.Bijection
import CtrlPt.Util.MembufferRuns
import CtrlPt.Thread.Starvation
import CtrlPt.Thread.Conservation
import CtrlPt.Thread.IdleWait
import CtrlPt.Thread.Identity
import CtrlPt.Thread.LinkedListRuns
import CtrlPt.Lib.Occurs
import CtrlPt.Soap.Fallback
import CtrlPt.Ssdp.Filter
import CtrlPt.Ssdp.Packet
import CtrlPt.Sample.DeviceList
import CtrlPt.Sample.Renewal
import CtrlPt.Api.VirtualDirs
import CtrlPt.Http.HostHeader
import CtrlPt.Uuid.Md5
import CtrlPt.Lib.Blocks
import CtrlPt.Lib.MessageDigest
import CtrlPt.Uuid.Uuid
import CtrlPt.Gena.Identifiers
import CtrlPt.Http.BuiltRequests
import CtrlPt.Gena.Requests
import CtrlPt.Gena.Exchange
import CtrlPt.Http.Sock
import CtrlPt.Http.Exchange
import CtrlPt.Api.MiniServer
import CtrlPt.Http.WrittenResponse
import CtrlPt.Http.Answers
import CtrlPt.Web.Upload
import CtrlPt.Web.Serve
import CtrlPt.Http.Decoded
