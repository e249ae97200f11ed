import Vbt.Client.Daemon
import Vbt.Client.Device
import Vbt.Client.Guest
import Vbt.Client.Iovec
import Vbt.Client.Medium
import Vbt.Core.Acl
import Vbt.Core.Addresses
import Vbt.Core.AdvTypes
import Vbt.Core.Calls
import Vbt.Core.Causes
import Vbt.Core.Commands
import Vbt.Core.Connections
import Vbt.Core.Contract
import Vbt.Core.Discovery
import Vbt.Core.Effects
import Vbt.Core.Emission
import Vbt.Core.Encryption
import Vbt.Core.Ends
import Vbt.Core.Handles
import Vbt.Core.HostView
import Vbt.Core.Locality
import Vbt.Core.Medium
import Vbt.Core.Output
import Vbt.Core.Packets
import Vbt.Core.Reactions
import Vbt.Core.Requests
import Vbt.Core.Seeds
import Vbt.Core.State
import Vbt.Fleet.Advertising
import Vbt.Fleet.Att
import Vbt.Fleet.Gatt
import Vbt.Fleet.Layout
import Vbt.Fleet.Mtu
import Vbt.Fleet.Secrecy
import Vbt.Fleet.Services
import Vbt.Fleet.Subscriptions
import Vbt.Hub.Air
import Vbt.Hub.Backlog
import Vbt.Hub.Binding
import Vbt.Hub.Bridges
import Vbt.Hub.Broadcast
import Vbt.Hub.Chunks
import Vbt.Hub.Churn
import Vbt.Hub.Config
import Vbt.Hub.ConfigText
import Vbt.Hub.ConnTable
import Vbt.Hub.Control
import Vbt.Hub.Decode
import Vbt.Hub.Effects
import Vbt.Hub.FanOut
import Vbt.Hub.Forward
import Vbt.Hub.Hands
import Vbt.Hub.Hello
import Vbt.Hub.Identity
import Vbt.Hub.Kept
import Vbt.Hub.Learning
import Vbt.Hub.Local
import Vbt.Hub.MainLoop
import Vbt.Hub.Mirror
import Vbt.Hub.Monitor
import Vbt.Hub.Overrides
import Vbt.Hub.Receive
import Vbt.Hub.Refine
import Vbt.Hub.Router
import Vbt.Hub.Routing
import Vbt.Hub.Run
import Vbt.Hub.Sessions
import Vbt.Hub.Snoop
import Vbt.Hub.Stability
import Vbt.Hub.State
import Vbt.Hub.Tables
import Vbt.Hub.ThirdParty
import Vbt.Hub.Twin
import Vbt.Hub.Undisturbed
import Vbt.Lib.Bytes
import Vbt.Lib.CString
import Vbt.Lib.Decimal
import Vbt.Lib.Flood
import Vbt.Lib.Framing
import Vbt.Lib.Journal
import Vbt.Lib.Keyed
import Vbt.Lib.Lines
import Vbt.Lib.Located
import Vbt.Lib.Measure
import Vbt.Lib.Paging
import Vbt.Lib.RingBuffer
import Vbt.Lib.Scatter
import Vbt.Lib.Slots
import Vbt.Lib.Stream
import Vbt.Lib.Tree
import Vbt.System.Agreement
import Vbt.System.Dialog
import Vbt.System.EndToEnd
import Vbt.System.Establishment
import Vbt.System.Flooding
import Vbt.System.Handshake
import Vbt.System.Mapping
import Vbt.System.Mesh
import Vbt.System.Net
import Vbt.System.Phase
import Vbt.System.PointToPoint
import Vbt.System.Quiet
import Vbt.System.Refine
import Vbt.System.Relay
import Vbt.System.RoundTrip
import Vbt.System.Streaming
import Vbt.Wire.Frame
