import Nut.Lib.SearchTree
import Nut.Common.Parseconf
import Nut.Common.Lexer
import Nut.Common.Words
import Nut.Common.Lines
import Nut.Common.State
import Nut.Common.StateTree
import Nut.Common.Sets
import Nut.Common.Variables
import Nut.Common.Bounds
import Nut.Common.Eof
import Nut.Common.Continuation
import Nut.Common.Spacing
import Nut.Common.Encode
import Nut.Common.Buffers
import Nut.Common.Storage
import Nut.Drivers.Dstate
import Nut.Server.Sstate
import Nut.Server.Sections
import Nut.Server.Listen
import Nut.Server.Logins
import Nut.Server.Rights
import Nut.Server.Fsd
import Nut.Server.Stale
import Nut.Server.Logout
import Nut.Server.Setvar
import Nut.Clients.Slavesync
import Nut.Clients.Reload
import Nut.Clients.Timers
import Nut.Clients.Sendcmd
import Nut.Sync.Incremental
import Nut.Sync.Structural
import Nut.Sync.Dumpall
import Nut.Sync.Race
import Nut.Sync.Fragments
import Nut.Sync.Escaped
import Nut.Sync.Forward
import Nut.Sync.Override
import Nut.Sync.Lists
import Nut.Sync.Agreement
import Nut.Server.Restart
import Nut.Server.Desc
import Nut.Server.Unopened
import Nut.Clients.Nutclient
import Nut.Clients.Explode
import Nut.Clients.Descriptions
import Nut.Clients.Pollups
import Nut.Drivers.Layout
import Nut.Drivers.Libhid
import Nut.Clients.Linestate
import Nut.Clients.Readline
import Nut.Clients.Response
import Nut.Sync.Dispatch
import Nut.Clients.Commands
import Nut.Clients.Commstate
import Nut.Clients.Hostsync
import Nut.Clients.Splitname
import Nut.Drivers.Getvalue
import Nut.Drivers.Lookup
import Nut.Drivers.Reportbuf
import Nut.Drivers.Outline
import Nut.Drivers.Bounds
import Nut.Drivers.Fields
import Nut.Drivers.Serial
import Nut.Drivers.Reassembly
import Nut.Drivers.Reply
import Nut.Drivers.Paths
import Nut.Drivers.Phases
import Nut.Drivers.Failures
import Nut.Drivers.Outlets
import Nut.Drivers.Setvar
import Nut.Clients.Cgilib
import Nut.Clients.Cgiargs
import Nut.Clients.Socketread
import Nut.Tools.NutscanIp
import Nut.Drivers.Upsdrvctl
import Nut.Drivers.Sdorder
import Nut.Server.Flags
import Nut.Clients.Upslog
import Nut.Drivers.DummyUps
import Nut.Drivers.Announce
import Nut.Clients.Rendering
import Nut.Drivers.Provenance
import Nut.Drivers.Rounds
import Nut.Sync.Reading
import Nut.Sync.Shutdown
import Nut.Drivers.HidStatus
import Nut.Sync.Republish
