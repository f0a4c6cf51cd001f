import Ebabf.Py.Text
import Ebabf.Py.Dict
import Ebabf.Py.Float
import Ebabf.Py.FloatRounding
import Ebabf.Py.FloatOrder
import Ebabf.Py.Statistics
import Ebabf.Py.Json
import Ebabf.Py.JsonRoundTrip
import Ebabf.Py.Utf8
import Ebabf.Py.JsonText
import Ebabf.Py.Datetime
import Ebabf.Py.Instant
import Ebabf.Py.Isoformat
import Ebabf.Py.Utc
import Ebabf.Py.Proc
import Ebabf.Py.Path
import Ebabf.Py.Argparse
import Ebabf.Schema.Enums
import Ebabf.Schema.Event
import Ebabf.Sql.Table
import Ebabf.Sql.Window
import Ebabf.Transition
import Ebabf.Grouping
import Ebabf.Retention
import Ebabf.Storage.EventStore
import Ebabf.Storage.Eviction
import Ebabf.Storage.Append
import Ebabf.Storage.Runs
import Ebabf.Storage.Ledger
import Ebabf.Storage.Storable
import Ebabf.Posix
import Ebabf.Engine.KillSwitch
import Ebabf.Engine.Engage
import Ebabf.Engine.Tamper
import Ebabf.Posix.Publish
import Ebabf.Engine.Concurrent
import Ebabf.Engine.Operators
import Ebabf.Engine.SwitchCommand
import Ebabf.Engine.Decision
import Ebabf.Engine.Enforcement
import Ebabf.Runner.Handle
import Ebabf.Runner.Sweep
import Ebabf.Runner.Run
import Ebabf.Packaging
import Ebabf.Systemd.Words
import Ebabf.Bootstrap.Main
import Ebabf.Runner.Shutdown
import Ebabf.Runner.Accounts
import Ebabf.Bootstrap.Unit
import Ebabf.Collectors.FlowTable
import Ebabf.Collectors.FlowRuns
import Ebabf.Collectors.Conversations
import Ebabf.Collectors.Base
import Ebabf.Collectors.Network
import Ebabf.Storage.IdentityStore
import Ebabf.Storage.Pseudonymizer
import Ebabf.Storage.Gaps
import Ebabf.Storage.Reading
import Ebabf.Storage.Bridge
import Ebabf.Storage.Disclosure
import Ebabf.Collectors.FileMonitor
import Ebabf.Collectors.Owners
import Ebabf.Collectors.Process
import Ebabf.Py.FloatPack
import Ebabf.Py.FloatNearest
import Ebabf.Py.FloatRepr
import Ebabf.Py.JsonFloats
import Ebabf.Py.JsonDepth
import Ebabf.Storage.KeyFile
import Ebabf.Storage.KeyRace
import Ebabf.Storage.KeyLoss
import Ebabf.Storage.Guards
import Ebabf.Storage.DiskFloor
import Ebabf.Storage.Downtime
import Ebabf.Storage.Queries
import Ebabf.Storage.RoundTrip
import Ebabf.Py.Lines
import Ebabf.Regex
import Ebabf.Collectors.AuthLog
import Ebabf.Collectors.PamFailure
import Ebabf.Collectors.AuthSources
import Ebabf.Collectors.UserActivity
import Ebabf.Collectors.AuthRuns
import Ebabf.Bootstrap.Hours
import Ebabf.Storage.Outages
import Ebabf.Runner.Coverage
import Ebabf.Collectors.SensitivePaths
import Ebabf.Collectors.FileRuns
import Ebabf.Collectors.FileCounts
import Ebabf.Collectors.FileWindows
import Ebabf.Storage.Chronology
import Ebabf.Bootstrap.Agent
import Ebabf.Collectors.Pseudonyms
import Ebabf.Collectors.FileWatches
import Ebabf.Collectors.Capture
import Ebabf.Bootstrap.UnitCommand
import Ebabf.Storage.Trail
import Ebabf.Collectors.Renaming
import Ebabf.Bootstrap.Report
import Ebabf.Bootstrap.Recording
