import Saltnitor.Lib.Machine
import Saltnitor.ProxyStream.Headers
import Saltnitor.ProxyStream.Abort
import Saltnitor.Error
import Saltnitor.Auth
import Saltnitor.Lib.Rewrite
import Saltnitor.Auth.Redactor
import Saltnitor.Config.Secrets
import Saltnitor.App.Logs
import Saltnitor.App.Inspector
import Saltnitor.Tuner.Panel
import Saltnitor.Main.Selection
import Saltnitor.App.Console
import Saltnitor.Lib.Worklist
import Saltnitor.Process.Interleave
import Saltnitor.ControlApi.Service
import Saltnitor.ControlApi.Estimate
import Saltnitor.ControlApi.ModelList
import Saltnitor.ControlApi.Serialize
import Saltnitor.ControlApi.Residency
import Saltnitor.Interrogate.Sse
import Saltnitor.Tuner.Race
import Saltnitor.Main.HotSwap
import Saltnitor.ControlApi.Cancel
import Saltnitor.Process.Name
import Saltnitor.Process.Scan
import Saltnitor.Main.TunerDraw
import Saltnitor.Config.ExpandPath
import Saltnitor.ControlApi.SizeWord
import Saltnitor.ControlApi.Stream
import Saltnitor.Hotswap
import Saltnitor.ControlApi.LastModel
import Saltnitor.Process.Terminate
import Saltnitor.Interrogate.Rates
import Saltnitor.Auth.Audit
import Saltnitor.ControlApi.QueryToken
import Saltnitor.Process.Table
import Saltnitor.Process.ComputeApps
import Saltnitor.Gpu
import Saltnitor.Lib.Repeats
import Saltnitor.Main.Deck
import Saltnitor.Main.History
import Saltnitor.Main.CrashDump
import Saltnitor.FakeLlama.Record
import Saltnitor.Config.UnknownKey
import Saltnitor.Rust.JsonSpelling
import Saltnitor.Rust.JsonRead
import Saltnitor.FakeLlama.Home
import Saltnitor.FakeLlama.HomeSpelling
import Saltnitor.FakeLlama.Capture
import Saltnitor.Lib.Fifo
import Saltnitor.Lib.Pipe
import Saltnitor.FakeLlama.Manifest
import Saltnitor.FakeLlama.Engine
import Saltnitor.FakeLlama.Resident
import Saltnitor.ControlApi.ClosedLoop
import Saltnitor.FakeLlama.Streams
import Saltnitor.Interrogate.Broken
import Saltnitor.Rust.JsonPrint
import Saltnitor.FakeLlama.Recording
import Saltnitor.FakeLlama.Replay
import Saltnitor.ControlApi.Progress
import Saltnitor.Main.Signals
import Saltnitor.ControlApi.Credentials
import Saltnitor.Interrogate.Served
import Saltnitor.Lib.Mailbox
import Saltnitor.Interrogate.Session
