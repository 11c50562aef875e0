import ScriptDebug.Ascending
import ScriptDebug.Breakpoint
import ScriptDebug.Breakpoint.Table
import ScriptDebug.Context
import ScriptDebug.Context.Rendezvous
import ScriptDebug.Debugger.Failure
import ScriptDebug.Debugger.Host
import ScriptDebug.Debugger.Logic
import ScriptDebug.Debugger.Operation
import ScriptDebug.Debugger.Schedule
import ScriptDebug.Debugger.Session
import ScriptDebug.Debugger.State
import ScriptDebug.Debugger.Step
import ScriptDebug.Decimal.Nearest
import ScriptDebug.Decimal.Shortest
import ScriptDebug.Demo
import ScriptDebug.Files
import ScriptDebug.Handle
import ScriptDebug.Hook.Escalation
import ScriptDebug.Hook.Event
import ScriptDebug.Json.Basic
import ScriptDebug.Json.Parser
import ScriptDebug.Json.Printer
import ScriptDebug.Json.Record
import ScriptDebug.Main
import ScriptDebug.Proofs.Access
import ScriptDebug.Proofs.Admission
import ScriptDebug.Proofs.Alone
import ScriptDebug.Proofs.Arrivals
import ScriptDebug.Proofs.Asked
import ScriptDebug.Proofs.Calling
import ScriptDebug.Proofs.Calls
import ScriptDebug.Proofs.Codec
import ScriptDebug.Proofs.Effects
import ScriptDebug.Proofs.Framing
import ScriptDebug.Proofs.Freeze
import ScriptDebug.Proofs.Handler
import ScriptDebug.Proofs.Hit
import ScriptDebug.Proofs.Latecomers
import ScriptDebug.Proofs.Listening
import ScriptDebug.Proofs.Lock
import ScriptDebug.Proofs.Matching
import ScriptDebug.Proofs.Notice
import ScriptDebug.Proofs.Outcome
import ScriptDebug.Proofs.Parking
import ScriptDebug.Proofs.Pausing
import ScriptDebug.Proofs.Picture
import ScriptDebug.Proofs.Registration
import ScriptDebug.Proofs.Registry
import ScriptDebug.Proofs.Reloading
import ScriptDebug.Proofs.Removal
import ScriptDebug.Proofs.Rendezvous
import ScriptDebug.Proofs.Requests
import ScriptDebug.Proofs.Resume
import ScriptDebug.Proofs.Sending
import ScriptDebug.Proofs.Sends
import ScriptDebug.Proofs.Sight
import ScriptDebug.Proofs.Stragglers
import ScriptDebug.Proofs.Table
import ScriptDebug.Proofs.Texts
import ScriptDebug.Proofs.Turns
import ScriptDebug.Proofs.Unread
import ScriptDebug.Proofs.Visits
import ScriptDebug.Proofs.Writers
import ScriptDebug.Proofs.Yields
import ScriptDebug.Protocol.Command
import ScriptDebug.Protocol.Message
import ScriptDebug.Protocol.Request
import ScriptDebug.Protocol.Session
import ScriptDebug.Rehearsal.Host
import ScriptDebug.Rehearsal.Logic
import ScriptDebug.Rehearsal.Sink
import ScriptDebug.Script.Expression
import ScriptDebug.Script.Host
import ScriptDebug.Script.Literal
import ScriptDebug.Script.Loading
import ScriptDebug.Script.Machine
import ScriptDebug.Script.Program
import ScriptDebug.Script.Trace
import ScriptDebug.Script.Value
import ScriptDebug.Server.Service
import ScriptDebug.Server.Session
import ScriptDebug.Server.Slot
import ScriptDebug.Settings.Basic
import ScriptDebug.Settings.Loading
import ScriptDebug.Settings.Reading
import ScriptDebug.Settings.Record
import ScriptDebug.Station
import ScriptDebug.Text.Blank
import ScriptDebug.Text.FilePath
import ScriptDebug.Text.Lines
import ScriptDebug.Text.Numeral
import ScriptDebug.Text.Quoted
import ScriptDebug.Text.Shown
import ScriptDebug.Toml.Basic
import ScriptDebug.Toml.Reader
import ScriptDebug.Value
import ScriptDebug.Value.Graph
import ScriptDebug.Wire.Channel
import ScriptDebug.Wire.Frame
import ScriptDebug.Wire.Pipe
import ScriptDebug.Wire.Reading
import ScriptDebug.Wire.Writing
import ScriptDebug.Proofs.Course
import ScriptDebug.Proofs.Tour
import ScriptDebug.Proofs.Running
import ScriptDebug.Proofs.Tracing
import ScriptDebug.Proofs.Transparency
import ScriptDebug.Proofs.Stack
import ScriptDebug.Proofs.Inspection
import ScriptDebug.Proofs.Hooking
import ScriptDebug.Proofs.Places
import ScriptDebug.Proofs.Deepening
import ScriptDebug.Proofs.Members
import ScriptDebug.Proofs.Feedback
import ScriptDebug.Proofs.Roster
import ScriptDebug.Proofs.Discretion
import ScriptDebug.Proofs.Failing
import ScriptDebug.Proofs.ByteOrder
import ScriptDebug.Proofs.Edits
import ScriptDebug.Proofs.Precedence
import ScriptDebug.Proofs.Legibility
import ScriptDebug.Proofs.Cutting
import ScriptDebug.Proofs.Fetching
import ScriptDebug.Proofs.Naming
import ScriptDebug.Proofs.Assigning
import ScriptDebug.Proofs.Comments
import ScriptDebug.Proofs.Tokens
import ScriptDebug.Proofs.Reread
import ScriptDebug.Proofs.Addressing
import ScriptDebug.Proofs.Accounting
import ScriptDebug.Proofs.Abiding
import ScriptDebug.Proofs.Attaching
import ScriptDebug.Proofs.Minding
import ScriptDebug.Proofs.Crew
import ScriptDebug.Proofs.Launching
import ScriptDebug.Proofs.Undoing
