import LanguageSessions.CommandLine.Help
import LanguageSessions.CommandLine.Invocation
import LanguageSessions.CommandLine.Probe
import LanguageSessions.CommandLine.Program
import LanguageSessions.CommandLine.Report
import LanguageSessions.CommandLine.Usage
import LanguageSessions.Connection.Basic
import LanguageSessions.Connection.Channel
import LanguageSessions.Connection.Diagnostics
import LanguageSessions.Connection.Exchange
import LanguageSessions.Connection.Log
import LanguageSessions.Decimal.Binary64
import LanguageSessions.Decimal.Shortest
import LanguageSessions.Fault
import LanguageSessions.Host.Address
import LanguageSessions.Host.Basic
import LanguageSessions.Host.FileTree
import LanguageSessions.Host.SearchPath
import LanguageSessions.Json.Basic
import LanguageSessions.Json.Printer
import LanguageSessions.Json.Reader
import LanguageSessions.Json.Record
import LanguageSessions.Main
import LanguageSessions.Proofs.Connection.Events
import LanguageSessions.Proofs.Text.Unsigned
import LanguageSessions.Proofs.Registry.Diary
import LanguageSessions.Proofs.Wire.Grammar
import LanguageSessions.Provider
import LanguageSessions.Registry.Basic
import LanguageSessions.Registry.Call
import LanguageSessions.Registry.Tables
import LanguageSessions.Registry.Turns
import LanguageSessions.Scheduler.Basic
import LanguageSessions.Scheduler.Feed
import LanguageSessions.Session.Basic
import LanguageSessions.Session.Capabilities
import LanguageSessions.Session.Cleanup
import LanguageSessions.Session.Handshake
import LanguageSessions.Session.Introduction
import LanguageSessions.Session.Summary
import LanguageSessions.Session.Timing
import LanguageSessions.Settings.Basic
import LanguageSessions.Settings.Files
import LanguageSessions.Settings.Printer
import LanguageSessions.Settings.Reader
import LanguageSessions.Shell.Activity
import LanguageSessions.Shell.Interpreter
import LanguageSessions.Shell.Program
import LanguageSessions.Shell.Reader
import LanguageSessions.Shell.Script
import LanguageSessions.Shell.Words
import LanguageSessions.Simulation.Command
import LanguageSessions.Simulation.FarEnd
import LanguageSessions.Simulation.Run
import LanguageSessions.Simulation.Script
import LanguageSessions.Simulation.World
import LanguageSessions.Text.Blank
import LanguageSessions.Text.Digits
import LanguageSessions.Text.Hidden
import LanguageSessions.Text.Quoted
import LanguageSessions.Text.Utf8
import LanguageSessions.Toml.Basic
import LanguageSessions.Toml.Draft
import LanguageSessions.Toml.Quoted
import LanguageSessions.Toml.Reader
import LanguageSessions.Toml.Scalar
import LanguageSessions.Wire.Frame
import LanguageSessions.Wire.Message
import LanguageSessions.Workspace.Path
import LanguageSessions.Workspace.Project
import LanguageSessions.Workspace.Uri
import LanguageSessions.Proofs.Connection.Requests
import LanguageSessions.Proofs.Connection.Ledger
import LanguageSessions.Proofs.Connection.Death
import LanguageSessions.Proofs.Session.Life
import LanguageSessions.Proofs.Registry.Sessions
import LanguageSessions.Proofs.Registry.Tables
import LanguageSessions.Proofs.Registry.Sound
import LanguageSessions.Proofs.Registry.Operations
import LanguageSessions.Proofs.Registry.Launch
import LanguageSessions.Proofs.Registry.Calls
import LanguageSessions.Proofs.Registry.Service
import LanguageSessions.Proofs.Registry.Invariant
import LanguageSessions.Proofs.Registry.Cleanups
import LanguageSessions.Proofs.Registry.Consistency
import LanguageSessions.Proofs.Registry.Reuse
import LanguageSessions.Proofs.Connection.Answers
import LanguageSessions.Proofs.Session.Rejection
import LanguageSessions.Proofs.Scheduler.Table
import LanguageSessions.Proofs.Scheduler.Bench
import LanguageSessions.Proofs.Scheduler.Lanes
import LanguageSessions.Proofs.Text.Decimal
import LanguageSessions.Proofs.Text.Utf8
import LanguageSessions.Proofs.Wire.Frame
import LanguageSessions.Proofs.Connection.Reading
import LanguageSessions.Proofs.Json.RoundTrip
import LanguageSessions.Proofs.Json.Reading
import LanguageSessions.Proofs.Wire.Message
import LanguageSessions.Proofs.Wire.RoundTrip
import LanguageSessions.Proofs.Simulation.Rounds
import LanguageSessions.Proofs.Scheduler.Course
import LanguageSessions.Proofs.Scheduler.Invariant
import LanguageSessions.Proofs.Registry.Launches
import LanguageSessions.Proofs.Registry.Replacement
import LanguageSessions.Proofs.Scheduler.Debounce
import LanguageSessions.Proofs.Scheduler.Load
import LanguageSessions.Proofs.Scheduler.Quiescence
import LanguageSessions.Proofs.Scheduler.Relaunch
import LanguageSessions.Proofs.Scheduler.Following
import LanguageSessions.Proofs.Session.Lifecycle
import LanguageSessions.Proofs.Session.Lifetime
import LanguageSessions.Proofs.Session.Opening
import LanguageSessions.Proofs.Session.Announcement
import LanguageSessions.Proofs.Session.Later
import LanguageSessions.Proofs.Registry.Later
import LanguageSessions.Proofs.Registry.Failure
import LanguageSessions.Proofs.Registry.Leniency
import LanguageSessions.Proofs.Registry.Roots
import LanguageSessions.Proofs.Registry.Upkeep
import LanguageSessions.Proofs.Registry.Annals
import LanguageSessions.Proofs.Registry.Resolution
import LanguageSessions.Proofs.Lists.Lookup
import LanguageSessions.Proofs.Lists.Sorted
import LanguageSessions.Proofs.Toml.Tables
import LanguageSessions.Proofs.Toml.Distinct
import LanguageSessions.Proofs.Toml.Paths
import LanguageSessions.Proofs.Settings.Precedence
import LanguageSessions.Proofs.Settings.Spellings
import LanguageSessions.Proofs.Workspace.Uri
import LanguageSessions.Proofs.Workspace.Escapes
import LanguageSessions.Proofs.Workspace.Path
import LanguageSessions.Proofs.Host.Walk
import LanguageSessions.Proofs.Host.Places
import LanguageSessions.Proofs.Workspace.Under
import LanguageSessions.Proofs.Workspace.Project
import LanguageSessions.Proofs.Workspace.ContentTypes
import LanguageSessions.Proofs.CommandLine.Servers
import LanguageSessions.Proofs.Wire.Shapes
import LanguageSessions.Proofs.Connection.Writing
import LanguageSessions.Proofs.Connection.Replies
import LanguageSessions.Proofs.Session.Disposal
import LanguageSessions.Proofs.Session.Patience
import LanguageSessions.Proofs.Registry.Queue
import LanguageSessions.Proofs.Registry.Shutdown
import LanguageSessions.Proofs.Registry.Ending
import LanguageSessions.Proofs.Connection.Log
import LanguageSessions.Proofs.Connection.Diagnostics
import LanguageSessions.Proofs.Provider.Selection
import LanguageSessions.Proofs.Text.ByteOrder
import LanguageSessions.Proofs.Workspace.Extensions
import LanguageSessions.Proofs.Workspace.TypeLookup
import LanguageSessions.Proofs.Toml.Paths
import LanguageSessions.Proofs.Host.Places
import LanguageSessions.Proofs.Workspace.Project
