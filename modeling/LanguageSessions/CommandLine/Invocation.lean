import LanguageSessions.CommandLine.Usage

namespace LanguageSessions.CommandLine

inductive Request where
  | probe (file : String) (holdMillis : Nat) (withLog : Bool)
  | attach (root address : String) (extensions : List String)
  | servers (missingOnly : Bool)
  | createSettings (ofUser force : Bool)
  | showSettings (ofUser : Bool)
  | settingsPath (ofUser : Bool)
  deriving DecidableEq, Repr

structure Invocation where
  request : Request
  verbose : Bool := false
  deriving DecidableEq, Repr

def sharedOptions : List Argument := [
  { name := "verbose", letter := some 'v', about := "Verbose output (show debug info)" },
  { name := "help", letter := some 'h', role := .help, about := "Print help" },
  { name := "version", letter := some 'V', role := .version, about := "Print version" }]

def probeCommand : CommandSpec where
  name := "probe"
  about := "Start the server for a file and print its capabilities"
  options := [
    { name := "hold-ms", role := .value .count
      about := "Open the file and wait this long for diagnostics before shutting down [default: 0]" },
    { name := "log", about := "Include the server's log messages" }]
  operands := [
    { name := "file", role := .value .path, required := true
      about := "File whose server should be started" }]

def attachCommand : CommandSpec where
  name := "attach"
  about := "Attach to a running server over TCP"
  options := [
    { name := "port", role := .value .port, required := true
      about := "TCP port the server listens on" },
    { name := "host", role := .value .address
      about := "Host the server listens on [default: 127.0.0.1]" },
    { name := "ext", role := .values .text, required := true
      about := "File extensions served by this connection (repeatable)" }]
  operands := [
    { name := "root", role := .value .path, required := true
      about := "Workspace root the server serves" }]

def serversCommand : CommandSpec where
  name := "servers"
  about := "List configured servers and whether they are installed"
  options := [
    { name := "missing-only", about := "Only list servers whose command is not on PATH" }]

def configCommand : CommandSpec where
  name := "config"
  about := "Configuration management"
  commands := [
    { name := "init", about := "Write the default configuration file"
      options := [
        { name := "global", about := "Initialize global config (~/.config/lspbind)" },
        { name := "force", letter := some 'f', about := "Force overwrite existing config" }] },
    { name := "show", about := "Show the effective configuration"
      options := [{ name := "global", about := "Show global config only" }] },
    { name := "path", about := "Show config file path"
      options := [{ name := "global", about := "Show global config path" }] }]

def program : CommandSpec where
  name := "lspbind"
  about := "Client-side language server session manager: launch, reuse, idle-evict and schedule "
    ++ "work against LSP servers"
  introduction := some ("lspbind - language server sessions on demand\n\n"
    ++ "Starts the configured language server for a file's project and content\n"
    ++ "type, performs the initialize handshake and reports what the server\n"
    ++ "can do.\n\n"
    ++ "EXAMPLES:\n"
    ++ "  lspbind probe src/main.rs                  # Launch, handshake, print capabilities\n"
    ++ "  lspbind attach . --port 2087 --ext py      # Use a server already listening on TCP\n"
    ++ "  lspbind servers                            # Which configured servers are installed\n"
    ++ "  lspbind config show                        # Effective configuration\n")
  commands := [probeCommand, attachCommand, serversCommand, configCommand]

def version : String := "0.1.0"

def Given.count (g : Given) (name : String) (absent : Nat) : Nat :=
  ((g.value? name).bind (signedCount? Text.max64)).getD absent

def Given.address (g : Given) : String :=
  (((g.value? "host").bind IpAddress.parse?).getD .loopback).withPort (Given.count g "port" 0)

def Request.ofGiven? (way : List String) (g : Given) : Option Request :=
  match way with
  | ["probe"] =>
    (g.value? "file").map fun file => .probe file (Given.count g "hold-ms" 0) (g.has "log")
  | ["attach"] => (g.value? "root").map fun root => .attach root g.address (g.values "ext")
  | ["servers"] => some (.servers (g.has "missing-only"))
  | ["config", "init"] => some (.createSettings (g.has "global") (g.has "force"))
  | ["config", "show"] => some (.showSettings (g.has "global"))
  | ["config", "path"] => some (.settingsPath (g.has "global"))
  | _ => none

def Invocation.read (words : List String) : Except Usage Invocation := do
  let (way, given) ← program.read sharedOptions words
  match Request.ofGiven? way given with
  | some request => return { request, verbose := given.has "verbose" }
  | none => throw (.wrong .missingArgument)

end LanguageSessions.CommandLine
