import LanguageSessions.Json.Record

namespace LanguageSessions

inductive IoKind where
  | brokenPipe
  | unexpectedEof
  | connectionReset
  | connectionRefused
  | networkUnreachable
  | invalidData
  | invalidInput
  | invalidFilename
  | notFound
  | permissionDenied
  | isADirectory
  | notADirectory
  | directoryNotEmpty
  | alreadyExists
  | filesystemLoop
  | timedOut
  | interrupted
  | other
  deriving DecidableEq, Repr

namespace IoKind

def all : List IoKind :=
  [brokenPipe, unexpectedEof, connectionReset, connectionRefused, networkUnreachable, invalidData,
    invalidInput, invalidFilename, notFound, permissionDenied, isADirectory, notADirectory,
    directoryNotEmpty, alreadyExists, filesystemLoop, timedOut, interrupted, other]

def name : IoKind → String
  | brokenPipe => "BrokenPipe"
  | unexpectedEof => "UnexpectedEof"
  | connectionReset => "ConnectionReset"
  | connectionRefused => "ConnectionRefused"
  | networkUnreachable => "NetworkUnreachable"
  | invalidData => "InvalidData"
  | invalidInput => "InvalidInput"
  | invalidFilename => "InvalidFilename"
  | notFound => "NotFound"
  | permissionDenied => "PermissionDenied"
  | isADirectory => "IsADirectory"
  | notADirectory => "NotADirectory"
  | directoryNotEmpty => "DirectoryNotEmpty"
  | alreadyExists => "AlreadyExists"
  | filesystemLoop => "FilesystemLoop"
  | timedOut => "TimedOut"
  | interrupted => "Interrupted"
  | other => "Other"

def ofName (s : String) : IoKind := (all.find? (·.name == s)).getD other

def systemText : IoKind → String
  | brokenPipe => "Broken pipe (os error 32)"
  | connectionReset => "Connection reset by peer (os error 104)"
  | connectionRefused => "Connection refused (os error 111)"
  | networkUnreachable => "Network is unreachable (os error 101)"
  | invalidInput => "Invalid argument (os error 22)"
  | invalidFilename => "File name too long (os error 36)"
  | notFound => "No such file or directory (os error 2)"
  | permissionDenied => "Permission denied (os error 13)"
  | isADirectory => "Is a directory (os error 21)"
  | notADirectory => "Not a directory (os error 20)"
  | directoryNotEmpty => "Directory not empty (os error 39)"
  | alreadyExists => "File exists (os error 17)"
  | filesystemLoop => "Too many levels of symbolic links (os error 40)"
  | timedOut => "Connection timed out (os error 110)"
  | interrupted => "Interrupted system call (os error 4)"
  | invalidData => "stream did not contain valid UTF-8"
  | unexpectedEof => "early eof"
  | other => "Exec format error (os error 8)"

end IoKind

def methodNotFoundCode : Int := -32601
def requestCancelledCode : Int := -32800

/-- Marks, on this side only, a request whose connection closed before its answer. -/
def connectionClosedCode : Int := -32099

inductive Fault where
  | launch (reason : String)
  | notConnected
  | connectionClosed
  | timeout (method : String) (millis : Nat)
  | cancelled
  | server (code : Int) (message : String)
  | unexpected (reason : String)
  | io (kind : IoKind) (text : String)
  | json (error : Json.Error)
  deriving DecidableEq, Repr

namespace Fault

def message : Fault → String
  | launch reason => "Failed to launch server: " ++ reason
  | notConnected => "Server not connected"
  | connectionClosed => "Server closed the connection"
  | timeout method millis => "'" ++ method ++ "' timed out after " ++ toString millis ++ "ms"
  | cancelled => "Request cancelled"
  | server code message => "Server error [" ++ toString code ++ "]: " ++ message
  | unexpected reason => "Protocol error: " ++ reason
  | io _ text => text
  | json _ => "invalid JSON"

def code : Fault → Int
  | server code _ => code
  | connectionClosed => connectionClosedCode
  | timeout _ _ => -32001
  | notConnected => -32003
  | cancelled => requestCancelledCode
  | _ => -32000

def isCancelled : Fault → Bool
  | cancelled => true
  | server code _ => code == requestCancelledCode
  | _ => false

def isTimeout : Fault → Bool
  | timeout _ _ => true
  | _ => false

def isConnectionLost : Fault → Bool
  | connectionClosed => true
  | notConnected => true
  | io .brokenPipe _ => true
  | _ => false

def isRecoverable (f : Fault) : Bool := f.isConnectionLost || f.isTimeout || f.isCancelled

end Fault

inductive SessionFault where
  | noProvider (contentType : String)
  | noExtensions (root : String)
  | processExited (server : String)
  | connection (fault : Fault)
  deriving DecidableEq, Repr

def SessionFault.message : SessionFault → String
  | noProvider contentType => "No server provider accepted content type '" ++ contentType ++ "'"
  | noExtensions root => "Attaching " ++ root ++ " needs at least one file extension"
  | processExited server => server ++ " exited before completing the handshake"
  | connection fault => fault.message

inductive TaskFault where
  | interrupted
  | connection (fault : Fault)
  deriving DecidableEq, Repr

def TaskFault.message : TaskFault → String
  | interrupted => "Wait interrupted"
  | connection fault => fault.message

inductive SettingsFault where
  | parse (file : Option String) (reason : String)
  | invalidValue (key : String) (reason : String)
  | io (kind : IoKind) (text : String)
  deriving DecidableEq, Repr

def SettingsFault.message : SettingsFault → String
  | parse (some file) reason => "Config parse error: " ++ file ++ ": " ++ reason
  | parse none reason => "Config parse error: " ++ reason
  | invalidValue key reason => "Invalid value for '" ++ key ++ "': " ++ reason
  | io _ text => text

end LanguageSessions
