import LanguageSessions.Workspace.Project

namespace LanguageSessions

def clientName : String := "lspbind"
def clientVersion : String := "0.1.0"

def symbolKinds : Json := .array ((List.range 26).map fun i => .nat (i + 1))

def clientCapabilities : Json :=
  Json.ofMembers [
    ("textDocument", Json.ofMembers [
      ("documentSymbol", Json.ofMembers [
        ("dynamicRegistration", .bool true),
        ("hierarchicalDocumentSymbolSupport", .bool true),
        ("symbolKind", Json.ofMembers [("valueSet", symbolKinds)])]),
      ("documentHighlight", Json.ofMembers [("dynamicRegistration", .bool true)]),
      ("completion", Json.ofMembers [
        ("contextSupport", .bool true),
        ("dynamicRegistration", .bool true)])]),
    ("workspace", Json.ofMembers [
      ("workspaceEdit", Json.ofMembers [
        ("documentChanges", .bool true),
        ("resourceOperations", .array [.string "create", .string "rename", .string "delete"])]),
      ("symbol", Json.ofMembers [
        ("dynamicRegistration", .bool true),
        ("symbolKind", Json.ofMembers [("valueSet", symbolKinds)])])])]

def introduction (h : Host) (processId : Option Nat) (root : String) : Json :=
  Json.ofMembers [
    ("processId", Json.ofOption (processId.map Json.nat)),
    ("rootUri", .string (Uri.ofPath h root)),
    ("rootPath", .string root),
    ("capabilities", clientCapabilities),
    ("clientInfo", Json.ofMembers [("name", .string clientName), ("version", .string clientVersion)]),
    ("workspaceFolders", .array [(WorkspaceFolder.ofRoot h root).toJson])]

end LanguageSessions
