import LanguageSessions.Json.Record

namespace LanguageSessions

inductive Feature where
  | hover
  | references
  | documentHighlight
  | foldingRange
  | codeAction
  | rename
  | documentSymbol
  | documentFormatting
  | documentRangeFormatting
  deriving DecidableEq, Repr

namespace Feature

def all : List Feature :=
  [hover, references, documentHighlight, foldingRange, codeAction, rename, documentSymbol,
    documentFormatting, documentRangeFormatting]

def name : Feature → String
  | hover => "hover"
  | references => "references"
  | documentHighlight => "documentHighlight"
  | foldingRange => "foldingRange"
  | codeAction => "codeAction"
  | rename => "rename"
  | documentSymbol => "documentSymbol"
  | documentFormatting => "documentFormatting"
  | documentRangeFormatting => "documentRangeFormatting"

def method : Feature → String
  | documentFormatting => "textDocument/formatting"
  | documentRangeFormatting => "textDocument/rangeFormatting"
  | f => "textDocument/" ++ f.name

def provider (f : Feature) : String := f.name ++ "Provider"

end Feature

structure ServerCapabilities where
  entries : List (String × Json) := []

namespace ServerCapabilities

def names : List String :=
  ["textDocumentSync", "hoverProvider", "completionProvider", "signatureHelpProvider",
    "referencesProvider", "documentHighlightProvider", "documentSymbolProvider",
    "codeActionProvider", "documentFormattingProvider", "documentRangeFormattingProvider",
    "renameProvider", "foldingRangeProvider", "semanticTokensProvider"]

def ofJson? (v : Json) : Option ServerCapabilities :=
  (Json.fields? names v).map fun fields =>
    ⟨(names.zip fields).filterMap fun e =>
      match e.2 with
      | none => none
      | some .null => none
      | some v => some (e.1, v)⟩

def toJson (c : ServerCapabilities) : Json := .object c.entries

def provided? (c : ServerCapabilities) (name : String) : Option Json := c.entries.lookup name

end ServerCapabilities

structure ServerInfo where
  name : String
  version : Option String := none
  deriving DecidableEq, Repr

namespace ServerInfo

def ofJson? (v : Json) : Option ServerInfo :=
  match Json.fields? ["name", "version"] v with
  | some [name, version] =>
    match Json.required Json.string? name, Json.optional Json.string? version with
    | some name, some version => some ⟨name, version⟩
    | _, _ => none
  | _ => none

def toJson (i : ServerInfo) : Json :=
  .object (("name", .string i.name) :: (i.version.map fun v => ("version", .string v)).toList)

end ServerInfo

structure Capabilities where
  announced : Option ServerCapabilities := none
  serverInfo : Option ServerInfo := none

structure CompletionOptions where
  resolveProvider : Option Bool
  triggerCharacters : Option (List String)
  allCommitCharacters : Option (List String)

structure SignatureHelpOptions where
  triggerCharacters : Option (List String)
  retriggerCharacters : Option (List String)

structure SemanticTokensLegend where
  tokenTypes : List String := []
  tokenModifiers : List String := []

structure SemanticTokensOptions where
  legend : SemanticTokensLegend
  range : Option Json
  full : Option Json

namespace Capabilities

def ofJson? (v : Json) : Option Capabilities :=
  match Json.fields? ["capabilities", "serverInfo"] v with
  | some [announced, info] =>
    match Json.optional ServerCapabilities.ofJson? announced,
        Json.optional ServerInfo.ofJson? info with
    | some announced, some info => some ⟨announced, info⟩
    | _, _ => none
  | _ => none

def toJson (c : Capabilities) : Json :=
  .object (("capabilities", Json.ofOption (c.announced.map ServerCapabilities.toJson))
    :: (c.serverInfo.map fun i => ("serverInfo", i.toJson)).toList)

def isEmpty (c : Capabilities) : Bool := c.announced.isNone

def provided? (c : Capabilities) (name : String) : Option Json :=
  c.announced.bind (·.provided? name)

def available : Option Json → Bool
  | some (.bool b) => b
  | some (.object _) => true
  | _ => false

def supports (c : Capabilities) (f : Feature) : Bool := available (c.provided? f.provider)

def summary (c : Capabilities) : List (Feature × Bool) := Feature.all.map fun f => (f, c.supports f)

def flags (c : Capabilities) : Json :=
  Json.ofMembers (c.summary.map fun e => (e.1.name, .bool e.2))

def options? (c : Capabilities) (name : String) (read : Json → Option α) : Option α :=
  ((c.provided? name).filter Json.isObject).bind read

def strings? : Json → Option (List String) := Json.list? Json.string?

def completion? (c : Capabilities) : Option CompletionOptions :=
  c.options? "completionProvider" fun v =>
    match Json.fields? ["resolveProvider", "triggerCharacters", "allCommitCharacters"] v with
    | some [resolve, trigger, commit] =>
      match Json.optional Json.bool? resolve, Json.optional strings? trigger,
          Json.optional strings? commit with
      | some resolve, some trigger, some commit => some ⟨resolve, trigger, commit⟩
      | _, _, _ => none
    | _ => none

def signatureHelp? (c : Capabilities) : Option SignatureHelpOptions :=
  c.options? "signatureHelpProvider" fun v =>
    match Json.fields? ["triggerCharacters", "retriggerCharacters"] v with
    | some [trigger, retrigger] =>
      match Json.optional strings? trigger, Json.optional strings? retrigger with
      | some trigger, some retrigger => some ⟨trigger, retrigger⟩
      | _, _ => none
    | _ => none

def legend? (v : Json) : Option SemanticTokensLegend :=
  match Json.fields? ["tokenTypes", "tokenModifiers"] v with
  | some [types, modifiers] =>
    match Json.orElse strings? [] types, Json.orElse strings? [] modifiers with
    | some types, some modifiers => some ⟨types, modifiers⟩
    | _, _ => none
  | _ => none

def semanticTokens? (c : Capabilities) : Option SemanticTokensOptions :=
  c.options? "semanticTokensProvider" fun v =>
    match Json.fields? ["legend", "range", "full"] v with
    | some [legend, range, full] =>
      match Json.orElse legend? {} legend, Json.optional some range, Json.optional some full with
      | some legend, some range, some full => some ⟨legend, range, full⟩
      | _, _, _ => none
    | _ => none

def hoverOptions? (c : Capabilities) : Option Json := c.options? "hoverProvider" some

def textDocumentSync? (c : Capabilities) : Option Json := c.provided? "textDocumentSync"

end Capabilities

end LanguageSessions
