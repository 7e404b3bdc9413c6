import LanguageSessions.Fault
import LanguageSessions.Json.Printer
import LanguageSessions.Json.Reader
import LanguageSessions.Text.Quoted

/-!
The messages of a connection: requests, responses and notifications. `Message.ofJson?` tells them
apart by their shape: a method and an id that is not null make a request, a method alone a
notification, and anything else is read as a response.
-/
namespace LanguageSessions

def protocolVersion : String := "2.0"

inductive RequestId where
  | number (n : Nat)
  | text (s : String)
  deriving DecidableEq, Repr

namespace RequestId

def toJson : RequestId → Json
  | number n => .nat n
  | text s => .string s

def ofJson? : Json → Option RequestId
  | .string s => some (.text s)
  | v => (Json.nat? Text.max64 v).map .number

def display : RequestId → String
  | number n => toString n
  | text s => Text.quote s

def number? : RequestId → Option Nat
  | number n => some n
  | text s => Text.unsigned? Text.max64 s.toList

end RequestId

structure ResponseError where
  code : Int
  message : String
  data : Option Json := none

namespace ResponseError

def toJson (e : ResponseError) : Json :=
  .object ([("code", .integer e.code), ("message", .string e.message)]
    ++ (e.data.map fun v => ("data", v)).toList)

def ofJson? (v : Json) : Option ResponseError :=
  match Json.fields? ["code", "message", "data"] v with
  | some [code, message, data] =>
    match Json.required (Json.integer? (-2147483648) 2147483647) code,
        Json.required Json.string? message, Json.optional some data with
    | some code, some message, some data => some ⟨code, message, data⟩
    | _, _, _ => none
  | _ => none

def display (e : ResponseError) : String := "[" ++ toString e.code ++ "] " ++ e.message

def fault (e : ResponseError) : Fault := .server e.code e.message

end ResponseError

structure Request where
  version : String := protocolVersion
  id : RequestId
  method : String
  params : Option Json := none

structure Notification where
  version : String := protocolVersion
  method : String
  params : Option Json := none

/-- The answer to a request; its id is absent only where the request could not be read. -/
structure Response where
  version : String := protocolVersion
  id : Option RequestId
  result : Option Json := none
  error : Option ResponseError := none

inductive Message where
  | request (r : Request)
  | notification (n : Notification)
  | response (r : Response)

def Json.member (key : String) (v : Option Json) : List (String × Json) :=
  (v.map fun v => (key, v)).toList

namespace Request

def toJson (r : Request) : Json :=
  .object ([("jsonrpc", .string r.version), ("id", r.id.toJson), ("method", .string r.method)]
    ++ Json.member "params" r.params)

def ofJson? (v : Json) : Option Request :=
  match Json.fields? ["jsonrpc", "id", "method", "params"] v with
  | some [version, id, method, params] =>
    match Json.orElse Json.string? protocolVersion version, Json.required RequestId.ofJson? id,
        Json.required Json.string? method, Json.optional some params with
    | some version, some id, some method, some params => some ⟨version, id, method, params⟩
    | _, _, _, _ => none
  | _ => none

end Request

namespace Notification

def toJson (n : Notification) : Json :=
  .object ([("jsonrpc", .string n.version), ("method", .string n.method)]
    ++ Json.member "params" n.params)

def ofJson? (v : Json) : Option Notification :=
  match Json.fields? ["jsonrpc", "method", "params"] v with
  | some [version, method, params] =>
    match Json.orElse Json.string? protocolVersion version,
        Json.required Json.string? method, Json.optional some params with
    | some version, some method, some params => some ⟨version, method, params⟩
    | _, _, _ => none
  | _ => none

end Notification

namespace Response

def success (id : RequestId) (result : Json) : Response := { id := some id, result := some result }

def failure (id : Option RequestId) (code : Int) (message : String) : Response :=
  { id := id, error := some { code := code, message := message } }

def toJson (r : Response) : Json :=
  .object ([("jsonrpc", .string r.version), ("id", Json.ofOption (r.id.map RequestId.toJson))]
    ++ Json.member "result" r.result
    ++ Json.member "error" (r.error.map ResponseError.toJson))

def ofJson? (v : Json) : Option Response :=
  match Json.fields? ["jsonrpc", "id", "result", "error"] v with
  | some [version, id, result, error] =>
    match Json.orElse Json.string? protocolVersion version, Json.optional RequestId.ofJson? id,
        Json.optional some result, Json.optional ResponseError.ofJson? error with
    | some version, some id, some result, some error => some ⟨version, id, result, error⟩
    | _, _, _, _ => none
  | _ => none

def outcome (r : Response) : Except ResponseError Json :=
  match r.error with
  | some e => .error e
  | none => .ok (Json.ofOption r.result)

end Response

namespace Message

def toJson : Message → Json
  | request r => r.toJson
  | notification n => n.toJson
  | response r => r.toJson

def text (m : Message) : String := m.toJson.compact

def ofJson? (v : Json) : Option Message :=
  let hasId := (v.get? "id").any fun id => !id.isNull
  if (v.get? "method").isSome then
    if hasId then (Request.ofJson? v).map .request else (Notification.ofJson? v).map .notification
  else (Response.ofJson? v).map .response

def parse (s : String) : Except Json.Error Message :=
  match Json.parse? s with
  | none => .error .malformed
  | some v =>
    match ofJson? v with
    | none => .error .shape
    | some m => .ok m

end Message

end LanguageSessions
