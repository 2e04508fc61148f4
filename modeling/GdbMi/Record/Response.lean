import GdbMi.Json
import GdbMi.Record.Basic

/-!
# Responses

A response is a record in the shape that front ends exchange: a type, which does not tell the kinds
of asynchronous records apart and calls the prompt done, the class as message, the payload as plain
data, and the token. `Record.toResponse` is `to_dict`, and `Kind.responseType` is `PYGDBMI_TYPES`.
-/

namespace GdbMi
set_option autoImplicit false

/-- The type of the responses to lines of the kind. -/
def Kind.responseType : Kind → String
  | exec => "notify"
  | status => "notify"
  | prompt => "done"
  | k => k.name

/-- A record as front ends exchange it. -/
structure Response where
  type : String
  message : Option Text
  payload : Content Payload
  token : Option Int

/-- The stream that every response names. -/
def Response.stream : String := "stdout"

/-- The response of a record. -/
def Record.toResponse (r : Record) : Response where
  type := r.kind.responseType
  message := r.recordClass
  payload := r.payload.map FieldList.toPayload
  token := r.token

/-- Content as JSON. -/
def Content.toJson : Content Payload → Json
  | absent => .null
  | text t => .text t
  | data p => p.toJson

/-- The response as a JSON object. -/
def Response.toJson (r : Response) : Json :=
  .object
    [("type", .text (Text.ofString r.type)),
     ("message", (r.message.map Json.text).getD .null),
     ("payload", r.payload.toJson),
     ("token", (r.token.map Json.number).getD .null),
     ("stream", .text (Text.ofString Response.stream))]

end GdbMi
