import Parley.Base64
import Parley.Message.Kind
import Parley.Text.Quoted
import Parley.Text.Utf8

/-!
# What can be wrong with bytes on the wire

A `Message.Fault` says why a frame could not be split off a stream, or why its body is no message. It ends the connection
that it came from, never the program.
-/

namespace Parley.Message

/-- What is wrong with the payload of a known kind. -/
inductive Defect where
  /-- An identity is a name, an address and a port: three fields, not `count`. -/
  | fieldCount (count : Nat)
  /-- A field that should be an IPv4 address. -/
  | address (field : String)
  /-- A field that should be a port. -/
  | port (field : String)
  /-- A field that should be a timestamp. -/
  | timestamp (field : String)
  /-- An operation id is followed by a line feed. -/
  | missingNewline
  /-- An operation may not hold an operation. -/
  | nestedOperation
  /-- An updated advert needs a token and a payload. -/
  | missingPayload
  /-- A room token has at least one character. -/
  | emptyToken
  /-- A defect told in words. -/
  | other (reason : String)
  deriving DecidableEq, Repr

/-- The wording of a defect. -/
def Defect.message : Defect → String
  | .fieldCount n => s!"expected <name> <ip> <port>, got {n} fields"
  | .address f => s!"bad IPv4 address {Text.quoted f}"
  | .port f => s!"bad port {Text.quoted f}"
  | .timestamp f => s!"bad timestamp {Text.quoted f}"
  | .missingNewline => "missing newline after operation id"
  | .nestedOperation => "nested QUE"
  | .missingPayload => "expected <token> <payload>"
  | .emptyToken => "empty room token"
  | .other reason => reason

/-- Why bytes are no frame, or a body no message. -/
inductive Fault where
  /-- The body does not begin with the code of a kind. -/
  | unknownKind (code : String)
  /-- The kind is known, but its payload is wrong. -/
  | malformed (kind : Kind) (defect : Defect)
  /-- The body is no UTF-8 text. -/
  | utf8 (fault : Utf8.Fault)
  /-- A field is no Base64 text. -/
  | base64 (fault : Base64.Fault)
  /-- An operation id cannot be read. -/
  | operationId
  /-- The header has a port above the last one. -/
  | headerPort (port : Nat)
  /-- The body is longer than the limit. -/
  | tooLarge (length limit : Nat)
  /-- The stream failed. -/
  | stream (reason : String)
  deriving DecidableEq, Repr

/-- The wording of a fault. -/
def Fault.message : Fault → String
  | .unknownKind code => s!"unknown message type code: {Text.quoted code}"
  | .malformed kind defect => s!"malformed {kind.code} payload: {defect.message}"
  | .utf8 f => s!"body is not valid UTF-8: {f.message}"
  | .base64 f => s!"invalid base64 field: {f.message}"
  | .operationId => "invalid operation id"
  | .headerPort p => s!"header port {p} is out of range"
  | .tooLarge n limit => s!"frame body of {n} bytes exceeds limit of {limit}"
  | .stream reason => s!"stream error: {reason}"

end Parley.Message
