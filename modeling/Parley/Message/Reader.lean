import Parley.Message.Body

/-!
# Reading bodies

`Message.ofBody` reads the body of a plain message. More than what `Message.bodyChars` writes is accepted: blanks around
identities, ids and Base64 fields, other spellings of numbers and ids, empty lines in lists, and a payload after a code
that needs none. The checks are made from left to right, save that a queued operation is refused for holding another
operation before its id is looked at.
-/

namespace Parley.Message

/-- Base64 with blanks around it. -/
def readBase64 (cs : List Char) : Except Fault Bytes :=
  match Base64.decode (Utf8.encode (Text.trim cs)) with
  | .ok bs => .ok bs
  | .error f => .error (.base64 f)

/-- An operation id with blanks around it. -/
def readId (cs : List Char) : Except Fault OperationId :=
  match OperationId.ofChars? (Text.trim cs) with
  | some id => .ok id
  | none => .error .operationId

/-- A timestamp, a space and a text. Without a space the text is empty. -/
def readChat (payload : List Char) : Except Fault Message :=
  let (stamp, text) := (Text.cutAt ' ' payload).getD (payload, [])
  match Decimal.signed? UInt64.size stamp with
  | some n => .ok (.chat (UInt64.ofNat n) (String.ofList text))
  | none => .error (.malformed .chat (.timestamp (String.ofList stamp)))

/-- A token, a space and an advert in Base64. -/
def readUpdate (payload : List Char) : Except Fault Message :=
  match Text.cutAt ' ' payload with
  | none => .error (.malformed .hostUpdated .missingPayload)
  | some (token, advert) =>
    if token.isEmpty then .error (.malformed .hostUpdated .emptyToken)
    else do
      let bs ← readBase64 advert
      return .hostUpdated (String.ofList token) bs

/-- An operation id, a line feed and a body, read by `readInner`. -/
def readQueued (readInner : List Char → Except Fault Message) (payload : List Char) : Except Fault Message :=
  match Text.cutAt '\n' payload with
  | none => .error (.malformed .queue .missingNewline)
  | some (id, inner) =>
    if (Text.splitBytes 3 inner).map Prod.fst = some Kind.queue.code.toList then
      .error (.malformed .queue .nestedOperation)
    else do
      let id ← readId id
      let m ← readInner inner
      return .queue id m

/-- The message of a kind with a payload. The body inside a queued operation is read by `readInner`. -/
def readPayload (readInner : List Char → Except Fault Message) (kind : Kind) (payload : List Char) :
    Except Fault Message :=
  match kind with
  | .hello => .hello <$> Identity.ofWire kind payload
  | .userInfo => .userInfo <$> Identity.ofWire kind payload
  | .yourInfo => .yourInfo <$> Identity.ofWire kind payload
  | .deadUser => .deadUser <$> Identity.ofWire kind payload
  | .chat => readChat payload
  | .ack => .ok (.ack (String.ofList payload))
  | .bye => .ok .bye
  | .roomList => .roomList <$> (Text.contentLines payload).mapM readBase64
  | .hostRoom => .hostRoom <$> readBase64 payload
  | .requestRoomList => .ok .requestRoomList
  | .rankOrder => .rankOrder <$> (Text.contentLines payload).mapM (Identity.ofWire kind)
  | .leaderVote => .ok .leaderVote
  | .leader => .ok .leader
  | .process => .process <$> readId payload
  | .queue => readQueued readInner payload
  | .hostUpdated => readUpdate payload

/-- The code at the head of a text, and what follows it: the first three octets, or the whole text if these are no whole
characters. -/
def splitCode (text : List Char) : List Char × List Char := (Text.splitBytes 3 text).getD (text, [])

/-- Kind and payload of a body. The code is followed by the end of the text or by one space. -/
def readTag (text : List Char) : Except Fault (Kind × List Char) :=
  let (code, rest) := splitCode text
  match Kind.ofCode? (String.ofList code) with
  | none => .error (.unknownKind (String.ofList code))
  | some kind =>
    match rest with
    | [] => .ok (kind, [])
    | ' ' :: payload => .ok (kind, payload)
    | _ => .error (.unknownKind (String.ofList (text.take 4)))

/-- The message of a body inside a queued operation, which is itself none. -/
def ofInnerChars (text : List Char) : Except Fault Message := do
  let (kind, payload) ← readTag text
  readPayload (fun _ => .error (.malformed .queue .nestedOperation)) kind payload

/-- The message that a text is the body of. -/
def ofBodyChars (text : List Char) : Except Fault Message := do
  let (kind, payload) ← readTag text
  readPayload ofInnerChars kind payload

/-- The text of a byte string, or why it is none. -/
def textOf (bs : Bytes) : Except Fault (List Char) :=
  match Utf8.decode bs with
  | .ok cs => .ok cs
  | .error f => .error (.utf8 f)

/-- The plain message that a byte string is the body of. -/
def ofBody (bs : Bytes) : Except Fault Message := do
  let text ← textOf bs
  ofBodyChars text

end Parley.Message
