import Parley.Message.Basic

/-!
# The bodies of messages

The body of a plain message is its code, followed by a space and a payload if the kind has one. `Message.bodyChars` writes
bodies. The payloads are

* an identity, for the kinds that name one member; identities on lines of their own for a ranking;
* timestamp, space and text for a line of chat, and the bare text of an acknowledgement;
* Base64 for an advert, one line for each in a list, and token, space and Base64 for an updated advert;
* an operation id, and for a queued operation a line feed and the body of the message that it holds.

The body of a sealed message is its ciphertext in Base64, without a code.
-/

namespace Parley.Message

/-- Code, space and payload. -/
def tagged (kind : Kind) (payload : List Char) : List Char := kind.code.toList ++ ' ' :: payload

/-- The text of a body. -/
def bodyChars : Message → List Char
  | hello u => tagged .hello u.wireChars
  | userInfo u => tagged .userInfo u.wireChars
  | yourInfo u => tagged .yourInfo u.wireChars
  | deadUser u => tagged .deadUser u.wireChars
  | chat timestamp text => tagged .chat (Decimal.digits timestamp.toNat ++ ' ' :: text.toList)
  | ack info => tagged .ack info.toList
  | roomList entries => tagged .roomList (Text.join ['\n'] (entries.map Base64.encode))
  | hostRoom payload => tagged .hostRoom (Base64.encode payload)
  | rankOrder users => tagged .rankOrder (Text.join ['\n'] (users.map Identity.wireChars))
  | process id => tagged .process id.hyphenated
  | queue id inner => tagged .queue (id.hyphenated ++ '\n' :: inner.bodyChars)
  | hostUpdated token payload => tagged .hostUpdated (token.toList ++ ' ' :: Base64.encode payload)
  | bye => Kind.bye.code.toList
  | requestRoomList => Kind.requestRoomList.code.toList
  | leaderVote => Kind.leaderVote.code.toList
  | leader => Kind.leader.code.toList
  | sealed ciphertext => Base64.encode ciphertext

/-- The text of a body. -/
def body (m : Message) : String := String.ofList m.bodyChars

/-- The octets of a body. -/
def bodyBytes (m : Message) : Bytes := Utf8.encode m.bodyChars

end Parley.Message
