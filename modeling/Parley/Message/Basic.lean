import Parley.Identity
import Parley.OperationId

/-!
# Messages

Everything that members, the directory relay and its replicas say to each other. A message is plain, with a kind and a
three-letter code, or the sealed form of another message (`Message.sealed`), which has no kind.
-/

namespace Parley

/-- What nodes say to each other. -/
inductive Message where
  /-- "This is who I am." -/
  | hello (user : Identity)
  /-- From the host to members: a member has joined, connect to it. -/
  | userInfo (user : Identity)
  /-- From the relay: this is how you look from outside. -/
  | yourInfo (user : Identity)
  /-- A line of chat, stamped by its sender's clock. -/
  | chat (timestamp : UInt64) (text : String)
  /-- An acknowledgement; it carries the token of a room. -/
  | ack (info : String)
  /-- The sender is leaving. -/
  | bye
  /-- From the directory: the sealed adverts of all rooms. -/
  | roomList (entries : List Bytes)
  /-- To the directory: register a sealed advert. -/
  | hostRoom (payload : Bytes)
  /-- To the directory: list the rooms. -/
  | requestRoomList
  /-- From the host to a joiner: the ranking of the room. -/
  | rankOrder (users : List Identity)
  /-- A member is gone. -/
  | deadUser (user : Identity)
  /-- A vote for the receiver. -/
  | leaderVote
  /-- The sender has won the election. -/
  | leader
  /-- To a replica: carry out an operation; from it: the operation is queued. -/
  | process (id : OperationId)
  /-- To a replica: queue a request; from it: the result of an operation. -/
  | queue (id : OperationId) (inner : Message)
  /-- To the directory: replace the advert stored under a token. -/
  | hostUpdated (token : String) (payload : Bytes)
  /-- The sealed body of another message. -/
  | sealed (ciphertext : Bytes)
  deriving DecidableEq, Repr

namespace Message

/-- The kind of a plain message. -/
def kind? : Message → Option Kind
  | hello _ => some .hello
  | userInfo _ => some .userInfo
  | yourInfo _ => some .yourInfo
  | chat _ _ => some .chat
  | ack _ => some .ack
  | bye => some .bye
  | roomList _ => some .roomList
  | hostRoom _ => some .hostRoom
  | requestRoomList => some .requestRoomList
  | rankOrder _ => some .rankOrder
  | deadUser _ => some .deadUser
  | leaderVote => some .leaderVote
  | leader => some .leader
  | process _ => some .process
  | queue _ _ => some .queue
  | hostUpdated _ _ => some .hostUpdated
  | sealed _ => none

/-- The code by which reports name a message. -/
def label (m : Message) : String :=
  match m.kind? with
  | some k => k.code
  | none => "ENC"

/-- A message that can travel as plain text and be read back: every name in it is valid, every listed advert is not
empty, a token is not empty and holds no space, and an operation holds a plain message that is no operation. -/
def isWireValid : Message → Bool
  | hello u | userInfo u | yourInfo u | deadUser u => Identity.isValidName u.name
  | roomList entries => entries.all fun e => !e.isEmpty
  | rankOrder users => users.all fun u => Identity.isValidName u.name
  | queue _ inner => inner.kind? != some .queue && inner.isWireValid
  | hostUpdated token _ => !token.toList.isEmpty && !token.toList.contains ' '
  | sealed _ => false
  | chat _ _ | ack _ | bye | hostRoom _ | requestRoomList | leaderVote | leader | process _ => true

end Message
end Parley
