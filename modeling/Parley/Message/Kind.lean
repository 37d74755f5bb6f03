/-!
# Kinds of messages

Every message in plain text begins with the three-letter code of its kind.
-/

namespace Parley

/-- The kinds of plain messages. -/
inductive Kind where
  | hello
  | userInfo
  | yourInfo
  | chat
  | ack
  | bye
  | roomList
  | hostRoom
  | requestRoomList
  | rankOrder
  | deadUser
  | leaderVote
  | leader
  | process
  | queue
  | hostUpdated
  deriving DecidableEq, Repr

namespace Kind

/-- All kinds, in table order. -/
def all : List Kind :=
  [hello, userInfo, yourInfo, chat, ack, bye, roomList, hostRoom, requestRoomList, rankOrder, deadUser, leaderVote,
    leader, process, queue, hostUpdated]

/-- The three-letter code. -/
def code : Kind → String
  | hello => "HLO"
  | userInfo => "USR"
  | yourInfo => "YOU"
  | chat => "MSG"
  | ack => "ACK"
  | bye => "BYE"
  | roomList => "LST"
  | hostRoom => "HST"
  | requestRoomList => "ROM"
  | rankOrder => "ORD"
  | deadUser => "DED"
  | leaderVote => "VOT"
  | leader => "LDR"
  | process => "PRC"
  | queue => "QUE"
  | hostUpdated => "RPL"

/-- The kind with a given code. -/
def ofCode? (code : String) : Option Kind := all.find? fun k => k.code = code

/-- A kind is found by its code. -/
theorem ofCode?_code (k : Kind) : ofCode? k.code = some k := by cases k <;> decide

end Kind
end Parley
