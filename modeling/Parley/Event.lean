import Parley.Message.Basic

/-!
# Events and listeners

A member tells whoever embeds it what happened, by events. A listener has one callback for each kind of event; those for
departures and elections may be left out. `Event.dispatch` calls the callback of an event.
-/

namespace Parley

/-- Something that whoever embeds a member may want to show. -/
inductive Event where
  /-- A message went out; the directory is nobody. -/
  | messageSent (recipient : Option Identity) (message : Message)
  /-- A message came in. Lines of chat are reported in the order in which they are taken up. -/
  | messageReceived (sender : Option Identity) (message : Message)
  /-- A member is connected. -/
  | peerJoined (user : Identity)
  /-- A member is gone. -/
  | peerLeft (user : Identity)
  /-- The look-up is over: a room was joined, or none was found and this member hosts one. -/
  | directoryResult (becameHost : Bool)
  /-- A member has become host by election. -/
  | leaderElected (user : Identity)
  deriving DecidableEq, Repr

/-- Callbacks on a state, one for each kind of event. -/
structure Listener (σ : Type) where
  messageSent : Option Identity → Message → σ → σ
  messageReceived : Option Identity → Message → σ → σ
  peerJoined : Identity → σ → σ
  directoryResult : Bool → σ → σ
  peerLeft : Identity → σ → σ := fun _ s => s
  leaderElected : Identity → σ → σ := fun _ s => s

/-- Calls the callback of an event. -/
def Event.dispatch {σ : Type} (l : Listener σ) : Event → σ → σ
  | .messageSent recipient m => l.messageSent recipient m
  | .messageReceived sender m => l.messageReceived sender m
  | .peerJoined u => l.peerJoined u
  | .peerLeft u => l.peerLeft u
  | .directoryResult became => l.directoryResult became
  | .leaderElected u => l.leaderElected u

/-- The listener that keeps all events, in order. -/
def Listener.recorder : Listener (List Event) where
  messageSent recipient m es := es ++ [.messageSent recipient m]
  messageReceived sender m es := es ++ [.messageReceived sender m]
  peerJoined u es := es ++ [.peerJoined u]
  directoryResult became es := es ++ [.directoryResult became]
  peerLeft u es := es ++ [.peerLeft u]
  leaderElected u es := es ++ [.leaderElected u]

end Parley
