import Parley.Directory.Relay
import Parley.Directory.Replica

/-!
# Conduct of replicas

How the far end of a replica connection behaves: as an honest replica, or by a script that strays from it in one known way.
A relay has to get along with all of them.
-/

namespace Parley.Directory

/-- A way to stray. Requests are counted from one on each connection. -/
inductive Script where
  /-- Every request is echoed as it should be; results are made up. -/
  | faithful
  /-- Request 1 is answered for the operation zero. -/
  | stale
  /-- Request 2 is answered with a result for the operation zero. -/
  | staleProcess
  /-- Requests 1 and 2 are answered with goodbyes. -/
  | noId
  /-- Request 2 is not answered: the replica hangs up. -/
  | diesInProcess
  /-- Request 4 is not answered: the replica hangs up. -/
  | diesLater
  /-- Every answer is a frame that holds no message. -/
  | garbage
  /-- Every answer has a header with a port that is out of range. -/
  | badPort
  /-- The second phase is answered like the first one. -/
  | echoOnly
  deriving DecidableEq, Repr

/-- The state of the far end of a replica connection. -/
inductive Conduct where
  /-- A replica with its ledger. -/
  | honest (ledger : Ledger) (intake : Intake)
  /-- A script that has received a number of requests. -/
  | scripted (script : Script) (received : Nat)
  deriving DecidableEq, Repr

namespace Conduct

/-- The sender that replicas write into headers. -/
def sender : Endpoint := ⟨.loopback, 0⟩

/-- The octets of a frame with a plain message. -/
def octets (m : Message) : Bytes :=
  let f := Envelope.frame ⟨sender, m⟩
  f.header ++ f.body

/-- What a script sends in answer to its request number `n`; `none` if it hangs up. -/
def answer (script : Script) (n : Nat) (request : Message) : Option Bytes :=
  let usual : Message :=
    match request with
    | .queue id _ => .process id
    | .process id => if script = .echoOnly then .process id else .queue id (.ack s!"scripted-{n}")
    | m => m
  match script, n with
  | .stale, 1 => some (octets (.process .nil))
  | .staleProcess, 2 => some (octets (.queue .nil .leader))
  | .noId, 1 | .noId, 2 => some (octets .bye)
  | .diesInProcess, 2 | .diesLater, 4 => none
  | .garbage, _ =>
    let f : Frame := ⟨sender, Utf8.encode ['X', 'Y', 'Z']⟩
    some (f.header ++ f.body)
  | .badPort, _ => some ([127, 0, 0, 1] ++ Frame.word 65536 ++ Frame.word usual.bodyBytes.length ++ usual.bodyBytes)
  | _, _ => some (octets usual)

/-- What comes of a frame that reaches a replica. -/
def react (c : Conduct) (f : Frame) : Conduct × Reaction :=
  match c with
  | .honest ledger intake =>
    let (ledger, intake, replies) := Replica.serve sender ledger intake (f.header ++ f.body)
    (.honest ledger intake, ⟨replies, !intake.isOpen⟩)
  | .scripted script received =>
    let n := received + 1
    match (Envelope.ofFrame f).toOption.bind fun e => answer script n e.message with
    | some replies => (.scripted script n, ⟨replies, false⟩)
    | none => (.scripted script n, ⟨[], true⟩)

/-- The rooms that an honest replica knows. -/
def rooms? : Conduct → Option Nat
  | .honest ledger _ => some ledger.rooms.size
  | .scripted _ _ => none

end Conduct
end Parley.Directory
