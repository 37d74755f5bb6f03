import Parley.Address.Socket
import Parley.Clock
import Parley.Document

/-!
# Settings

What the nodes can be told when they start, with the values that hold when nothing is said, and how settings are written
to and read from documents. Reading wants every field.
-/

namespace Parley

/-- A span of time. -/
structure Duration where
  secs : Nat
  nanos : Nat
  deriving DecidableEq, Repr

namespace Duration

/-- A number of milliseconds. -/
def ofMillis (ms : Nat) : Duration := ⟨ms / 1000, ms % 1000 * 1000000⟩

/-- Seconds and nanoseconds. -/
def document (d : Duration) : Document := .record [("secs", .number d.secs), ("nanos", .number d.nanos)]

/-- Reads seconds and nanoseconds. Whole seconds among the nanoseconds are carried over, as long as the seconds fit in 64
bits. -/
def ofDocument? (d : Document) : Option Duration := do
  let [secs, nanos] ← d.onlyFields? ["secs", "nanos"] | none
  let secs ← secs.nat? UInt64.size
  let nanos ← nanos.nat? UInt32.size
  let total := secs + nanos / 1000000000
  if total < UInt64.size then some ⟨total, nanos % 1000000000⟩ else none

end Duration

/-- A socket address in a document. -/
def SocketAddress.ofDocument? (d : Document) : Option SocketAddress := do
  SocketAddress.ofChars? (← d.text?).toList

/-- An endpoint in a document. -/
def Endpoint.ofDocument? (d : Document) : Option Endpoint := do
  Endpoint.ofChars? (← d.text?).toList

/-- What a member is told. -/
structure MemberSettings where
  /-- The display name. -/
  name : String := "anonymous"
  /-- Where other members can connect; port 0 is any free port. -/
  listenAddr : Endpoint := ⟨.loopback, 0⟩
  /-- Where the directory is. -/
  directoryAddr : SocketAddress := .v4 ⟨.loopback, 9999⟩
  /-- How often lines that wait are looked at. -/
  pollInterval : Duration := .ofMillis 150
  /-- How many commands may wait. -/
  channelSize : Nat := 64
  /-- How long opening a connection may take. -/
  connectTimeout : Duration := .ofMillis 3000
  deriving DecidableEq, Repr

namespace MemberSettings

/-- The names of the fields, in order. -/
def fieldNames : List String :=
  ["name", "listen_addr", "directory_addr", "poll_interval", "channel_size", "connect_timeout"]

/-- The settings as a document. -/
def document (s : MemberSettings) : Document :=
  .record (fieldNames.zip [.text s.name, .text s.listenAddr.render, .text s.directoryAddr.render,
    s.pollInterval.document, .number s.channelSize, s.connectTimeout.document])

/-- The settings in a document. -/
def ofDocument? (d : Document) : Option MemberSettings := do
  let [name, listen, directory, poll, channel, timeout] ← d.fields? fieldNames | none
  let name ← name.text?
  let listenAddr ← Endpoint.ofDocument? listen
  let directoryAddr ← SocketAddress.ofDocument? directory
  let pollInterval ← Duration.ofDocument? poll
  let channelSize ← channel.nat? UInt64.size
  let connectTimeout ← Duration.ofDocument? timeout
  return { name, listenAddr, directoryAddr, pollInterval, channelSize, connectTimeout }

end MemberSettings

/-- What a directory relay is told. -/
structure RelaySettings where
  /-- Where members connect. -/
  listenAddr : SocketAddress := .v4 ⟨.unspecified, 9999⟩
  /-- The replicas to repeat operations at. -/
  replicas : List SocketAddress := []
  deriving DecidableEq, Repr

namespace RelaySettings

/-- The names of the fields, in order. -/
def fieldNames : List String := ["listen_addr", "backends"]

/-- The settings as a document. -/
def document (s : RelaySettings) : Document :=
  .record (fieldNames.zip [.text s.listenAddr.render, .list (s.replicas.map fun a => .text a.render)])

/-- The settings in a document. -/
def ofDocument? (d : Document) : Option RelaySettings := do
  let [listen, replicas] ← d.fields? fieldNames | none
  let listenAddr ← SocketAddress.ofDocument? listen
  let items ← replicas.list?
  let replicas ← items.mapM SocketAddress.ofDocument?
  return { listenAddr, replicas }

end RelaySettings

/-- What a replica is told. -/
structure ReplicaSettings where
  /-- Where relays connect; port 0 is any free port. -/
  listenAddr : SocketAddress := .v4 ⟨.unspecified, 0⟩
  /-- How many results are kept. -/
  completedCache : Nat := 256
  deriving DecidableEq, Repr

namespace ReplicaSettings

/-- The names of the fields, in order. -/
def fieldNames : List String := ["listen_addr", "completed_cache"]

/-- The settings as a document. -/
def document (s : ReplicaSettings) : Document :=
  .record (fieldNames.zip [.text s.listenAddr.render, .number s.completedCache])

/-- The settings in a document. -/
def ofDocument? (d : Document) : Option ReplicaSettings := do
  let [listen, cache] ← d.fields? fieldNames | none
  let listenAddr ← SocketAddress.ofDocument? listen
  let completedCache ← cache.nat? UInt64.size
  return { listenAddr, completedCache }

end ReplicaSettings

/-- A clock as a document. -/
def Clock.document : Clock → Document
  | .unsynced => .text "Unsynced"
  | .synced t => .record [("At", .number t.toNat)]

/-- The clock in a document. -/
def Clock.ofDocument? : Document → Option Clock
  | .text "Unsynced" => some .unsynced
  | .record [("Unsynced", .null)] => some .unsynced
  | .record [("At", d)] => (d.nat? UInt64.size).map fun n => .synced (UInt64.ofNat n)
  | _ => none

end Parley
