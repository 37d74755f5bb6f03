import Parley.Address.Ipv4
import Parley.Address.Ipv6
import Parley.Address.Socket
import Parley.Base64
import Parley.Bytes
import Parley.Cipher.Aes
import Parley.Cipher.Block
import Parley.Cipher.ChaCha20
import Parley.Cipher.Chaining
import Parley.Cipher.Fault
import Parley.Cipher.RoomKey
import Parley.Cipher.Sha256
import Parley.Clock
import Parley.Digits
import Parley.Directory.Conduct
import Parley.Directory.Fault
import Parley.Directory.Ledger
import Parley.Directory.Relay
import Parley.Directory.Replica
import Parley.Directory.Service
import Parley.Document
import Parley.Election
import Parley.Envelope
import Parley.Event
import Parley.Fault
import Parley.Frame
import Parley.Frame.Buffer
import Parley.Identity
import Parley.Link.Basic
import Parley.Link.Hub
import Parley.Link.Network
import Parley.Loopback.Basic
import Parley.Loopback.Cable
import Parley.Loopback.Relay
import Parley.Loopback.Replica
import Parley.Loopback.Stage
import Parley.Member.Basic
import Parley.Member.Election
import Parley.Member.Message
import Parley.Member.Step
import Parley.Message.Basic
import Parley.Message.Body
import Parley.Message.Fault
import Parley.Message.Kind
import Parley.Message.Reader
import Parley.OperationId
import Parley.PeerTable
import Parley.Pending
import Parley.Ranking
import Parley.Session.Basic
import Parley.Settings
import Parley.SortedMap
import Parley.Text.Blank
import Parley.Text.Decimal
import Parley.Text.Quoted
import Parley.Text.Unseen
import Parley.Text.Utf8
import Parley.Proofs.Pending
import Parley.Proofs.Room.Mesh
import Parley.Proofs.Room.Accord
import Parley.Proofs.Room.Chat
import Parley.Proofs.Room.Succession
import Parley.Proofs.Base64
import Parley.Proofs.Frame.Stream
import Parley.Proofs.OperationId
import Parley.Proofs.Identity
import Parley.Proofs.Message.RoundTrip
import Parley.Proofs.Room.Heir
import Parley.Proofs.Cipher.Chaining
import Parley.Proofs.Cipher.Aes
import Parley.Proofs.Cipher.RoomKey
import Parley.Proofs.Frame.Codec
import Parley.Proofs.Frame.Length
import Parley.Proofs.Link.Delivery
import Parley.Proofs.SortedMap
import Parley.Proofs.Message.Queued
import Parley.Proofs.Directory.Operation
import Parley.Proofs.Directory.Verdict
import Parley.Proofs.Directory.Rooms
import Parley.Proofs.Directory.Honest
import Parley.Proofs.Directory.Refinement
import Parley.Proofs.Directory.Retention
import Parley.Proofs.Reception
import Parley.Proofs.Overtaking
import Parley.Proofs.Member.Admission
import Parley.Proofs.Member.Election
import Parley.Proofs.Room.Gathering
import Parley.Proofs.Room.Joins
import Parley.Proofs.Ranking
import Parley.Proofs.Member.Reachable
import Parley.Proofs.Member.Leaving
import Parley.Proofs.Member.Outside
import Parley.Proofs.Session.Dials
import Parley.Proofs.Message.Canonical
import Parley.Proofs.Member.Speech
import Parley.Proofs.Member.Hosting
import Parley.Proofs.Member.Links
import Parley.Proofs.Member.Connections
import Parley.Proofs.Member.Tally
import Parley.Proofs.Member.Ballot
import Parley.Proofs.Directory.Recall
import Parley.Proofs.Directory.Agreement
import Parley.Proofs.Message.Sealed
import Parley.Proofs.Link.Reader
import Parley.Proofs.Link.Switchboard
import Parley.Proofs.Link.Reports
import Parley.Proofs.Link.History
import Parley.Proofs.Frame.Buffer
import Parley.Proofs.Turns
import Parley.Proofs.Heap
import Parley.Proofs.Member.Lines
import Parley.Proofs.Cipher.Advert
import Parley.Proofs.Member.Search
import Parley.Proofs.Failover
import Parley.Proofs.Member.Introductions
import Parley.Proofs.Member.Departures
import Parley.Proofs.Member.Strangers
import Parley.Proofs.Member.Table
import Parley.Proofs.Directory.Bookkeeping
