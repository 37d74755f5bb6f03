import Parley.Link.Hub
import Parley.Proofs.Cipher.RoomKey
import Parley.Proofs.Frame.Codec

/-!
# Delivery

What is sent on a connection is reported at its other end, in order and nothing else (`Hub.receiveAll_sendAll`). This holds
in both modes, for every room key and however the stream is cut on the way.

A frame that one hub writes the other one reads (`readFrame_of_writeFrame`). Octets that come in add up
(`receiveAll_eq_of_feed`): what a hub reports is what reading the frames of the whole stream gives.
-/

namespace Parley.Hub

/-- Writes envelopes to a connection one after the other, up to the first that cannot be written: what is reported
meanwhile, and the octets for the other end. -/
def sendAll (h : Hub) (id : ConnectionId) : List Envelope → Hub × List HubEvent × Except Link.Fault Bytes
  | [] => (h, [], .ok [])
  | e :: es =>
    match h.send id e with
    | (h, events, .error f) => (h, events, .error f)
    | (h, events, .ok octets) =>
      let (h, more, rest) := sendAll h id es
      (h, events ++ more, rest.map (octets ++ ·))

/-- Chunks of octets come in on a connection one after the other. -/
def receiveAll (h : Hub) (id : ConnectionId) : List Bytes → Hub × List HubEvent
  | [] => (h, [])
  | chunk :: chunks =>
    let (h, events) := h.receive id chunk
    let (h, more) := receiveAll h id chunks
    (h, events ++ more)

/-! ## Frames -/

section Frames

variable {mode : LinkMode} {e : Envelope}

/-- A message that can travel as plain text is written in both modes, and the other end reads it. -/
theorem readFrame_of_writeFrame (k : RoomKey) (mode : LinkMode) (h : e.message.isWireValid = true) :
    ∃ f, writeFrame (some k) mode e = .ok f ∧ readFrame (some k) mode f = .ok e := by
  cases mode with
  | plain =>
    refine ⟨e.frame, rfl, ?_⟩
    simp only [readFrame, Envelope.ofFrame_frame h]
    rfl
  | sealed =>
    obtain ⟨hseal, hopen⟩ := k.openEnvelope_sealEnvelope h
    refine ⟨Envelope.frame ⟨e.sender, .sealed (k.encrypt e.message.bodyBytes)⟩, ?_, ?_⟩
    · simp only [writeFrame, hseal]
      rfl
    · simp only [readFrame, Envelope.ofSealedFrame_frame, hopen]
      rfl

/-- A sealed frame is within the limit of connections if the plain body is shorter than 12 MiB, and not otherwise. -/
theorem fits_sealed_iff {k : RoomKey} (h : e.message.isWireValid = true) {f : Frame}
    (hf : writeFrame (some k) .sealed e = .ok f) :
    f.body.length ≤ Frame.defaultLimit ↔ e.message.bodyBytes.length < 12 * 1024 * 1024 := by
  obtain ⟨hseal, -⟩ := k.openEnvelope_sealEnvelope h
  rw [writeFrame, hseal] at hf
  cases hf
  have hlen : (Envelope.frame ⟨e.sender, .sealed (k.encrypt e.message.bodyBytes)⟩).body.length =
      4 * ((Block.size * (e.message.bodyBytes.length / Block.size + 1) + 2) / 3) := by
    rw [← k.length_encrypt]
    exact Base64.length_octets (k.encrypt e.message.bodyBytes)
  rw [hlen, Frame.defaultLimit, Block.size]
  omega

theorem readFrames_append {key : Option RoomKey} {id : ConnectionId} {fs : List Frame} {events : List HubEvent}
    (h : readFrames key mode id fs = (events, none)) (gs : List Frame) :
    readFrames key mode id (fs ++ gs) =
      (events ++ (readFrames key mode id gs).1, (readFrames key mode id gs).2) := by
  induction fs generalizing events with
  | nil =>
    obtain rfl : [] = events := congrArg Prod.fst h
    rfl
  | cons f fs ih =>
    simp only [readFrames] at h
    split at h
    · simp at h
    · rename_i envelope he
      obtain ⟨rfl, hfault⟩ := Prod.mk.inj h
      simp only [List.cons_append, readFrames, he, ih (Prod.ext rfl hfault)]

/-- No fault among the first frames if there is none among all. -/
theorem readFrames_of_append {key : Option RoomKey} {id : ConnectionId} {fs gs : List Frame}
    (h : (readFrames key mode id (fs ++ gs)).2 = none) : (readFrames key mode id fs).2 = none := by
  induction fs with
  | nil => rfl
  | cons f fs ih =>
    simp only [List.cons_append, readFrames] at h ⊢
    split at h
    · simp at h
    · exact ih h

end Frames

/-! ## Sending -/

section Sending

variable {near : Hub} {i : ConnectionId} {c : Connection} {k : RoomKey}

theorem send_eq {e : Envelope} {f : Frame} (hi : near.connections.get? i = some c)
    (hf : writeFrame near.key c.mode e = .ok f) (hfit : f.body.length ≤ Frame.defaultLimit) :
    near.send i e = (near, [], .ok f.octets) := by
  simp only [send, hi, hf, Frame.encode_eq hfit]

/-- All that is written are the frames, and the other end reads the envelopes in them. -/
theorem sendAll_eq (j : ConnectionId) (hkey : near.key = some k) (hi : near.connections.get? i = some c)
    {es : List Envelope} (hvalid : ∀ e ∈ es, e.message.isWireValid = true)
    (hfit : ∀ e ∈ es, ∀ f, writeFrame (some k) c.mode e = .ok f → f.body.length ≤ Frame.defaultLimit) :
    ∃ fs : List Frame, (∀ f ∈ fs, f.body.length ≤ Frame.defaultLimit) ∧
      near.sendAll i es = (near, [], .ok (fs.flatMap Frame.octets)) ∧
      readFrames (some k) c.mode j fs = (es.map (.received j), none) := by
  induction es with
  | nil => exact ⟨[], by simp, rfl, rfl⟩
  | cons e es ih =>
    rw [List.forall_mem_cons] at hvalid hfit
    obtain ⟨f, hwrite, hread⟩ := readFrame_of_writeFrame k c.mode hvalid.1
    have hf := hfit.1 f hwrite
    obtain ⟨fs, hfs, hsend, hreads⟩ := ih hvalid.2 hfit.2
    refine ⟨f :: fs, List.forall_mem_cons.2 ⟨hf, hfs⟩, ?_, ?_⟩
    · have hone := send_eq hi (hkey ▸ hwrite) hf
      simp only [sendAll, hone, hsend, Except.map, List.append_nil, List.flatMap_cons]
    · simp only [readFrames, hread, hreads, List.map_cons]

end Sending

/-! ## Receiving -/

section Receiving

variable {far : Hub} {j : ConnectionId} {d : Connection}

/-- A chunk without a fault: its frames are reported, and what is left waits for the next one. -/
theorem receive_eq {chunk : Bytes} (hj : far.connections.get? j = some d)
    (hdrain : (Frame.drain Frame.defaultLimit (d.unread ++ chunk)).fault = none)
    (hread : (readFrames far.key d.mode j (Frame.drain Frame.defaultLimit (d.unread ++ chunk)).frames).2 = none) :
    ∃ far', far.receive j chunk =
        (far', (readFrames far.key d.mode j (Frame.drain Frame.defaultLimit (d.unread ++ chunk)).frames).1) ∧
      far'.key = far.key ∧
      far'.connections.get? j = some { d with unread := (Frame.drain Frame.defaultLimit (d.unread ++ chunk)).rest } := by
  refine ⟨{ far with connections := far.connections.insert j _ }, ?_, rfl, SortedMap.get?_insert_self ..⟩
  simp only [receive, hj, hread, hdrain, Option.map_none, Option.or_none]

/-- Chunks without a fault: what is reported is what reading the frames of the stream gives. -/
theorem receiveAll_eq_of_feed {chunks : List Bytes} (hj : far.connections.get? j = some d)
    (hfeed : (Frame.feed Frame.defaultLimit d.unread chunks).fault = none)
    (hread : (readFrames far.key d.mode j (Frame.feed Frame.defaultLimit d.unread chunks).frames).2 = none) :
    ∃ far', far.receiveAll j chunks =
        (far', (readFrames far.key d.mode j (Frame.feed Frame.defaultLimit d.unread chunks).frames).1) ∧
      far'.key = far.key ∧
      far'.connections.get? j = some { d with unread := (Frame.feed Frame.defaultLimit d.unread chunks).rest } := by
  induction chunks generalizing far d with
  | nil => exact ⟨far, rfl, rfl, hj⟩
  | cons chunk chunks ih =>
    cases hdrain : (Frame.drain Frame.defaultLimit (d.unread ++ chunk)).fault with
    | some fault => simp [Frame.feed, hdrain] at hfeed
    | none =>
      simp only [Frame.feed, hdrain] at hfeed hread ⊢
      have hfirst := readFrames_of_append hread
      have happ := readFrames_append (Prod.ext rfl hfirst)
        (Frame.feed Frame.defaultLimit (Frame.drain Frame.defaultLimit (d.unread ++ chunk)).rest chunks).frames
      rw [happ] at hread ⊢
      obtain ⟨mid, hmid, hkey, hconn⟩ := receive_eq hj hdrain hfirst
      obtain ⟨far', hall, hkey', hconn'⟩ := ih hconn hfeed (by rw [hkey]; exact hread)
      refine ⟨far', ?_, hkey'.trans hkey, hconn'⟩
      simp only [receiveAll, hmid, hall, hkey]

end Receiving

/-! ## Both ends -/

/-- **A connection delivers exactly what was sent.** Two hubs have the two ends of a connection and the key of one room.
Envelopes with messages that can travel, in frames up to the limit, are all written without a report, and however the octets
are cut on the way, the other hub reports these envelopes in order, and its end of the connection is as it was before. -/
theorem receiveAll_sendAll {near far : Hub} {k : RoomKey} {i j : ConnectionId} {c d : Connection} {es : List Envelope}
    (hnear : near.key = some k) (hfar : far.key = some k) (hi : near.connections.get? i = some c)
    (hj : far.connections.get? j = some d) (hmode : d.mode = c.mode) (hunread : d.unread = [])
    (hvalid : ∀ e ∈ es, e.message.isWireValid = true)
    (hfit : ∀ e ∈ es, ∀ f, writeFrame (some k) c.mode e = .ok f → f.body.length ≤ Frame.defaultLimit) :
    ∃ octets, near.sendAll i es = (near, [], .ok octets) ∧ ∀ chunks, chunks.flatten = octets →
      ∃ far', far.receiveAll j chunks = (far', es.map (.received j)) ∧ far'.key = far.key ∧
        far'.connections.get? j = some d := by
  obtain ⟨fs, hfs, hsend, hread⟩ := sendAll_eq j hnear hi hvalid hfit
  refine ⟨fs.flatMap Frame.octets, hsend, fun chunks hchunks => ?_⟩
  have hfeed : Frame.feed Frame.defaultLimit d.unread chunks = ⟨fs, [], none⟩ := by
    rw [hunread]
    exact Frame.feed_octets Frame.defaultLimit_lt hfs hchunks
  rw [← hfar, ← hmode] at hread
  have hread' : readFrames far.key d.mode j (Frame.feed Frame.defaultLimit d.unread chunks).frames =
      (es.map (.received j), none) := by rw [hfeed, hread]
  obtain ⟨far', hall, hkey, hconn⟩ := receiveAll_eq_of_feed hj (by rw [hfeed]) (by rw [hread'])
  rw [hread'] at hall
  rw [hfeed, ← hunread] at hconn
  exact ⟨far', hall, hkey, hconn⟩

/-- A joiner under a display name, and a line of chat with a line feed, over a connection under a room key. -/
theorem receiveAll_sendAll_sealed :
    let k : RoomKey := .ofPassphrase [108, 111, 98, 98, 121]
    let line : Connection := ⟨.v4 ⟨.loopback, 4000⟩, .sealed, []⟩
    let near : Hub := ⟨some k, ⟨[(3, line)]⟩⟩
    let far : Hub := ⟨some k, ⟨[(0, line), (8, line)]⟩⟩
    let es : List Envelope := [⟨⟨.loopback, 5000⟩, .hello ⟨"ada", ⟨.loopback, 5000⟩⟩⟩, ⟨⟨.loopback, 5000⟩, .chat 7 "at\nnoon"⟩]
    ∃ octets, near.sendAll 3 es = (near, [], .ok octets) ∧ ∀ chunks, chunks.flatten = octets →
      ∃ far', far.receiveAll 8 chunks = (far', es.map (.received 8)) ∧ far'.key = far.key ∧
        far'.connections.get? 8 = some line := by
  intro k line near far es
  have hvalid : ∀ e ∈ es, e.message.isWireValid = true := by decide
  have hshort : ∀ e ∈ es, e.message.bodyBytes.length < 12 * 1024 * 1024 := by decide
  exact receiveAll_sendAll rfl rfl (c := line) rfl rfl rfl rfl hvalid fun e he f hf =>
    (fits_sealed_iff (hvalid e he) hf).2 (hshort e he)

end Parley.Hub
