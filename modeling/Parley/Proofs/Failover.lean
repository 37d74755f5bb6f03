import Mathlib.Data.List.Basic
import Parley.Proofs.Cipher.Advert
import Parley.Proofs.Directory.Rooms
import Parley.Proofs.Member.Search
import Parley.Proofs.Member.Tally
import Parley.Proofs.Message.RoundTrip

/-!
# A new host and the directory

The directory lists a room under its token with the advert of its host. When another member becomes host, it opens a
connection to the directory and puts its own advert there (`Member.Housed.call_of_elects`, `Member.Housed.said_connected`).
This changes what the token leads to and nothing else (`Directory.Ledger.process_update`), and whoever is given the listing
afterwards tries the hosts that the tokens lead to, in the order of the tokens (`Directory.Ledger.hosts_values`).

Together, later joiners find the new host where the old one was (`Member.Housed.heir_is_listed`).
-/

namespace Parley

namespace Directory.Ledger

variable {l : Ledger} {o : OperationId} {token : String} {payload : Bytes}

/-- The host that a token leads to, for somebody with the key who listens at an endpoint. -/
def host? (l : Ledger) (k : RoomKey) (own : Endpoint) (token : String) : Option Identity :=
  (l.advert? token).bind (k.host? own)

/-- The adverts of a ledger lead to the hosts of its tokens, one after the other. -/
theorem hosts_values (h : l.rooms.Sorted) (k : RoomKey) (own : Endpoint) :
    k.hosts own l.rooms.values = l.rooms.keys.filterMap (l.host? k own) := by
  rw [RoomKey.hosts, h.values_eq, List.filterMap_filterMap]
  rfl

theorem host?_of_advert? (h : l.advert? token = some payload) (k : RoomKey) (own : Endpoint) :
    l.host? k own token = k.host? own payload := by
  rw [host?, h, Option.bind_some]

/-- With another advert under one token, another host stands at the place of this token. -/
theorem hosts_values_of_update {l' : Ledger} {k : RoomKey} {own : Endpoint} {u : Identity} {before after : List String}
    (h : l'.rooms.Sorted) (hkeys : l'.rooms.keys = before ++ token :: after) (ht : l'.host? k own token = some u)
    (hothers : ∀ t ≠ token, l'.advert? t = l.advert? t) :
    k.hosts own l'.rooms.values = before.filterMap (l.host? k own) ++ u :: after.filterMap (l.host? k own) := by
  have hnodup : (before ++ token :: after).Nodup := hkeys ▸ h.nodup
  have hhost {t : String} (hne : t ≠ token) : l'.host? k own t = l.host? k own t := by
    rw [host?, hothers t hne, host?]
  have hbefore : before.filterMap (l'.host? k own) = before.filterMap (l.host? k own) := by
    refine List.filterMap_congr fun t hmem => hhost ?_
    rintro rfl
    exact (List.nodup_append.1 hnodup).2.2 t hmem t List.mem_cons_self rfl
  have hafter : after.filterMap (l'.host? k own) = after.filterMap (l.host? k own) := by
    refine List.filterMap_congr fun t hmem => hhost ?_
    rintro rfl
    exact (List.nodup_cons.1 (List.nodup_append.1 hnodup).2.1).1 hmem
  rw [hosts_values h, hkeys, List.filterMap_append, List.filterMap_cons_some ht, hbefore, hafter]

/-- A new advert for a room that the ledger knows takes the place of the old one. -/
theorem process_update (hl : l.rooms.Sorted) (ht : token ∈ l.rooms.keys) (ho : l.completed.get? o = none)
    (payload : Bytes) :
    ∃ l', (l.queue o (.hostUpdated token payload)).process o = (l', .ok (.ack token)) ∧ l'.rooms.Sorted ∧
      l'.rooms.keys = l.rooms.keys ∧ l'.advert? token = some payload ∧ ∀ t ≠ token, l'.advert? t = l.advert? t := by
  refine ⟨_, process_queue_of_new ho rfl, ?_⟩
  simp only [advert?, rooms_remember]
  exact ⟨hl.insert _ _, hl.keys_insert_of_mem ht _, SortedMap.get?_insert_self .., fun t hne =>
    SortedMap.get?_insert_of_ne _ _ hne⟩

/-- The listing is all that the rooms hold. -/
theorem process_listing (ho : l.completed.get? o = none) :
    ∃ l', (l.queue o .requestRoomList).process o = (l', .ok (.roomList l.rooms.values)) :=
  ⟨_, process_queue_of_new ho rfl⟩

end Directory.Ledger

namespace Member

open Directory

variable {m : Member} {k : RoomKey} {d : ConnectionId} {token : String} {i : Input}

/-- The hosts that an input makes a member try: the one that it asks for at once, and those that it keeps for later. -/
def trials (m : Member) (i : Input) : List Identity := (m.effectsOf i).filterMap Effect.host? ++ (m.after i).candidates

/-- A member whose name can travel is in a room that the directory knows by a token, and has no connection to the
directory. -/
structure Housed (m : Member) (k : RoomKey) (token : String) : Prop where
  name : Identity.isValidName m.me.name = true
  key : m.key = some k
  directory : m.directory = none
  roomToken : m.roomToken = some token
  token : token.toList ≠ [] ∧ ' ' ∉ token.toList

/-- A member that is made host by a vote asks for a connection to the directory, and for no other. -/
theorem Housed.call_of_elects (h : m.Housed k token) (he : m.Elects i) :
    (m.effectsOf i).filterMap Effect.call? = [(m.directoryAddr, .advertise)] := by
  obtain ⟨id, hv⟩ := Option.isSome_iff_exists.1 he.1
  obtain ⟨a, rfl⟩ := exists_of_voter? hv
  have hwon := (elects_vote_iff m id a).1 he
  have hvote : m.startElection.2.filterMap Effect.call? = [] := by
    refine List.filterMap_eq_nil_iff.2 fun x hx => ?_
    obtain ⟨id, rfl⟩ := eq_vote_of_mem_startElection hx
    rfl
  have heffects : m.effectsOf (.received id ⟨a, .leaderVote⟩) =
      .notify (.messageReceived (m.peers.get? id) .leaderVote) :: m.onVote.2 := rfl
  rw [heffects, onVote_snd, if_pos hwon, h.roomToken, h.directory, List.filterMap_cons_none rfl, List.filterMap_append,
    hvote]
  rfl

/-- It is the same member otherwise. -/
theorem Housed.after_of_elects (h : m.Housed k token) (he : m.Elects i) :
    (m.after i).Housed k token ∧ (m.after i).me = m.me := by
  obtain ⟨id, hv⟩ := Option.isSome_iff_exists.1 he.1
  obtain ⟨a, rfl⟩ := exists_of_voter? hv
  have hafter : m.after (.received id ⟨a, .leaderVote⟩) = m.onVote.1 := rfl
  rw [hafter, onVote_fst, if_pos ((elects_vote_iff m id a).1 he)]
  exact ⟨⟨h.name, h.key, h.directory, h.roomToken, h.token⟩, rfl⟩

/-- Once it has the connection, it sends its advert for the room there. -/
theorem Housed.said_connected (h : m.Housed k token) (id : ConnectionId) :
    (m.effectsOf (.connected id .advertise)).filterMap Effect.said? =
        [(.directory, .hostUpdated token (k.sealAdvert m.me))] ∧
      (m.after (.connected id .advertise)).resolve .directory = [id] := by
  have hadvert : m.advert? = some (.hostUpdated token (k.sealAdvert m.me)) := by rw [advert?, h.key, h.roomToken]; rfl
  rw [effectsOf, after, step, onConnected, hadvert]
  exact ⟨rfl, rfl⟩

/-- The advert can travel. -/
theorem Housed.ofBody_advert (h : m.Housed k token) (payload : Bytes) :
    Message.ofBody (Message.hostUpdated token payload).bodyBytes = .ok (.hostUpdated token payload) := by
  obtain ⟨hne, hspace⟩ := h.token
  refine Message.ofBody_bodyBytes ?_
  rw [Message.isWireValid]
  simp [hne, hspace]

/-- What a member asks for first is the first of its candidates. -/
theorem trials_tryNextCandidate (m : Member) :
    m.tryNextCandidate.2.filterMap Effect.host? ++ m.tryNextCandidate.1.candidates = m.candidates := by
  unfold tryNextCandidate
  split
  · rename_i u rest hc
    rw [hc]
    rfl
  · have hadvertise : m.becomeHost.2.filterMap Effect.host? = [] := by
      unfold becomeHost
      dsimp only
      split <;> rfl
    rw [hadvertise, List.nil_append]
    rfl

/-- A member that is given a listing tries the hosts that its adverts lead to. -/
theorem trials_roomList (hk : m.key = some k) (hd : m.directory = some d) (a : Endpoint) (entries : List Bytes) :
    m.trials (.received d ⟨a, .roomList entries⟩) = k.hosts m.me.addr entries := by
  rw [trials, effectsOf, after, step, onMessage_roomList hk hd]
  exact trials_tryNextCandidate { m with candidates := k.hosts m.me.addr entries }

/-- **Later joiners find the new host.** A member of a room that a ledger knows by a token is made host by a vote. It asks for
one connection, which is to the directory, and what it sends there can travel. As a new operation this has the ledger
acknowledge the token; the ledger knows the same tokens as before, and has the same adverts for all others. And whoever has
the key, listens elsewhere than the new host, and is given the listing, tries the hosts that the tokens led to before, in
the order of the tokens, with the new host where the token of the room is. -/
theorem Housed.heir_is_listed (h : m.Housed k token) (he : m.Elects i) (id : ConnectionId) {l : Ledger}
    (hl : l.rooms.Sorted) (ht : token ∈ l.rooms.keys) {o : OperationId} (ho : l.completed.get? o = none) :
    (m.effectsOf i).filterMap Effect.call? = [(m.directoryAddr, .advertise)] ∧
      ∃ advert l',
        ((m.after i).effectsOf (.connected id .advertise)).filterMap Effect.said? = [(.directory, advert)] ∧
        ((m.after i).after (.connected id .advertise)).resolve .directory = [id] ∧
        Message.ofBody advert.bodyBytes = .ok advert ∧
        (l.queue o advert).process o = (l', .ok (.ack token)) ∧
        l'.rooms.keys = l.rooms.keys ∧ (∀ t ≠ token, l'.advert? t = l.advert? t) ∧
        ∃ before after, l.rooms.keys = before ++ token :: after ∧
          ∀ p, l'.completed.get? p = none → ∃ l'' entries,
            (l'.queue p .requestRoomList).process p = (l'', .ok (.roomList entries)) ∧
            ∀ (n : Member) (d : ConnectionId) (a : Endpoint), n.key = some k → n.directory = some d →
              n.me.addr ≠ m.me.addr →
              n.trials (.received d ⟨a, .roomList entries⟩) =
                before.filterMap (l.host? k n.me.addr) ++ m.me :: after.filterMap (l.host? k n.me.addr) := by
  obtain ⟨hw, hme⟩ := h.after_of_elects he
  obtain ⟨hsaid, hresolve⟩ := hw.said_connected id
  obtain ⟨l', hprocess, hl', hkeys, hadvert, hothers⟩ := Ledger.process_update hl ht ho (k.sealAdvert (m.after i).me)
  obtain ⟨before, after, hsplit⟩ := List.append_of_mem ht
  refine ⟨h.call_of_elects he, _, l', hsaid, hresolve, hw.ofBody_advert _, hprocess, hkeys, hothers, before, after, hsplit,
    fun p hp => ?_⟩
  obtain ⟨l'', hlisting⟩ := Ledger.process_listing hp
  refine ⟨l'', _, hlisting, fun n d a hk hd hne => ?_⟩
  have hhost : l'.host? k n.me.addr token = some m.me := by
    rw [Ledger.host?_of_advert? hadvert, hme, k.host?_sealAdvert h.name hne.symm]
  rw [trials_roomList hk hd]
  exact Ledger.hosts_values_of_update hl' (hkeys.trans hsplit) hhost hothers

/-- Ann, whose room the directory knows as `b`, is gone, and bob is made host. Dee looks for a room. -/
theorem heir_is_listed_bob :
    let k : RoomKey := ⟨RoomKey.zeroBlock⟩
    let ann : Identity := ⟨"ann", ⟨.loopback, 7001⟩⟩
    let bob : Identity := ⟨"bob", ⟨.loopback, 7002⟩⟩
    let dee : Identity := ⟨"dee", ⟨.loopback, 7004⟩⟩
    let eve : Identity := ⟨"eve", ⟨.loopback, 7005⟩⟩
    let dir : SocketAddress := .v4 ⟨.loopback, 7000⟩
    let m := [Input.join k, .connected 1 (.roomHost ann), .received 1 ⟨ann.addr, .ack "b"⟩, .closed 1].foldl after
      (outside bob dir)
    let vote : Input := .received 2 ⟨⟨.loopback, 7003⟩, .leaderVote⟩
    let l : Ledger := { Ledger.new 8 with rooms := ⟨[("a", k.sealAdvert eve), ("b", k.sealAdvert ann), ("c", [1, 2, 3])]⟩ }
    let n := [Input.join k, .connected 1 .discover].foldl after (outside dee dir)
    m.Housed k "b" ∧ m.Elects vote ∧ (m.effectsOf vote).filterMap Effect.call? = [(dir, .advertise)] ∧
      ∃ l' l'' entries, (l.queue .nil (.hostUpdated "b" (k.sealAdvert bob))).process .nil = (l', .ok (.ack "b")) ∧
        (l'.queue ⟨1⟩ .requestRoomList).process ⟨1⟩ = (l'', .ok (.roomList entries)) ∧
        n.trials (.received 1 ⟨⟨.loopback, 7000⟩, .roomList entries⟩) = [eve, bob] := by
  intro k ann bob dee eve dir m vote l n
  have h : m.Housed k "b" := ⟨by decide, rfl, rfl, rfl, by decide⟩
  have he : m.Elects vote := by
    rw [elects_vote_iff]
    decide
  have hm : m.directoryAddr = dir ∧ m.me = bob := ⟨rfl, rfl⟩
  have hn : n.key = some k ∧ n.directory = some 1 ∧ n.me = dee := ⟨rfl, rfl, rfl⟩
  have hsorted : l.rooms.Sorted := by
    show ["a", "b", "c"].Pairwise (· < ·)
    decide
  have hkeys : l.rooms.keys = ["a", "b", "c"] := rfl
  obtain ⟨hcall, advert, l', hsaid, -, -, hprocess, -, -, before, after, hsplit, hlisting⟩ :=
    h.heir_is_listed he 3 hsorted (by rw [hkeys]; decide) (o := .nil) rfl
  have hadvert : Message.hostUpdated "b" (k.sealAdvert bob) = advert := congrArg Prod.snd (List.cons.inj hsaid).1
  rw [← hadvert] at hprocess
  have hl' : ((l.queue .nil (.hostUpdated "b" (k.sealAdvert bob))).process .nil).1 = l' := congrArg Prod.fst hprocess
  obtain ⟨l'', entries, hlisted, htrials⟩ := hlisting ⟨1⟩ (by rw [← hl']; rfl)
  refine ⟨h, he, hm.1 ▸ hcall, l', l'', entries, hprocess, hlisted, ?_⟩
  have hplace : before = ["a"] ∧ after = ["c"] := by
    rw [hkeys] at hsplit
    match before, hsplit with
    | [], hsplit => simp at hsplit
    | [t], hsplit => simpa [eq_comm] using hsplit
    | [t, t'], hsplit => simp at hsplit
    | t :: t' :: t'' :: before, hsplit => simp at hsplit
  have heve : l.host? k dee.addr "a" = some eve := by
    have hadvert : l.advert? "a" = some (k.sealAdvert eve) := rfl
    rw [Ledger.host?_of_advert? hadvert, k.host?_sealAdvert (by decide) (by decide)]
  have hnone : l.host? k dee.addr "c" = none := rfl
  rw [htrials n 1 _ hn.1 hn.2.1 (by rw [hn.2.2, hm.2]; decide), hplace.1, hplace.2, hn.2.2, hm.2,
    List.filterMap_cons_some heve, List.filterMap_cons_none hnone]
  rfl

end Member
end Parley
