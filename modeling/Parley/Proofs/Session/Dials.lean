import Mathlib.Data.List.Induction
import Parley.Proofs.Member.Reachable
import Parley.Session.Basic

/-!
# Dials that outlive their room

Dials run on their own, and a room may be left while one is on its way. Its outcome is then none of the member's business:
it should leave the member as it is, and a connection that came of it should be closed (`Session.Discards`). A session looks
only at whether the member is in a room when the outcome comes (`Session.discards_iff`), not at which room that is. So a
dial that comes back while the member is in no room is discarded, as is every dial that no room has been entered after
(`Course.Run.discards`). One that comes back in the next room is taken for a dial of that room (`Course.rejoined_hears`).

The rooms are numbered as they are entered, and every dial bears the number of the last one when it was started
(`Course.Run`).
-/

namespace Parley

/-- The purpose of a dial. -/
def Act.dialled? : Act → Option Role
  | .dial _ role => some role
  | .write _ _ | .close _ | .tell _ | .report _ => none

/-- Some connection to a member is not in the table. -/
theorem PeerTable.exists_insert_ne (t : PeerTable) (u : Identity) : ∃ id, t.insert id u ≠ t := by
  by_contra! h
  have hget (id : ConnectionId) : t.get? id = some u := by
    rw [← h id]
    exact t.get?_insert_self id u
  cases hd : t.displaced? 0 u with
  | none =>
    obtain ⟨e, he, hu⟩ := Option.map_eq_some_iff.1 (hget 1)
    have hfind := List.find?_eq_none.1 (Option.map_eq_none_iff.1 hd) e (List.mem_of_find?_eq_some he)
    have hkey : e.1 = 1 := by simpa using List.find?_some he
    exact hfind (by simp [hkey, hu, Identity.same])
  | some old =>
    obtain ⟨e, he, rfl⟩ := Option.map_eq_some_iff.1 hd
    have hne : e.1 ≠ 0 := by
      have hp := List.find?_some he
      rw [Bool.and_eq_true] at hp
      exact of_decide_eq_true hp.1
    have hlost : (t.insert 0 u).get? e.1 = none := by
      unfold PeerTable.insert
      rw [hd]
      exact (SortedMap.get?_insert_of_ne _ _ hne).trans (SortedMap.get?_erase_self _ _)
    rw [h 0, hget] at hlost
    cases hlost

namespace Session

/-! ## Carrying effects out -/

/-- Only the hub has changed. -/
def OnlyHub (s t : Session) : Prop := ∃ h, t = { s with hub := h }

variable {s : Session}

theorem OnlyHub.trans {t u : Session} (h : OnlyHub s t) (h' : OnlyHub t u) : OnlyHub s u := by
  obtain ⟨hub, rfl⟩ := h
  obtain ⟨hub', rfl⟩ := h'
  exact ⟨hub', rfl⟩

/-- If carrying out each item changes only the hub, then so does carrying out all of them in order. -/
theorem onlyHub_foldl {α : Type} {f : Session → α → Session × List Act} (h : ∀ s a, OnlyHub s (f s a).1) (s : Session)
    (as : List α) : OnlyHub s (as.foldl (fun p a => ((f p.1 a).1, p.2 ++ (f p.1 a).2)) (s, [])).1 := by
  induction as using List.reverseRecOn with
  | nil => exact ⟨s.hub, rfl⟩
  | append_singleton as a ih =>
    rw [List.foldl_append]
    exact ih.trans (h _ a)

theorem onlyHub_perform (s : Session) (e : Effect) : OnlyHub s (s.perform e).1 := by
  cases e with
  | send recipient message =>
    exact onlyHub_foldl (f := sendTo message) (fun _ _ => ⟨_, rfl⟩) s (s.member.resolve recipient)
  | connect addr role => exact ⟨s.hub, rfl⟩
  | disconnect id => exact ⟨_, rfl⟩
  | notify event => exact ⟨s.hub, rfl⟩

/-- Carrying effects out changes the hub alone. -/
theorem onlyHub_performAll (s : Session) (effects : List Effect) : OnlyHub s (s.performAll effects).1 :=
  onlyHub_foldl onlyHub_perform s effects

theorem follow_fst (s : Session) (m : Member × List Effect) : ∃ h, (s.follow m).1 = ⟨m.1, h, s.isRunning⟩ :=
  onlyHub_performAll { s with member := m.1 } m.2

/-! ## In a room and out of it -/

/-- Whether an input takes the member into a room. -/
def enters (s : Session) : Input → Bool
  | .join passphrase dialled => (s.step (.join passphrase dialled)).2.2.isNone
  | .chat _ | .leave | .shutdown | .opened _ _ _ | .event _ | .outcome _ _ | .tick => false

/-- Whether an input takes the member out of the room that it is in. -/
def leaves (s : Session) : Input → Bool
  | .leave => s.member.inRoom
  | .join _ _ | .chat _ | .shutdown | .opened _ _ _ | .event _ | .outcome _ _ | .tick => false

theorem inRoom_follow {m : Member × List Effect} (h : s.member.Change m.1) :
    (s.follow m).1.member.inRoom = s.member.inRoom := by
  obtain ⟨hub, hf⟩ := s.follow_fst m
  rw [hf]
  exact congrArg Option.isSome h.key

theorem inRoom_onEvent (s : Session) (e : HubEvent) : (s.onEvent e).1.member.inRoom = s.member.inRoom := by
  cases e with
  | accepted _ _ => rfl
  | received id envelope => exact inRoom_follow (s.member.change_onMessage id envelope)
  | closed id _ => exact inRoom_follow (s.member.change_onClosed id)

theorem inRoom_onOutcome (s : Session) (role : Role) (result : Except Link.Fault ConnectionId) :
    (s.onOutcome role result).1.member.inRoom = s.member.inRoom := by
  unfold onOutcome
  split
  · split
    · exact inRoom_follow (s.member.change_onConnected _ role)
    · rfl
  · split
    · exact inRoom_follow (s.member.change_onConnectFailed role)
    · rfl

theorem inRoom_chat (s : Session) (text : String) : (s.step (.chat text)).1.member.inRoom = s.member.inRoom := by
  unfold step
  split
  · by_cases hr : s.member.inRoom = true
    · simp only [Member.sendChat, hr, if_true]
      exact (inRoom_follow ⟨rfl, .same, .inl ⟨rfl, .same⟩⟩).trans hr
    · simp [Member.sendChat, hr]
  · rfl

/-- A member that joins is in a room, unless it is told why not. -/
theorem toNat_inRoom_join (s : Session) (passphrase : Bytes) (dialled : Except Link.Fault ConnectionId) :
    (s.join passphrase dialled).2.2.isNone.toNat + s.member.inRoom.toNat =
      (s.join passphrase dialled).1.member.inRoom.toNat := by
  unfold join Member.beginJoin
  dsimp only
  by_cases hr : s.member.inRoom = true
  · simp [hr]
  · have hout : s.member.inRoom.toNat = 0 := by simp [hr]
    rw [if_neg hr, hout]
    cases dialled with
    | error f => rfl
    | ok id =>
      dsimp only
      generalize Session.mk s.member _ _ = t
      generalize hm : Member.onConnected _ id .discover = m
      obtain ⟨hub, hf⟩ := t.follow_fst m
      rw [hf, ← hm]
      rfl

/-- A member is in a room from when it enters one until it leaves. -/
theorem toNat_inRoom_step (hs : s.isRunning = true) {i : Input} (hi : i ≠ .shutdown) :
    (s.enters i).toNat + s.member.inRoom.toNat = (s.step i).1.member.inRoom.toNat + (s.leaves i).toNat := by
  have stays (h : (s.step i).1.member.inRoom = s.member.inRoom) :
      0 + s.member.inRoom.toNat = (s.step i).1.member.inRoom.toNat + 0 := by rw [h, Nat.zero_add, Nat.add_zero]
  obtain ⟨m, hub, running⟩ := s
  cases hs
  cases i with
  | join passphrase dialled => exact toNat_inRoom_join ⟨m, hub, true⟩ passphrase dialled
  | leave =>
    obtain ⟨hub', hf⟩ := follow_fst ⟨m, hub, true⟩ m.leave
    show 0 + m.inRoom.toNat = (follow ⟨m, hub, true⟩ m.leave).1.member.inRoom.toNat + m.inRoom.toNat
    rw [hf]
    rfl
  | shutdown => exact absurd rfl hi
  | chat text => exact stays (inRoom_chat _ text)
  | opened _ _ _ => exact stays rfl
  | event e => exact stays (inRoom_onEvent _ e)
  | outcome role result => exact stays (inRoom_onOutcome _ role result)
  | tick => exact stays (inRoom_follow ⟨rfl, .same, .inl ⟨rfl, .same⟩⟩)

theorem isRunning_step (s : Session) {i : Input} (hi : i ≠ .shutdown) : (s.step i).1.isRunning = s.isRunning := by
  have hfollow (t : Session) (m : Member × List Effect) : (t.follow m).1.isRunning = t.isRunning := by
    obtain ⟨hub, hf⟩ := t.follow_fst m
    rw [hf]
  unfold step
  split
  · cases i with
    | join passphrase dialled =>
      dsimp only
      unfold join
      dsimp only
      split
      · rfl
      · split
        · rfl
        · exact hfollow _ _
    | chat text =>
      dsimp only
      split
      · exact hfollow s _
      · rfl
    | leave => exact hfollow s _
    | shutdown => exact absurd rfl hi
    | opened _ _ _ => rfl
    | event e =>
      cases e with
      | accepted _ _ => rfl
      | received _ _ | closed _ _ => exact hfollow s _
    | outcome role result =>
      dsimp only
      unfold onOutcome
      split
      · split
        · exact hfollow s _
        · rfl
      · split
        · exact hfollow s _
        · rfl
    | tick => exact hfollow s _
  · cases i <;> rfl

/-- The outcome of a dial leaves the member as it is, and a connection that came of it is closed. -/
def Discards (s : Session) (role : Role) : Prop :=
  ∀ result, (s.step (.outcome role result)).1.member = s.member ∧
    ∀ id, result = .ok id → (s.step (.outcome role result)).1.hub = s.hub.close id ∧
      (s.hub.connections.contains id = true → Act.close id ∈ (s.step (.outcome role result)).2.1)

/-- In a room, a connection is taken for one of that room. -/
theorem member_connected (hs : s.isRunning = true) (hr : s.member.inRoom = true) (role : Role) (id : ConnectionId) :
    (s.step (.outcome role (.ok id))).1.member = (s.member.onConnected id role).1 := by
  obtain ⟨h, hf⟩ := s.follow_fst (s.member.onConnected id role)
  simp [step, hs, onOutcome, hr, hf]

/-- Whether outcomes are discarded depends on whether the member is in a room, and on nothing else. In a room some
connection would change it: the one to the directory is changed by every second one, and so is a table. -/
theorem discards_iff (hs : s.isRunning = true) (role : Role) : s.Discards role ↔ s.member.inRoom = false := by
  constructor
  · intro h
    by_contra hr
    rw [Bool.not_eq_false] at hr
    have hsame (id : ConnectionId) : (s.member.onConnected id role).1 = s.member :=
      (member_connected hs hr role id).symm.trans (h (.ok id)).1
    cases role with
    | discover =>
      have h0 : some 0 = s.member.directory := congrArg Member.directory (hsame 0)
      have h1 : some 1 = s.member.directory := congrArg Member.directory (hsame 1)
      cases h0.trans h1.symm
    | advertise =>
      obtain ⟨k, hk⟩ := Option.isSome_iff_exists.1 hr
      have hdir (id : ConnectionId) : some id = s.member.directory := by
        have h := congrArg Member.directory (hsame id)
        simpa [Member.onConnected, Member.advert?, hk] using h
      cases (hdir 0).trans (hdir 1).symm
    | roomHost user | member user =>
      obtain ⟨id, hid⟩ := s.member.peers.exists_insert_ne user
      exact hid (congrArg Member.peers (hsame id))
  · intro hr result
    obtain ⟨m, hub, running⟩ := s
    cases hs
    have hr : m.inRoom = false := hr
    cases result with
    | ok id =>
      have hstep : step ⟨m, hub, true⟩ (.outcome role (.ok id)) =
          (⟨m, hub.close id, true⟩, if hub.connections.contains id then [.close id] else [], none) := by
        simp [step, onOutcome, hr, perform]
      rw [hstep]
      refine ⟨rfl, fun j hj => ?_⟩
      cases hj
      exact ⟨rfl, fun hopen => by rw [if_pos hopen]; exact List.mem_singleton.2 rfl⟩
    | error f =>
      have hstep : step ⟨m, hub, true⟩ (.outcome role (.error f)) = (⟨m, hub, true⟩, [], none) := by
        simp [step, onOutcome, hr]
      rw [hstep]
      exact ⟨rfl, fun _ hj => by cases hj⟩

end Session

/-! ## Rooms and dials -/

/-- A dial that is on its way, with the number of the last room that had been entered when it was started; there is no
room 0. -/
structure Attempt where
  role : Role
  room : Nat
  deriving DecidableEq

/-- A session with the numbers of rooms that it has entered and left, and its dials that are on their way. -/
structure Course where
  session : Session
  entered : Nat
  left : Nat
  dials : List Attempt

namespace Course

/-- What comes of an input, while some dials stay on their way. -/
def after (c : Course) (i : Session.Input) (waiting : List Attempt) : Course :=
  let (session, acts, _) := c.session.step i
  let entered := c.entered + (c.session.enters i).toNat
  let dials := waiting ++ (acts.filterMap Act.dialled?).map (⟨·, entered⟩)
  ⟨session, entered, c.left + (c.session.leaves i).toNat, dials⟩

/-- Everything but the outcomes of dials and the end of the session. -/
def Plain : Session.Input → Prop
  | .join _ _ | .chat _ | .leave | .opened _ _ _ | .event _ | .tick => True
  | .shutdown | .outcome _ _ => False

/-- The courses that a session can take. The dials that are on their way come to an end in any order, at any time, with any
outcome. -/
inductive Run : Course → Prop
  | start {settings : MemberSettings} {port : UInt16} {s : Session} (h : Session.start settings port = .ok s) :
    Run ⟨s, 0, 0, []⟩
  | plain {c : Course} (h : Run c) {i : Session.Input} (hi : Plain i) : Run (c.after i c.dials)
  | outcome {c : Course} (h : Run c) {d : Attempt} (hd : d ∈ c.dials) (result : Except Link.Fault ConnectionId) :
    Run (c.after (.outcome d.role result) (c.dials.erase d))

/-- A dial is on its way whose room has been left. -/
structure Stale (c : Course) (d : Attempt) : Prop where
  mem : d ∈ c.dials
  left : d.room ≤ c.left

variable {c : Course} {d : Attempt}

/-- A session runs, and it is in a room if it has entered one more than it has left. -/
structure Counted (c : Course) : Prop where
  isRunning : c.session.isRunning = true
  entered : c.entered = c.left + c.session.member.inRoom.toNat

theorem Counted.after (h : c.Counted) {i : Session.Input} (hi : i ≠ .shutdown) (waiting : List Attempt) :
    (c.after i waiting).Counted := by
  have hstep := Session.toNat_inRoom_step h.isRunning hi
  have hentered := h.entered
  refine ⟨(c.session.isRunning_step hi).trans h.isRunning, ?_⟩
  show c.entered + _ = c.left + _ + (c.session.step i).1.member.inRoom.toNat
  omega

theorem Run.counted (h : c.Run) : c.Counted := by
  induction h with
  | @start settings port s h =>
    unfold Session.start at h
    split at h
    · cases h
      exact ⟨rfl, rfl⟩
    · cases h
  | plain _ hi ih => exact ih.after (by rintro rfl; exact hi) _
  | outcome _ _ _ ih => exact ih.after (by simp) _

/-- Another member. -/
def bob : Identity := ⟨"bob", ⟨.loopback, 7002⟩⟩

/-- A member that joins a room, hears of another one there, wants to be connected to it and leaves. -/
def departed : Course :=
  let ann : Session := ⟨.outside ⟨"ann", ⟨.loopback, 7001⟩⟩ (.v4 ⟨.loopback, 7000⟩), .empty, true⟩
  let joined := (Course.mk ann 0 0 []).after (.join [] (.ok 1)) []
  let told := joined.after (.event (.received 1 ⟨⟨.loopback, 7002⟩, .userInfo bob⟩)) joined.dials
  told.after .leave told.dials

theorem run_departed : departed.Run := by
  have hann : Session.start { name := "ann", directoryAddr := .v4 ⟨.loopback, 7000⟩ } 7001 =
      .ok ⟨.outside ⟨"ann", ⟨.loopback, 7001⟩⟩ (.v4 ⟨.loopback, 7000⟩), .empty, true⟩ := by decide
  have hjoined := (Run.start hann).plain (i := .join [] (.ok 1)) trivial
  have htold := hjoined.plain (i := .event (.received 1 ⟨⟨.loopback, 7002⟩, .userInfo bob⟩)) trivial
  exact htold.plain (i := .leave) trivial

theorem stale_departed : departed.Stale ⟨.member bob, 1⟩ :=
  ⟨by decide +kernel, by decide +kernel⟩

/-- **Dials do not outlive their room**, if the member is in no room again when they come to an end. So it is as long as no
room has been entered since they were started. -/
theorem Run.discards (h : c.Run) (hs : c.Stale d) :
    (c.session.Discards d.role ↔ c.session.member.inRoom = false) ∧
      (d.room = c.entered → c.session.Discards d.role) := by
  have hiff := Session.discards_iff h.counted.isRunning d.role
  refine ⟨hiff, fun he => hiff.2 ?_⟩
  have hleft := hs.left
  have hentered := h.counted.entered
  rw [← Bool.toNat_eq_zero]
  omega

/-- The member is in no room when the connection comes about. -/
theorem Run.discards_departed : departed.session.Discards (.member bob) :=
  (Run.discards run_departed stale_departed).2 (by decide +kernel)

/-- The member has joined another room in the meantime, and takes the connection for one of that room. -/
theorem rejoined_hears : ¬ ∀ (c : Course) (d : Attempt), c.Run → c.Stale d → c.session.Discards d.role := by
  intro h
  have hrun : (departed.after (.join [0] (.ok 2)) departed.dials).Run := run_departed.plain trivial
  have hmem := stale_departed.mem
  have hd := h _ ⟨.member bob, 1⟩ hrun ⟨List.mem_append_left _ hmem, by decide +kernel⟩
  rw [Session.discards_iff hrun.counted.isRunning] at hd
  exact absurd hd (by decide +kernel)

end Course
end Parley
