import Mathlib.Logic.Relation
import Parley.Proofs.Room.Desk

/-!
# Lines that overtake others

A member hears lines of chat, sends some of its own, and looks at what waits (`Hearing`). A line that its clock has reached
is taken up at once, whatever waits: if the clock has moved on since the member last looked, lines with smaller stamps may
be waiting that it could take up as well, and these are overtaken (`line_overtakes`). Nothing else is ever overtaken
(`Step.overtaken`).

So a member that looks at what waits before every line that comes is told of lines in order (`told_in_order`): never of a
line while one with a smaller stamp waits, and of the lines of one sender as that one sent them.
-/

namespace Parley

/-- A line of chat as it waits: its stamp, and its sender with the message. -/
abbrev Waiting : Type := UInt64 × (Option Identity × Message)

/-- A member that takes part in a chat, the lines that have come to it, and those that its listener has been told of. -/
structure Hearing where
  member : Member
  arrived : List Waiting
  told : List Waiting

/-- The inputs of a chat. -/
inductive Member.Input.Talk : Member.Input → Prop
  | line (id : ConnectionId) (a : Endpoint) (stamp : UInt64) (text : String) : Talk (.received id ⟨a, .chat stamp text⟩)
  | chat (text : String) : Talk (.chat text)
  | poll : Talk .poll

/-- The line that an input brings, with its sender as the member knows it. -/
def Member.incoming? (m : Member) : Member.Input → Option Waiting
  | .received id ⟨_, .chat stamp text⟩ => some (stamp, m.peers.get? id, .chat stamp text)
  | _ => none

/-- The lines that effects tell the listener of. -/
def Effect.lines (effects : List Effect) : List Waiting :=
  effects.filterMap fun
    | .notify (.messageReceived sender (.chat stamp text)) => some (stamp, sender, .chat stamp text)
    | _ => none

namespace Hearing

/-- What an input makes of it. -/
def next (h : Hearing) (x : Member.Input) : Hearing where
  member := h.member.after x
  arrived := h.arrived ++ (h.member.incoming? x).toList
  told := h.told ++ Effect.lines (h.member.effectsOf x)

/-- A line comes, or the member sends one, or it looks at what waits. -/
def Step (h h' : Hearing) : Prop := ∃ x, x.Talk ∧ h' = h.next x

/-- The same, but when a line comes, there is nothing that waits and that the member could take up. -/
def PromptStep (h h' : Hearing) : Prop :=
  ∃ x, x.Talk ∧ ((h.member.incoming? x).isSome → h.member.poll.2 = []) ∧ h' = h.next x

/-- The clock is synced, and nothing has arrived. -/
structure Opening (h : Hearing) : Prop where
  clock : h.member.clock.isSynced = true
  pending : h.member.pending = .empty
  arrived : h.arrived = []
  told : h.told = []

/-- From `h` to `h'` the listener is told of no line while one with a smaller stamp waits. -/
def InOrder (h h' : Hearing) : Prop :=
  ∀ before e after, h'.told = h.told ++ (before ++ e :: after) →
    ∀ d ∈ after ++ h'.member.pending.entries, ¬ d.1 < e.1

/-- The lines of one sender. -/
def linesOf (sender : Option Identity) (es : List Waiting) : List Waiting := es.filter fun e => e.2.1 = sender

/-! ## What the inputs do -/

theorem lines_map_notify {es : List Waiting} (h : ∀ e ∈ es, ∃ text, e.2.2 = .chat e.1 text) :
    Effect.lines (es.map fun e => .notify (.messageReceived e.2.1 e.2.2)) = es := by
  rw [Effect.lines, List.filterMap_map]
  refine (List.filterMap_congr ?_).trans List.filterMap_some
  rintro ⟨stamp, sender, message⟩ he
  obtain ⟨text, rfl : message = .chat stamp text⟩ := h _ he
  rfl

section Inputs

variable {h : Hearing} {now : UInt64}

theorem next_of_step {x : Member.Input} {m : Member} {es : List Effect} (hs : h.member.step x = .ok (m, es)) :
    h.next x = ⟨m, h.arrived ++ (h.member.incoming? x).toList, h.told ++ Effect.lines es⟩ := by
  simp [next, Member.after, Member.effectsOf, hs]

/-- Sending moves the clock on at most. -/
theorem next_chat (hc : h.member.clock = .synced now) (text : String) :
    ∃ m now', h.next (.chat text) = ⟨m, h.arrived, h.told⟩ ∧ m.clock = .synced now' ∧
      m.pending = h.member.pending := by
  by_cases hr : h.member.inRoom = true
  · refine ⟨{ h.member with clock := h.member.clock.stamp.2 }, Clock.next now, ?_, by rw [hc]; rfl, rfl⟩
    rw [next_of_step (Member.step_chat hr text)]
    simp [Member.incoming?, Effect.lines]
  · refine ⟨h.member, now, ?_, hc, rfl⟩
    simp [next, Member.after, Member.effectsOf, Member.step, Member.sendChat, hr, Member.incoming?, Effect.lines]

/-- A line that the clock has reached is told of. -/
theorem next_deliver {id : ConnectionId} {a : Endpoint} {stamp : UInt64} {text : String}
    (hc : h.member.clock = .synced now) (hs : stamp ≤ now) :
    h.next (.received id ⟨a, .chat stamp text⟩) =
      ⟨{ h.member with clock := .synced (Clock.next now) },
        h.arrived ++ [(stamp, h.member.peers.get? id, .chat stamp text)],
        h.told ++ [(stamp, h.member.peers.get? id, .chat stamp text)]⟩ :=
  next_of_step (Member.step_chat_deliver hc hs)

/-- A line ahead of the clock waits. -/
theorem next_defer {id : ConnectionId} {a : Endpoint} {stamp : UInt64} {text : String}
    (hc : h.member.clock = .synced now) (hs : now < stamp) :
    h.next (.received id ⟨a, .chat stamp text⟩) =
      ⟨{ h.member with pending := h.member.pending.push stamp (h.member.peers.get? id, .chat stamp text) },
        h.arrived ++ [(stamp, h.member.peers.get? id, .chat stamp text)], h.told⟩ := by
  rw [next_of_step (Member.step_chat_defer hc hs)]
  simp [Member.incoming?, Effect.lines]

end Inputs

/-! ## What always holds -/

/-- What always holds: the clock is synced, and what waits are lines in the order of their stamps. -/
structure Kept (h : Hearing) (now : UInt64) : Prop where
  clock : h.member.clock = .synced now
  sorted : Pending.Sorted h.member.pending.entries
  lines : ∀ e ∈ h.member.pending.entries, ∃ text, e.2.2 = .chat e.1 text

/-- What waits and can be taken up now. -/
def ripe (h : Hearing) (now : UInt64) : List Waiting := (Pending.drainEntries now h.member.pending.entries).1

/-- What waits and cannot be taken up yet. -/
def unripe (h : Hearing) (now : UInt64) : List Waiting := (Pending.drainEntries now h.member.pending.entries).2.1

variable {h h' : Hearing} {now : UInt64}

theorem Opening.kept (o : h.Opening) : ∃ now, Kept h now := by
  obtain ⟨now, hc⟩ : ∃ now, h.member.clock = .synced now := by
    have hs := o.clock
    cases hc : h.member.clock with
    | unsynced => simp [hc, Clock.isSynced, Clock.time?] at hs
    | synced now => exact ⟨now, rfl⟩
  have he : h.member.pending.entries = [] := congrArg Pending.entries o.pending
  exact ⟨now, hc, by rw [he]; exact List.Pairwise.nil, by simp [he]⟩

theorem ripe_append_unripe (h : Hearing) (now : UInt64) : h.ripe now ++ h.unripe now = h.member.pending.entries :=
  Pending.drainEntries_append now _

/-- Looking at what waits tells of what is ripe. -/
theorem Kept.next_poll (k : Kept h now) :
    ∃ m now', h.next .poll = ⟨m, h.arrived, h.told ++ h.ripe now⟩ ∧ m.clock = .synced now' ∧
      m.pending.entries = h.unripe now := by
  have hripe : ∀ e ∈ h.ripe now, ∃ text, e.2.2 = .chat e.1 text := fun e he =>
    k.lines e (ripe_append_unripe h now ▸ List.mem_append_left _ he)
  have hn := next_of_step (h := h) (x := .poll) (congrArg Except.ok (Member.poll_eq k.clock))
  have hnone : (h.member.incoming? .poll).toList = [] := rfl
  rw [← ripe, lines_map_notify hripe, hnone, List.append_nil] at hn
  exact ⟨_, _, hn, rfl, rfl⟩

theorem Kept.step (k : Kept h now) (hs : Step h h') : ∃ now', Kept h' now' := by
  obtain ⟨x, hx, rfl⟩ := hs
  cases hx with
  | chat text =>
    obtain ⟨m, now', hn, hc, hp⟩ := next_chat k.clock text
    rw [hn]
    exact ⟨now', hc, hp ▸ k.sorted, hp ▸ k.lines⟩
  | poll =>
    obtain ⟨m, now', hn, hc, hp⟩ := k.next_poll
    have happ := ripe_append_unripe h now
    rw [hn]
    refine ⟨now', hc, ?_, ?_⟩
    · have hs := k.sorted
      rw [← happ] at hs
      rw [hp]
      exact (List.pairwise_append.1 hs).2.1
    · intro e he
      rw [hp] at he
      exact k.lines e (happ ▸ List.mem_append_right _ he)
  | line id a stamp text =>
    by_cases hs : stamp ≤ now
    · rw [next_deliver k.clock hs]
      exact ⟨Clock.next now, rfl, k.sorted, k.lines⟩
    · rw [next_defer k.clock (UInt64.not_le.1 hs)]
      refine ⟨now, k.clock, k.sorted.insertEntry _ _, ?_⟩
      have hadded := Pending.perm_insertEntry stamp (h.member.peers.get? id, Message.chat stamp text)
        h.member.pending.entries
      intro e hmem
      rcases List.mem_append.1 (hadded.subset hmem) with hmem | hmem
      · exact k.lines e hmem
      · obtain rfl := List.mem_singleton.1 hmem
        exact ⟨text, rfl⟩

theorem Opening.kept_of_run {h₀ : Hearing} (o : h₀.Opening) (hr : Relation.ReflTransGen Step h₀ h) :
    ∃ now, Kept h now := by
  induction hr with
  | refl => exact o.kept
  | tail _ hs ih =>
    obtain ⟨now, k⟩ := ih
    exact k.step hs

/-! ## Overtaking -/

/-- A line that is overtaken is ripe, and overtaken by one that just comes. -/
theorem Kept.overtaken (k : Kept h now) {x : Member.Input} (hx : x.Talk) {before after : List Waiting} {d e : Waiting}
    (ht : (h.next x).told = h.told ++ (before ++ e :: after))
    (hd : d ∈ after ++ (h.next x).member.pending.entries) (hlt : d.1 < e.1) :
    h.member.incoming? x = some e ∧ d ∈ h.member.pending.entries ∧ d.1 ≤ now := by
  cases hx with
  | chat text =>
    obtain ⟨m, now', hn, -, -⟩ := next_chat k.clock text
    simp [hn] at ht
  | poll =>
    obtain ⟨m, now', hn, -, hp⟩ := k.next_poll
    rw [hn] at ht hd
    have hripe : h.ripe now = before ++ e :: after := List.append_cancel_left ht
    have hs := k.sorted
    rw [← ripe_append_unripe h now, hripe, List.append_assoc, List.cons_append] at hs
    simp only [hp] at hd
    have hle := (List.pairwise_cons.1 (List.pairwise_append.1 hs).2.1).1 d hd
    exact absurd hlt (UInt64.not_lt.2 hle)
  | line id a stamp text =>
    by_cases hs : stamp ≤ now
    · rw [next_deliver k.clock hs] at ht hd
      obtain ⟨rfl, he⟩ : before = [] ∧ [(stamp, h.member.peers.get? id, Message.chat stamp text)] = e :: after := by
        have hnew := List.append_cancel_left ht
        cases before with
        | nil => exact ⟨rfl, hnew⟩
        | cons b bs => simp at hnew
      obtain ⟨rfl, rfl⟩ := List.cons.inj he
      exact ⟨rfl, hd, UInt64.le_trans (UInt64.le_of_lt hlt) hs⟩
    · rw [next_defer k.clock (UInt64.not_le.1 hs)] at ht
      simp at ht

/-- If nothing can be taken up, everything that waits is ahead of the clock. -/
theorem Kept.lt_of_stuck (k : Kept h now) (hp : h.member.poll.2 = []) {d : Waiting}
    (hd : d ∈ h.member.pending.entries) : now < d.1 := by
  refine k.sorted.lt_of_stuck ?_ hd
  rw [Member.poll_eq k.clock] at hp
  exact List.map_eq_nil_iff.1 hp

theorem PromptStep.step (hs : PromptStep h h') : Step h h' := by
  obtain ⟨x, hx, -, rfl⟩ := hs
  exact ⟨x, hx, rfl⟩

theorem Kept.inOrder (k : Kept h now) (hs : PromptStep h h') : InOrder h h' := by
  obtain ⟨x, hx, hp, rfl⟩ := hs
  intro before e after ht d hd hlt
  obtain ⟨hi, hmem, hle⟩ := k.overtaken hx ht hd hlt
  exact absurd (k.lt_of_stuck (hp (by simp [hi])) hmem) (UInt64.not_lt.2 hle)

/-! ## The lines of one sender -/

/-- The lines of a sender that have come and have not been told of wait, in the order in which they came. -/
def Faithful (h : Hearing) (sender : Option Identity) : Prop :=
  Pending.Sorted (linesOf sender h.arrived) →
    linesOf sender h.arrived = linesOf sender h.told ++ linesOf sender h.member.pending.entries

variable {sender : Option Identity}

theorem linesOf_append (ds es : List Waiting) : linesOf sender (ds ++ es) = linesOf sender ds ++ linesOf sender es :=
  List.filter_append ..

theorem linesOf_of_sender {e : Waiting} (h : e.2.1 = sender) : linesOf sender [e] = [e] := by simp [linesOf, h]

theorem linesOf_of_other {e : Waiting} (h : e.2.1 ≠ sender) : linesOf sender [e] = [] := by simp [linesOf, h]

/-- A line of the sender that comes now has the largest stamp. -/
theorem le_of_sorted_append {es : List Waiting} {e d : Waiting} (hs : Pending.Sorted (linesOf sender es ++ [e]))
    (hd : d ∈ linesOf sender es) : d.1 ≤ e.1 :=
  (List.pairwise_append.1 hs).2.2 d hd e (List.mem_singleton.2 rfl)

theorem Opening.faithful (o : h.Opening) (sender : Option Identity) : Faithful h sender := by
  intro _
  rw [o.arrived, o.told, o.pending]
  rfl

/-- A line that is taken up when everything that waits is ahead of the clock. No other line of its sender waits, since that
one would be ahead of the clock and yet not of this line. -/
theorem Faithful.deliver (f : Faithful h sender) {e : Waiting} (he : e.1 ≤ now)
    (hw : ∀ d ∈ h.member.pending.entries, now < d.1) (m : Member) (hm : m.pending = h.member.pending) :
    Faithful ⟨m, h.arrived ++ [e], h.told ++ [e]⟩ sender := by
  simp only [Faithful, linesOf_append, hm]
  intro hsorted
  have hf := f (List.pairwise_append.1 hsorted).1
  by_cases hs : e.2.1 = sender
  · rw [linesOf_of_sender hs] at hsorted ⊢
    have hnone : linesOf sender h.member.pending.entries = [] := by
      rw [List.eq_nil_iff_forall_not_mem]
      intro d hd
      have hle := le_of_sorted_append hsorted (hf ▸ List.mem_append_right _ hd)
      exact UInt64.not_lt.2 (UInt64.le_trans hle he) (hw d (List.mem_filter.1 hd).1)
    rw [hf, hnone, List.append_nil, List.append_nil]
  · rw [linesOf_of_other hs, List.append_nil, List.append_nil]
    exact hf

/-- A line that waits goes behind the other lines of its sender: what waits behind it has a larger stamp, and so is
somebody else's. -/
theorem Faithful.defer (f : Faithful h sender) (hp : Pending.Sorted h.member.pending.entries) (e : Waiting) (m : Member)
    (hm : m.pending = h.member.pending.push e.1 e.2) : Faithful ⟨m, h.arrived ++ [e], h.told⟩ sender := by
  obtain ⟨before, after, hes, hi, -, ha⟩ := Pending.insertEntry_split e.1 e.2 hp
  simp only [Faithful, linesOf_append, hm, Pending.push, hi]
  intro hsorted
  have hf := f (List.pairwise_append.1 hsorted).1
  have hsplit : linesOf sender ((e.1, e.2) :: after) = linesOf sender [e] ++ linesOf sender after :=
    linesOf_append [e] after
  rw [hes, linesOf_append] at hf
  by_cases hs : e.2.1 = sender
  · rw [linesOf_of_sender hs] at hsorted hsplit ⊢
    have hnone : linesOf sender after = [] := by
      rw [List.eq_nil_iff_forall_not_mem]
      intro d hd
      have hle := le_of_sorted_append hsorted (hf ▸ List.mem_append_right _ (List.mem_append_right _ hd))
      exact UInt64.not_lt.2 hle (ha d (List.mem_filter.1 hd).1)
    rw [hsplit, hf, hnone, List.append_nil, List.append_nil, List.append_assoc]
  · rw [linesOf_of_other hs] at hsplit ⊢
    rw [hsplit, hf, List.append_nil]
    rfl

theorem Kept.faithful (k : Kept h now) (f : Faithful h sender) (hs : PromptStep h h') : Faithful h' sender := by
  obtain ⟨x, hx, hp, rfl⟩ := hs
  cases hx with
  | chat text =>
    obtain ⟨m, now', hn, -, hpend⟩ := next_chat k.clock text
    rw [Faithful, hn, hpend]
    exact f
  | poll =>
    obtain ⟨m, now', hn, -, hpend⟩ := k.next_poll
    rw [Faithful, hn, hpend, linesOf_append, List.append_assoc, ← linesOf_append, ripe_append_unripe]
    exact f
  | line id a stamp text =>
    by_cases hs : stamp ≤ now
    · rw [next_deliver k.clock hs]
      exact f.deliver hs (fun d hd => k.lt_of_stuck (hp rfl) hd) _ rfl
    · rw [next_defer k.clock (UInt64.not_le.1 hs)]
      exact f.defer k.sorted (stamp, h.member.peers.get? id, .chat stamp text) _ rfl

/-! ## Runs -/

theorem steps_of_promptSteps {h₀ : Hearing} (hr : Relation.ReflTransGen PromptStep h₀ h) :
    Relation.ReflTransGen Step h₀ h :=
  Relation.ReflTransGen.mono (fun _ _ => PromptStep.step) _ _ hr

theorem Opening.faithful_of_run {h₀ : Hearing} (o : h₀.Opening) (hr : Relation.ReflTransGen PromptStep h₀ h)
    (sender : Option Identity) : Faithful h sender := by
  induction hr with
  | refl => exact o.faithful sender
  | tail hr hs ih =>
    obtain ⟨now, k⟩ := o.kept_of_run (steps_of_promptSteps hr)
    exact k.faithful ih hs

/-- **Lines are told of in order**, if the member looks at what waits before every line that comes. Where it does so before
the next line, the listener is told of no line while one with a smaller stamp waits. Where it has always done so, and the
lines of a sender come in the order of their stamps, those that the listener has been told of are the first of them, in this
order. -/
theorem told_in_order {h₀ : Hearing} (o : h₀.Opening) (hr : Relation.ReflTransGen Step h₀ h) :
    (∀ h', PromptStep h h' → InOrder h h') ∧
      (Relation.ReflTransGen PromptStep h₀ h → ∀ sender, Pending.Sorted (linesOf sender h.arrived) →
        linesOf sender h.told <+: linesOf sender h.arrived) := by
  obtain ⟨now, k⟩ := o.kept_of_run hr
  refine ⟨fun h' hs => k.inOrder hs, fun hp sender hsorted => ?_⟩
  rw [o.faithful_of_run hp sender hsorted]
  exact List.prefix_append _ _

/-! ## A line that overtakes another -/

/-- A member of a room, and another member that it is connected to. -/
def quietMember : Member :=
  { Member.outside ⟨"ann", ⟨.loopback, 7001⟩⟩ (.v4 ⟨.loopback, 7000⟩) with
    key := some ⟨RoomKey.zeroBlock⟩
    peers := PeerTable.empty.insert 1 ⟨"bob", ⟨.loopback, 7002⟩⟩ }

/-- A line of the other member. -/
def bobs (stamp : UInt64) (text : String) : Waiting := (stamp, some ⟨"bob", ⟨.loopback, 7002⟩⟩, .chat stamp text)

def bobSays (stamp : UInt64) (text : String) : Member.Input := .received 1 ⟨⟨.loopback, 7002⟩, .chat stamp text⟩

/-- Two lines of one sender come in order. The member sends two lines between them and does not look at what waits, and
takes up the second line while the first one waits. -/
theorem line_overtakes : ∃ h₀ h h' : Hearing, h₀.Opening ∧ Relation.ReflTransGen Step h₀ h ∧ Step h h' ∧
    h'.arrived = [bobs 1 "a", bobs 2 "b"] ∧ h'.told = [bobs 2 "b"] ∧ bobs 1 "a" ∈ h'.member.pending.entries ∧
    ¬ InOrder h h' := by
  let h₀ : Hearing := ⟨quietMember, [], []⟩
  let h := ((h₀.next (bobSays 1 "a")).next (.chat "x")).next (.chat "y")
  have run := Relation.ReflTransGen.refl (r := Step) (a := h₀)
    |>.tail ⟨bobSays 1 "a", .line 1 _ 1 "a", rfl⟩
    |>.tail ⟨.chat "x", .chat "x", rfl⟩
    |>.tail ⟨.chat "y", .chat "y", rfl⟩
  have hlast : (h.next (bobSays 2 "b")).told = h.told ++ ([] ++ bobs 2 "b" :: []) := by decide
  have hwait : bobs 1 "a" ∈ (h.next (bobSays 2 "b")).member.pending.entries := by decide
  refine ⟨h₀, h, h.next (bobSays 2 "b"), ⟨rfl, rfl, rfl, rfl⟩, run, ⟨bobSays 2 "b", .line 1 _ 2 "b", rfl⟩, by decide,
    by decide, hwait, fun ho => ?_⟩
  exact ho [] (bobs 2 "b") [] hlast (bobs 1 "a") hwait (by decide)

/-- If the member looks at what waits before the second line comes, it is told of both in order. -/
theorem told_in_order_looking :
    let bob : Option Identity := some ⟨"bob", ⟨.loopback, 7002⟩⟩
    let h₀ : Hearing := ⟨quietMember, [], []⟩
    let h := ((((h₀.next (bobSays 1 "a")).next (.chat "x")).next (.chat "y")).next .poll).next (bobSays 2 "b")
    h.told = [bobs 1 "a", bobs 2 "b"] ∧ linesOf bob h.told <+: linesOf bob h.arrived ∧
      ∀ h', PromptStep h h' → InOrder h h' := by
  intro bob h₀ h
  have run := Relation.ReflTransGen.refl (r := PromptStep) (a := h₀)
    |>.tail ⟨bobSays 1 "a", .line 1 _ 1 "a", fun _ => rfl, rfl⟩
    |>.tail ⟨.chat "x", .chat "x", nofun, rfl⟩
    |>.tail ⟨.chat "y", .chat "y", nofun, rfl⟩
    |>.tail ⟨.poll, .poll, nofun, rfl⟩
    |>.tail ⟨bobSays 2 "b", .line 1 _ 2 "b", fun _ => by decide, rfl⟩
  have hsorted : Pending.Sorted (linesOf bob h.arrived) := by
    unfold Pending.Sorted
    decide
  obtain ⟨hnext, hall⟩ := told_in_order ⟨rfl, rfl, rfl, rfl⟩ (steps_of_promptSteps run)
  exact ⟨by decide, hall run bob hsorted, hnext⟩

end Hearing
end Parley
