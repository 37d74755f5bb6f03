import Mathlib.Logic.Relation
import Parley.Proofs.Room.Desk

/-!
# Chat in a closed room settles

In a room in which everybody is connected to everybody, members send lines of chat, copies arrive in any order, and every
member looks at what waits from time to time. Once nothing is on its way and nobody can take anything up, nothing waits,
everybody has been told of every line of the others exactly once, and all clocks have counted all lines
(`chat_settles`).

What carries the proof are the accounts of the members (`Desk`), and that stamps are counts (`Talk.Kept.ranked`): the stamp
of a line is at most the number of lines with smaller stamps, which its author had counted.
-/

namespace Parley

variable {n : Nat}

/-- A room, and the lines that have been sent in it. -/
structure Talk (n : Nat) where
  room : Room n
  sent : List (Line n)

namespace Talk

/-- What happens in the room, one thing at a time: a member sends a line, with the stamp that its clock shows; a packet,
any one that is on its way, arrives; a member looks at what waits. -/
inductive Step (M : Mesh n) : Talk n → Talk n → Prop
  | chat (s : Talk n) (i : Fin n) (text : String) :
      Step M s ⟨s.room.input M i (.chat text), s.sent ++ [⟨i, (s.room.member i).clock.stamp.1, text⟩]⟩
  | deliver (s : Talk n) (p : Packet n) (before after : List (Packet n)) (h : s.room.flight = before ++ p :: after) :
      Step M s ⟨s.room.deliver M p (before ++ after), s.sent⟩
  | poll (s : Talk n) (i : Fin n) : Step M s ⟨s.room.input M i .poll, s.sent⟩

/-- Everybody is connected to everybody else, all clocks show the same time, and nothing has been sent yet. -/
structure Opening (M : Mesh n) (t₀ : UInt64) (s : Talk n) : Prop where
  seated : ∀ i, M.Seated i (Mesh.others i) (s.room.member i)
  clock : ∀ i, (s.room.member i).clock = .synced t₀
  pending : ∀ i, (s.room.member i).pending = .empty
  flight : s.room.flight = []
  told : ∀ i, s.room.told i = []
  sent : s.sent = []

/-- Nothing is on its way, and looking at what waits would take nothing up. -/
def Quiet (s : Talk n) : Prop := s.room.flight = [] ∧ ∀ i, (s.room.member i).poll.2 = []

end Talk

/-! ## Runs -/

namespace Talk

variable {M : Mesh n} {t₀ : UInt64} {s t : Talk n}

/-- The account of the whole room: of each member, and of the stamps. A stamp is at most a count of the lines with smaller
stamps, and no line is sent twice. -/
structure Kept (M : Mesh n) (t₀ : UInt64) (s : Talk n) : Prop where
  desk : ∀ i, ∃ heard waiting flying,
    Desk M t₀ i s.sent (s.room.member i) (s.room.told i) (s.room.inbound i) heard waiting flying
  ranked : ∀ l ∈ s.sent,
    l.stamp.toNat ≤ t₀.toNat + s.sent.countP fun k => decide (k.stamp.toNat < l.stamp.toNat)
  nodup : s.sent.Nodup

theorem Opening.kept (h : s.Opening M t₀) : Kept M t₀ s := by
  refine ⟨fun i => ⟨[], [], [], h.seated i, h.told i, ?_, ?_, ?_, ?_, ⟨t₀, h.clock i, ?_⟩, ?_⟩, ?_, ?_⟩
  · rw [h.pending i]
    rfl
  · rw [h.pending i]
    exact List.Pairwise.nil
  · simp [Room.inbound, h.flight]
  · simp [foreign, h.sent]
  · simp [own, h.sent]
  · simp [own, h.sent]
  · simp [h.sent]
  · simp [h.sent]

/-- A member that sends nothing only changes its own account. `r` is the room as the member finds it. -/
theorem Kept.act (h : Kept M t₀ s) {i : Fin n} {x : Member.Input} {r : Room n} (hm : r.member = s.room.member)
    (ht : r.told = s.room.told) (hf : ∀ j, j ≠ i → r.inbound j = s.room.inbound j)
    (hd : ∃ m es heard waiting flying, (r.member i).step x = .ok (m, es) ∧ M.post i m es = [] ∧
      Desk M t₀ i s.sent m (r.told i ++ Effect.events es) (r.inbound i) heard waiting flying) :
    Kept M t₀ ⟨r.input M i x, s.sent⟩ := by
  obtain ⟨m, es, heard, waiting, flying, hstep, hpost, hdesk⟩ := hd
  refine ⟨fun j => ?_, h.ranked, h.nodup⟩
  have hin := Room.inbound_input (M := M) hstep j
  rw [hpost, List.filter_nil, List.append_nil] at hin
  by_cases hj : j = i
  · subst hj
    refine ⟨heard, waiting, flying, ?_⟩
    simp only [hin, Room.input_member_self hstep, Room.input_told_self hstep]
    exact hdesk
  · obtain ⟨heard', waiting', flying', hdesk'⟩ := h.desk j
    refine ⟨heard', waiting', flying', ?_⟩
    simp only [hin, Room.input_member_of_ne hj, Room.input_told_of_ne hj, hm, ht, hf j hj]
    exact hdesk'

/-- Sending a line. Its stamp counts the lines that its author has heard or sent, all of which have smaller stamps. -/
theorem Kept.chat (h : Kept M t₀ s) (i : Fin n) (text : String)
    (hN : t₀.toNat + (s.sent.length + 1) < UInt64.size) :
    Kept M t₀ ⟨s.room.input M i (.chat text), s.sent ++ [⟨i, (s.room.member i).clock.stamp.1, text⟩]⟩ := by
  obtain ⟨heard, waiting, flying, d⟩ := h.desk i
  obtain ⟨now, hc, hnow⟩ := d.clock
  have hroom : (s.room.member i).inRoom = true := by simp [Member.inRoom, d.seated.key]
  have hstep := Member.step_chat hroom text
  have hpost := Mesh.filter_post_allPeers (m := { s.room.member i with clock := (s.room.member i).clock.stamp.2 })
    d.seated.peers (by simp) (Mesh.nodup_others i) (.chat (s.room.member i).clock.stamp.1 text)
  have hstamp : (s.room.member i).clock.stamp.1 = now := by rw [hc]; rfl
  refine ⟨fun j => ?_, ?_, ?_⟩
  · have hin := Room.inbound_input (M := M) hstep j
    rw [hpost j] at hin
    by_cases hj : j = i
    · subst hj
      refine ⟨heard, waiting, flying, ?_⟩
      rw [if_neg (by simp), List.append_nil] at hin
      simp only [hin, Room.input_member_self hstep, Room.input_told_self hstep]
      exact (List.append_nil (s.room.told j)).symm ▸ d.send hN text
    · obtain ⟨heard', waiting', flying', d'⟩ := h.desk j
      refine ⟨heard', waiting', flying' ++ [⟨i, (s.room.member i).clock.stamp.1, text⟩], ?_⟩
      rw [if_pos (Mesh.mem_others.2 hj)] at hin
      simp only [hin, Room.input_member_of_ne hj, Room.input_told_of_ne hj, d.seated.me]
      exact d'.other_sends (l := ⟨i, _, text⟩) (Ne.symm hj)
  · intro l hl
    rw [List.countP_append]
    rcases List.mem_append.1 hl with hl | hl
    · exact Nat.le_trans (h.ranked l hl) (by omega)
    · obtain rfl := List.mem_singleton.1 hl
      have hle := d.clock_le
      simp only [hstamp, hnow]
      omega
  · refine List.nodup_append.2 ⟨h.nodup, List.nodup_singleton _, ?_⟩
    rintro k hk l hl rfl
    obtain rfl := List.mem_singleton.1 hl
    -- an earlier line of the same author has a smaller stamp
    have hlt := d.behind _ (.inr (List.mem_filter.2 ⟨hk, by simp⟩))
    simp only [hstamp, hnow] at hlt
    omega

theorem Kept.step (h : Kept M t₀ s) (hs : Step M s t) (hN : t₀.toNat + t.sent.length < UInt64.size) :
    Kept M t₀ t := by
  cases hs with
  | chat i text =>
    rw [List.length_append, List.length_singleton] at hN
    exact h.chat i text hN
  | deliver p before after hf =>
    refine h.act rfl rfl (fun j hj => ?_) ?_
    · simp [Room.inbound, hf, Ne.symm hj]
    · obtain ⟨heard, waiting, flying, d⟩ := h.desk p.target
      refine d.receive hN ?_
      simp only [Room.inbound, hf, List.filter_append, List.filter_cons_of_pos, decide_true]
      exact List.perm_middle
  | poll i =>
    refine h.act rfl rfl (fun j _ => rfl) ?_
    obtain ⟨heard, waiting, flying, d⟩ := h.desk i
    obtain ⟨m, es, heard', waiting', hstep, hpost, hd⟩ := d.poll hN
    exact ⟨m, es, heard', waiting', flying, hstep, hpost, hd⟩

theorem Step.length_le (h : Step M s t) : s.sent.length ≤ t.sent.length := by
  cases h <;> simp

/-- The account is kept as long as the clocks can count. -/
theorem Opening.kept_of_run {s₀ : Talk n} (h₀ : s₀.Opening M t₀) (h : Relation.ReflTransGen (Step M) s₀ s)
    (hN : t₀.toNat + s.sent.length < UInt64.size) : Kept M t₀ s := by
  induction h with
  | refl => exact h₀.kept
  | tail _ hs ih =>
    have hle := hs.length_le
    exact (ih (by omega)).step hs hN

end Talk

/-! ## The room at rest -/

theorem Mesh.report_injective (M : Mesh n) : Function.Injective M.report := by
  rintro ⟨i, s, x⟩ ⟨j, t, y⟩ h
  simp only [Mesh.report, Line.message, Event.messageReceived.injEq, Option.some.injEq, Message.chat.injEq] at h
  obtain ⟨hu, rfl, rfl⟩ := h
  rw [M.addr_injective (congrArg Identity.addr hu)]

/-- **Chat settles.** Once nothing is on its way and nobody can take anything up, nothing waits, every line has been heard
once by everybody but its author, nobody has been told of anything else, and every clock has counted all lines. -/
theorem chat_settles {M : Mesh n} {t₀ : UInt64} {s₀ s : Talk n} (h₀ : s₀.Opening M t₀)
    (h : Relation.ReflTransGen (Talk.Step M) s₀ s) (hN : t₀.toNat + s.sent.length ≤ Clock.maxTime.toNat)
    (hq : s.Quiet) (i : Fin n) :
    (s.room.member i).pending = .empty ∧
      (∀ l ∈ s.sent, (s.room.told i).count (M.report l) = if i = l.author then 0 else 1) ∧
      (s.room.told i).Perm ((s.sent.filter (·.author ≠ i)).map M.report) ∧
      (s.room.member i).clock = .synced (t₀ + UInt64.ofNat s.sent.length) := by
  have hmax : Clock.maxTime.toNat = UInt64.size - 1 := rfl
  have hN' : t₀.toNat + s.sent.length < UInt64.size := by
    have : 0 < UInt64.size := by decide
    omega
  have k := h₀.kept_of_run h hN'
  obtain ⟨heard, waiting, flying, d⟩ := k.desk i
  have hfly : flying = [] := by
    have hp := d.flies.length_eq
    simp only [Room.inbound, hq.1, List.filter_nil, List.length_nil, List.length_map] at hp
    exact List.length_eq_zero_iff.1 hp.symm
  subst hfly
  obtain rfl := d.waiting_eq_nil k.ranked (hq.2 i)
  have hall : heard.Perm (foreign i s.sent) := by simpa using d.all
  refine ⟨?_, ?_, ?_, ?_⟩
  · have hw := d.waits
    rw [List.map_nil] at hw
    exact congrArg Pending.mk hw
  · intro l hl
    rw [d.told, List.count_map_of_injective _ _ M.report_injective, hall.count_eq]
    by_cases hi : i = l.author
    · rw [if_pos hi]
      exact List.count_eq_zero_of_not_mem fun hm => by simp [foreign, hi] at hm
    · rw [if_neg hi]
      exact List.count_eq_one_of_mem (k.nodup.filter _) (List.mem_filter.2 ⟨hl, by simpa using Ne.symm hi⟩)
  · rw [d.told]
    exact hall.map M.report
  · obtain ⟨t, hc, ht⟩ := d.clock
    have hlen := d.length_eq
    simp only [List.length_nil] at hlen
    rw [hc]
    congr 1
    apply UInt64.toNat_inj.1
    rw [UInt64.toNat_add, UInt64.toNat_ofNat']
    simp only [UInt64.size] at hN'
    omega

/-- A room in which nothing has been said. -/
def Talk.silent (M : Mesh n) : Talk n := ⟨⟨M.seat, [], fun _ => []⟩, []⟩

theorem Talk.opening_silent (M : Mesh n) : (silent M).Opening M 0 :=
  ⟨M.seated_seat, fun _ => rfl, fun _ => rfl, rfl, fun _ => rfl, rfl⟩

/-- A line that overtakes the one it answers waits for it. -/
theorem chat_settles_overtaken : ∃ s, Relation.ReflTransGen (Talk.Step Mesh.trio) (Talk.silent Mesh.trio) s ∧
    s.sent = [⟨0, 0, "hi"⟩, ⟨1, 1, "hello"⟩] ∧ s.Quiet ∧
    (s.room.told 2).Perm [Mesh.trio.report ⟨0, 0, "hi"⟩, Mesh.trio.report ⟨1, 1, "hello"⟩] := by
  let hi (i : Fin 3) := Mesh.trio.copy i ⟨0, 0, "hi"⟩
  let hello (i : Fin 3) := Mesh.trio.copy i ⟨1, 1, "hello"⟩
  have run := Relation.ReflTransGen.refl (r := Talk.Step Mesh.trio) (a := Talk.silent Mesh.trio)
    |>.tail (.chat _ 0 "hi")
    |>.tail (.deliver _ (hi 1) [] [hi 2] rfl)
    |>.tail (.chat _ 1 "hello")
    |>.tail (.deliver _ (hello 2) [hi 2, hello 0] [] rfl)
    |>.tail (.deliver _ (hi 2) [] [hello 0] rfl)
    |>.tail (.deliver _ (hello 0) [] [] rfl)
    |>.tail (.poll _ 2)
  refine ⟨_, run, rfl, ⟨rfl, by decide⟩, ?_⟩
  exact (chat_settles (Talk.opening_silent Mesh.trio) run (by decide) ⟨rfl, by decide⟩ 2).2.2.1

end Parley
