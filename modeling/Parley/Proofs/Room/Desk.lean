import Mathlib.Data.List.Count
import Parley.Proofs.Pending
import Parley.Proofs.Room.Mesh

/-!
# The account of a member

A member of a room in which lines of chat are sent has an account of them (`Desk`): the lines of the others are those it
was told of, those that wait and those on their way to it, and its clock counts the first of these and its own. Whatever
a member does or others do keeps its account (`Desk.send`, `Desk.other_sends`, `Desk.receive`, `Desk.poll`).

Where the line with the smallest stamp waits, all lines with smaller ones have been counted, so the clock has reached the
stamp: a member to which nothing is on its way and that can take nothing up has nothing that waits
(`Desk.waiting_eq_nil`).
-/

namespace Parley

variable {n : Nat}

/-- A line of chat that a member has sent. -/
structure Line (n : Nat) where
  author : Fin n
  stamp : UInt64
  text : String
  deriving DecidableEq, Repr

/-- A line as it travels. -/
def Line.message (l : Line n) : Message := .chat l.stamp l.text

namespace Mesh

variable (M : Mesh n)

/-- What a member tells its listener when it takes a line up. -/
def report (l : Line n) : Event := .messageReceived (some (M.user l.author)) l.message

/-- How a line waits. -/
def entry (l : Line n) : UInt64 × (Option Identity × Message) := (l.stamp, (some (M.user l.author), l.message))

/-- A copy of a line, on its way to member `i`. -/
def copy (i : Fin n) (l : Line n) : Packet n := ⟨l.author, i, ⟨(M.user l.author).addr, l.message⟩⟩

end Mesh

/-! ## Single members -/

namespace Member

variable {m : Member} {now : UInt64}

theorem step_chat (hk : m.inRoom = true) (text : String) :
    m.step (.chat text) =
      .ok ({ m with clock := m.clock.stamp.2 }, [.send .allPeers (.chat m.clock.stamp.1 text)]) := by
  simp [step, sendChat, hk]

theorem poll_eq (hc : m.clock = .synced now) :
    m.poll =
      ({ m with
          pending := ⟨(Pending.drainEntries now m.pending.entries).2.1⟩
          clock := .synced (Pending.drainEntries now m.pending.entries).2.2 },
        (Pending.drainEntries now m.pending.entries).1.map fun e => .notify (.messageReceived e.2.1 e.2.2)) := by
  simp [poll, Pending.drain, hc]

/-- A line that the clock has reached is taken up. -/
theorem step_chat_deliver {id : ConnectionId} {a : Endpoint} {stamp : UInt64} {text : String}
    (hc : m.clock = .synced now) (hs : stamp ≤ now) :
    m.step (.received id ⟨a, .chat stamp text⟩) = .ok ({ m with clock := .synced (Clock.next now) },
      [.notify (.messageReceived (m.peers.get? id) (.chat stamp text))]) := by
  have hn : ¬ now < stamp := UInt64.not_lt.2 hs
  simp [step, onMessage, onChat, Clock.observe, Clock.time?, hc, hn]

/-- A line ahead of the clock waits. -/
theorem step_chat_defer {id : ConnectionId} {a : Endpoint} {stamp : UInt64} {text : String}
    (hc : m.clock = .synced now) (hs : now < stamp) :
    m.step (.received id ⟨a, .chat stamp text⟩) =
      .ok ({ m with pending := m.pending.push stamp (m.peers.get? id, .chat stamp text) }, []) := by
  simp [step, onMessage, onChat, Clock.observe, Clock.time?, hc, hs]

end Member

/-! ## The account of a member -/

/-- The lines that a member has sent itself. -/
def own (i : Fin n) (sent : List (Line n)) : List (Line n) := sent.filter (·.author = i)

/-- The lines that the others have sent. -/
def foreign (i : Fin n) (sent : List (Line n)) : List (Line n) := sent.filter (·.author ≠ i)

theorem length_foreign_add_own (i : Fin n) (sent : List (Line n)) :
    (foreign i sent).length + (own i sent).length = sent.length := by
  have h := List.length_eq_length_filter_add (l := sent) fun l => decide (l.author = i)
  simp only [own, foreign, ne_eq, decide_not] at h ⊢
  omega

theorem countP_foreign_add_own (i : Fin n) (sent : List (Line n)) (p : Line n → Bool) :
    (foreign i sent).countP p + (own i sent).countP p = sent.countP p := by
  have h := List.countP_eq_countP_filter_add sent p fun l => decide (l.author = i)
  simp only [own, foreign, ne_eq, decide_not] at h ⊢
  omega

theorem own_append (i : Fin n) (sent : List (Line n)) (l : Line n) :
    own i (sent ++ [l]) = if l.author = i then own i sent ++ [l] else own i sent := by
  by_cases h : l.author = i <;> simp [own, h]

theorem foreign_append (i : Fin n) (sent : List (Line n)) (l : Line n) :
    foreign i (sent ++ [l]) = if l.author = i then foreign i sent else foreign i sent ++ [l] := by
  by_cases h : l.author = i <;> simp [foreign, h]

/-- The account of member `i`, when the lines `sent` have been sent: it was told of the lines `heard`, keeps the lines
`waiting`, and copies of the lines `flying` are on their way to it. -/
structure Desk (M : Mesh n) (t₀ : UInt64) (i : Fin n) (sent : List (Line n)) (m : Member) (told : List Event)
    (inbound : List (Packet n)) (heard waiting flying : List (Line n)) : Prop where
  seated : M.Seated i (Mesh.others i) m
  told : told = heard.map M.report
  waits : m.pending.entries = waiting.map M.entry
  sorted : Pending.Sorted m.pending.entries
  flies : inbound.Perm (flying.map (M.copy i))
  all : (heard ++ waiting ++ flying).Perm (foreign i sent)
  clock : ∃ t, m.clock = .synced t ∧ t.toNat = t₀.toNat + heard.length + (own i sent).length
  behind : ∀ l, l ∈ heard ∨ l ∈ own i sent → l.stamp.toNat < t₀.toNat + heard.length + (own i sent).length

namespace Desk

variable {M : Mesh n} {t₀ : UInt64} {i : Fin n} {sent : List (Line n)} {m : Member} {told : List Event}
  {inbound : List (Packet n)} {heard waiting flying : List (Line n)}

/-- Every line is heard, waiting, flying or the member's own. -/
theorem length_eq (d : Desk M t₀ i sent m told inbound heard waiting flying) :
    heard.length + waiting.length + flying.length + (own i sent).length = sent.length := by
  have h := d.all.length_eq
  have hs := length_foreign_add_own i sent
  simp only [List.length_append] at h
  omega

/-- A line that is heard, waiting or flying is somebody else's. -/
theorem author_ne (d : Desk M t₀ i sent m told inbound heard waiting flying) {l : Line n}
    (h : l ∈ heard ++ waiting ++ flying) : l.author ≠ i := by
  have hf := d.all.mem_iff.1 h
  simpa using (List.mem_filter.1 hf).2

/-- The clock has counted lines with smaller stamps only. -/
theorem clock_le (d : Desk M t₀ i sent m told inbound heard waiting flying) :
    heard.length + (own i sent).length ≤
      sent.countP fun l => decide (l.stamp.toNat < t₀.toNat + heard.length + (own i sent).length) := by
  have hh := List.countP_eq_length.2 fun l hl => decide_eq_true (d.behind l (.inl hl))
  have ho := List.countP_eq_length.2 fun l hl => decide_eq_true (d.behind l (.inr hl))
  have hp := d.all.countP_eq fun l => decide (l.stamp.toNat < t₀.toNat + heard.length + (own i sent).length)
  have hs := countP_foreign_add_own i sent
    fun l => decide (l.stamp.toNat < t₀.toNat + heard.length + (own i sent).length)
  simp only [List.countP_append] at hp
  omega

/-- Sending a line counts it. -/
theorem send (d : Desk M t₀ i sent m told inbound heard waiting flying)
    (hN : t₀.toNat + (sent.length + 1) < UInt64.size) (text : String) :
    Desk M t₀ i (sent ++ [⟨i, m.clock.stamp.1, text⟩]) { m with clock := m.clock.stamp.2 } told inbound
      heard waiting flying := by
  obtain ⟨t, hc, ht⟩ := d.clock
  have hlen := d.length_eq
  have hnext : (Clock.next t).toNat = t.toNat + 1 := by
    rw [Clock.toNat_next]
    omega
  simp only [hc, Clock.stamp]
  refine ⟨⟨d.seated.me, d.seated.key, d.seated.peers⟩, d.told, d.waits, d.sorted, d.flies, ?_, ?_, ?_⟩
  · simpa [foreign_append] using d.all
  · refine ⟨Clock.next t, rfl, ?_⟩
    simp only [own_append, ↓reduceIte, List.length_append, List.length_singleton]
    omega
  · intro l hl
    simp only [own_append, ↓reduceIte, List.length_append, List.length_singleton, List.mem_append,
      List.mem_singleton] at hl ⊢
    rcases hl with hl | hl | rfl
    · have := d.behind l (.inl hl)
      omega
    · have := d.behind l (.inr hl)
      omega
    · show t.toNat < _
      omega

/-- A line that somebody else sends is on its way. -/
theorem other_sends (d : Desk M t₀ i sent m told inbound heard waiting flying) {l : Line n} (hl : l.author ≠ i) :
    Desk M t₀ i (sent ++ [l]) m told (inbound ++ [M.copy i l]) heard waiting (flying ++ [l]) := by
  have ho : own i (sent ++ [l]) = own i sent := by simp [own_append, hl]
  refine ⟨d.seated, d.told, d.waits, d.sorted, ?_, ?_, ?_, ?_⟩
  · simpa using d.flies.append_right [M.copy i l]
  · have hf : foreign i (sent ++ [l]) = foreign i sent ++ [l] := by simp [foreign_append, hl]
    rw [hf, ← List.append_assoc]
    exact d.all.append_right [l]
  · rw [ho]
    exact d.clock
  · rw [ho]
    exact d.behind

/-- A line that arrives is heard or waits. -/
theorem receive (d : Desk M t₀ i sent m told inbound heard waiting flying)
    (hN : t₀.toNat + sent.length < UInt64.size) {p : Packet n} {rest : List (Packet n)}
    (hp : inbound.Perm (p :: rest)) :
    ∃ m' es heard' waiting' flying', m.step (.received (M.line i p.source) p.envelope) = .ok (m', es) ∧
      M.post i m' es = [] ∧ Desk M t₀ i sent m' (told ++ Effect.events es) rest heard' waiting' flying' := by
  obtain ⟨l, hl, rfl⟩ := List.mem_map.1 ((hp.symm.trans d.flies).mem_iff.1 List.mem_cons_self)
  have hne : l.author ≠ i := d.author_ne (List.mem_append_right _ hl)
  have hfl := List.perm_cons_erase hl
  have hrest : rest.Perm ((flying.erase l).map (M.copy i)) :=
    ((hp.symm.trans d.flies).trans (hfl.map (M.copy i))).cons_inv
  have hall : (heard ++ waiting ++ l :: flying.erase l).Perm (foreign i sent) :=
    (hfl.symm.append_left (heard ++ waiting)).trans d.all
  have hget : m.peers.get? (M.line i (M.copy i l).source) = some (M.user l.author) :=
    d.seated.peers.get?_line (Mesh.mem_others.2 hne)
  obtain ⟨t, hc, ht⟩ := d.clock
  by_cases hs : l.stamp ≤ t
  · -- taken up: the clock counts it
    refine ⟨_, _, heard ++ [l], waiting, flying.erase l, Member.step_chat_deliver hc hs, rfl, ?_⟩
    have hlen := d.length_eq
    have hlt : 0 < flying.length := List.length_pos_of_mem hl
    have hnext : (Clock.next t).toNat = t.toNat + 1 := by
      rw [Clock.toNat_next]
      omega
    refine ⟨⟨d.seated.me, d.seated.key, d.seated.peers⟩, ?_, d.waits, d.sorted, hrest, ?_, ?_, ?_⟩
    · simp [d.told, Mesh.report, Line.message, hget]
    · refine List.Perm.trans ?_ hall
      simp only [List.append_assoc, List.singleton_append]
      exact List.perm_middle.symm.append_left heard
    · refine ⟨Clock.next t, rfl, ?_⟩
      simp only [List.length_append, List.length_singleton]
      omega
    · intro k hk
      have hle := UInt64.le_iff_toNat_le.1 hs
      simp only [List.length_append, List.length_singleton, List.mem_append, List.mem_singleton] at hk ⊢
      rcases hk with (hk | rfl) | hk
      · have := d.behind k (.inl hk)
        omega
      · omega
      · have := d.behind k (.inr hk)
        omega
  · -- it waits, behind those of the same or a smaller stamp
    obtain ⟨b, a, he, hi, -, -⟩ := Pending.insertEntry_split l.stamp (M.entry l).2 d.sorted
    rw [d.waits] at he
    obtain ⟨before, after, rfl, rfl, rfl⟩ := List.map_eq_append_iff.1 he
    refine ⟨_, _, heard, before ++ l :: after, flying.erase l, Member.step_chat_defer hc (UInt64.not_le.1 hs), rfl, ?_⟩
    refine ⟨⟨d.seated.me, d.seated.key, d.seated.peers⟩, ?_, ?_, ?_, hrest, ?_, ⟨t, hc, ht⟩, d.behind⟩
    · simp [d.told]
    · simp only [Pending.push, hget, List.map_append, List.map_cons]
      exact hi
    · exact d.sorted.insertEntry _ _
    · refine List.Perm.trans ?_ hall
      simp only [List.append_assoc, List.cons_append]
      refine List.Perm.append_left _ (List.Perm.append_left _ ?_)
      exact List.perm_middle.symm

/-- Lines that are taken up are heard. -/
theorem poll (d : Desk M t₀ i sent m told inbound heard waiting flying)
    (hN : t₀.toNat + sent.length < UInt64.size) :
    ∃ m' es heard' waiting', m.step .poll = .ok (m', es) ∧ M.post i m' es = [] ∧
      Desk M t₀ i sent m' (told ++ Effect.events es) inbound heard' waiting' flying := by
  obtain ⟨t, hc, ht⟩ := d.clock
  have happ := Pending.drainEntries_append t m.pending.entries
  rw [d.waits] at happ
  obtain ⟨ready, rest, rfl, hr, hs⟩ := List.map_eq_append_iff.1 happ.symm
  have hlen := d.length_eq
  have htime := Pending.toNat_drainEntries t m.pending.entries
  rw [d.waits, ← hr] at htime
  simp only [List.length_append, List.length_map] at hlen htime
  refine ⟨_, _, heard ++ ready, rest, congrArg Except.ok (Member.poll_eq hc), ?_, ?_⟩
  · exact Mesh.post_map_notify _ _
  · refine ⟨⟨d.seated.me, d.seated.key, d.seated.peers⟩, ?_, ?_, ?_, d.flies, ?_, ?_, ?_⟩
    · rw [d.waits, ← hr, d.told, List.map_append, Effect.events_map_notify, List.map_map]
      rfl
    · rw [d.waits]
      exact hs.symm
    · rw [d.waits, ← hs]
      have hsub := List.sublist_append_right (ready.map M.entry) (rest.map M.entry)
      rw [← List.map_append, ← d.waits] at hsub
      exact d.sorted.sublist hsub
    · simpa [List.append_assoc] using d.all
    · refine ⟨_, rfl, ?_⟩
      rw [d.waits, List.length_append]
      omega
    · intro l hl
      rw [List.length_append]
      simp only [List.mem_append] at hl
      rcases hl with (hl | hl) | hl
      · have := d.behind l (.inl hl)
        omega
      · have hm : M.entry l ∈ (Pending.drainEntries t ((ready ++ rest).map M.entry)).1 :=
          hr ▸ List.mem_map_of_mem hl
        have := Pending.lt_of_mem_drainEntries hm
        rw [← hr, List.length_map] at this
        simp only [Mesh.entry] at this
        omega
      · have := d.behind l (.inr hl)
        omega

/-- If nothing is on its way and nothing can be taken up, nothing waits: the clock has counted all lines with smaller
stamps than the first line that would wait, which are as many as its stamp says. -/
theorem waiting_eq_nil (d : Desk M t₀ i sent m told inbound heard waiting [])
    (hr : ∀ l ∈ sent, l.stamp.toNat ≤ t₀.toNat + sent.countP fun k => decide (k.stamp.toNat < l.stamp.toNat))
    (hq : m.poll.2 = []) : waiting = [] := by
  obtain ⟨t, hc, ht⟩ := d.clock
  cases waiting with
  | nil => rfl
  | cons l ls =>
    exfalso
    have hsent : l ∈ sent := by
      have hf := d.all.mem_iff.1 (show l ∈ heard ++ l :: ls ++ [] by simp)
      exact (List.mem_filter.1 hf).1
    have hready : (Pending.drainEntries t m.pending.entries).1 = [] := by
      rw [Member.poll_eq hc] at hq
      exact List.map_eq_nil_iff.1 hq
    have hmem : M.entry l ∈ m.pending.entries := by simp [d.waits]
    have hlt : t < l.stamp := d.sorted.lt_of_stuck hready hmem
    have hmin : ∀ k ∈ l :: ls, l.stamp ≤ k.stamp := by
      have hs := d.sorted
      rw [d.waits] at hs
      intro k hk
      rcases List.mem_cons.1 hk with rfl | hk
      · exact UInt64.le_refl _
      · exact (List.pairwise_cons.1 hs).1 _ (List.mem_map_of_mem hk)
    have hwait : (l :: ls).countP (fun k => decide (k.stamp.toNat < l.stamp.toNat)) = 0 := by
      rw [List.countP_eq_zero]
      intro k hk hlt
      have := UInt64.le_iff_toNat_le.1 (hmin k hk)
      have := of_decide_eq_true hlt
      omega
    have hall := d.all.countP_eq fun k => decide (k.stamp.toNat < l.stamp.toNat)
    have hsum := countP_foreign_add_own i sent fun k => decide (k.stamp.toNat < l.stamp.toNat)
    have hheard := heard.countP_le_length (p := fun k => decide (k.stamp.toNat < l.stamp.toNat))
    have hown := (own i sent).countP_le_length (p := fun k => decide (k.stamp.toNat < l.stamp.toNat))
    have hrank := hr l hsent
    have hlt' := UInt64.lt_iff_toNat_lt.1 hlt
    simp only [List.append_nil, List.countP_append, hwait] at hall
    omega

end Desk

end Parley
