import Mathlib.Data.List.FinRange
import Mathlib.Tactic.Common
import Parley.Member.Step

/-!
# Rooms in which everybody is connected to everybody

`n` members of one room, each with a connection to every other. A `Mesh` says who they are and how each one numbers its
connections; a `Room` is a moment of such a room: the members, the messages on their way, and what every member has told
its listener. `Room.input` gives one member an input and carries its effects out.

* `Seated`: what a member of a mesh knows of it, with the list of the members that its table leads to;
* `Leads.get?_line`, `Leads.find?_addr`: looking up in such a table;
* `perm_post_allPeers`: what is sent to all goes to each member of that list, once.
-/

namespace Parley

/-- Who the members of a room are, and the connections between them: `line i j` is the number under which member `i`
keeps the one that leads to member `j`. Nothing is kept under `line i i`. -/
structure Mesh (n : Nat) where
  key : RoomKey
  user : Fin n → Identity
  line : Fin n → Fin n → ConnectionId
  addr_injective : Function.Injective fun i => (user i).addr
  line_injective : ∀ i, Function.Injective (line i)

/-- A message on its way from one member to another. -/
structure Packet (n : Nat) where
  source : Fin n
  target : Fin n
  envelope : Envelope
  deriving DecidableEq, Repr

/-- The members of a room, the messages on their way, and what each member has told its listener. -/
structure Room (n : Nat) where
  member : Fin n → Member
  flight : List (Packet n)
  told : Fin n → List Event

/-- What effects send: the messages, each with the connection that it goes out on. -/
def Member.outgoing (m : Member) (effects : List Effect) : List (ConnectionId × Message) :=
  effects.flatMap fun
    | .send recipient message => (m.resolve recipient).map fun id => (id, message)
    | .connect _ _ | .disconnect _ | .notify _ => []

/-- What effects tell the listener. -/
def Effect.events (effects : List Effect) : List Event :=
  effects.filterMap fun
    | .notify event => some event
    | .send _ _ | .connect _ _ | .disconnect _ => none

variable {n : Nat}

namespace Mesh

variable (M : Mesh n)

/-- All members but one. -/
def others (i : Fin n) : List (Fin n) := (List.finRange n).filter (· ≠ i)

/-- The member that a connection of `i` leads to. -/
def target? (i : Fin n) (id : ConnectionId) : Option (Fin n) := (others i).find? fun j => M.line i j = id

/-- The messages that member `i` puts on their way. -/
def post (i : Fin n) (m : Member) (effects : List Effect) : List (Packet n) :=
  (m.outgoing effects).filterMap fun (id, message) =>
    (M.target? i id).map fun j => ⟨i, j, ⟨m.me.addr, message⟩⟩

/-- A table with the connections of member `i` to the members `js`. -/
def Leads (i : Fin n) (js : List (Fin n)) (t : PeerTable) : Prop :=
  t.byConnection.entries.Perm (js.map fun j => (M.line i j, M.user j))

/-- A member that knows who it is, is in the room, and is connected to the members `js`. -/
structure Seated (i : Fin n) (js : List (Fin n)) (m : Member) : Prop where
  me : m.me = M.user i
  key : m.key = some M.key
  peers : M.Leads i js m.peers

end Mesh

/-- Gives an input to member `i`, and carries out what comes of it. -/
def Room.input (M : Mesh n) (r : Room n) (i : Fin n) (x : Member.Input) : Room n where
  member := Function.update r.member i ((r.member i).after x)
  flight := r.flight ++ M.post i ((r.member i).after x) ((r.member i).effectsOf x)
  told := Function.update r.told i (r.told i ++ Effect.events ((r.member i).effectsOf x))

/-- Takes a packet off the network and hands it to the member that it is for. `rest` is what stays on its way. -/
def Room.deliver (M : Mesh n) (r : Room n) (p : Packet n) (rest : List (Packet n)) : Room n :=
  Room.input M { r with flight := rest } p.target (.received (M.line p.target p.source) p.envelope)

/-! ## The others -/

/-- The only element that satisfies a predicate is the one that is found. -/
theorem find?_eq_some_of_unique {α : Type} {p : α → Bool} {l : List α} {a : α} (ha : a ∈ l) (hp : p a = true)
    (hu : ∀ b ∈ l, p b = true → b = a) : l.find? p = some a := by
  cases h : l.find? p with
  | none => exact absurd hp (List.find?_eq_none.1 h a ha)
  | some b => rw [hu b (List.mem_of_find?_eq_some h) (List.find?_some h)]

namespace Mesh

@[simp] theorem mem_others {i j : Fin n} : j ∈ others i ↔ j ≠ i := by simp [others]

theorem nodup_others (i : Fin n) : (others i).Nodup := (List.nodup_finRange n).filter _

theorem length_filter_ne {js : List (Fin n)} (h : js.Nodup) {j : Fin n} (hj : j ∈ js) :
    (js.filter (· ≠ j)).length + 1 = js.length := by
  have he := List.length_eq_length_filter_add (l := js) fun k => decide (k = j)
  rw [List.filter_eq, List.length_replicate, List.count_eq_one_of_mem h hj] at he
  simp only [ne_eq, decide_not]
  omega

/-! ## Looking up in a table -/

section Table

variable {M : Mesh n} {i j : Fin n} {js : List (Fin n)} {t : PeerTable}

theorem mem_entries (h : M.Leads i js t) {e : ConnectionId × Identity} :
    e ∈ t.byConnection.entries ↔ ∃ j ∈ js, (M.line i j, M.user j) = e := by
  rw [h.mem_iff, List.mem_map]

theorem Leads.get?_line (h : M.Leads i js t) (hj : j ∈ js) : t.get? (M.line i j) = some (M.user j) := by
  have hf : t.byConnection.entries.find? (fun e => e.1 = M.line i j) = some (M.line i j, M.user j) := by
    refine find?_eq_some_of_unique ((mem_entries h).2 ⟨j, hj, rfl⟩) (by simp) ?_
    intro e he hp
    obtain ⟨k, _, rfl⟩ := (mem_entries h).1 he
    rw [M.line_injective i (of_decide_eq_true hp)]
  simp only [PeerTable.get?, SortedMap.get?, hf, Option.map_some]

theorem Leads.get?_eq_none (h : M.Leads i js t) (hj : j ∉ js) : t.get? (M.line i j) = none := by
  have hf : t.byConnection.entries.find? (fun e => e.1 = M.line i j) = none := by
    rw [List.find?_eq_none]
    intro e he hp
    obtain ⟨k, hk, rfl⟩ := (mem_entries h).1 he
    exact hj (M.line_injective i (of_decide_eq_true hp) ▸ hk)
  simp only [PeerTable.get?, SortedMap.get?, hf, Option.map_none]

theorem Leads.find?_addr (h : M.Leads i js t) (hj : j ∈ js) : t.find? (M.user j).addr = some (M.line i j) := by
  have hf : t.byConnection.entries.find? (fun e => e.2.addr = (M.user j).addr) = some (M.line i j, M.user j) := by
    refine find?_eq_some_of_unique ((mem_entries h).2 ⟨j, hj, rfl⟩) (by simp) ?_
    intro e he hp
    obtain ⟨k, _, rfl⟩ := (mem_entries h).1 he
    rw [M.addr_injective (of_decide_eq_true hp)]
  simp only [PeerTable.find?, hf, Option.map_some]

theorem Leads.find?_eq_none (h : M.Leads i js t) (hj : j ∉ js) : t.find? (M.user j).addr = none := by
  have hf : t.byConnection.entries.find? (fun e => e.2.addr = (M.user j).addr) = none := by
    rw [List.find?_eq_none]
    intro e he hp
    obtain ⟨k, hk, rfl⟩ := (mem_entries h).1 he
    exact hj (M.addr_injective (of_decide_eq_true hp) ▸ hk)
  simp only [PeerTable.find?, hf, Option.map_none]

theorem Leads.ids (h : M.Leads i js t) : t.ids.Perm (js.map (M.line i)) := by
  simpa [PeerTable.ids, SortedMap.keys, Function.comp_def] using h.map Prod.fst

theorem Leads.size (h : M.Leads i js t) : t.size = js.length := by
  simpa [PeerTable.size, SortedMap.size] using h.length_eq

/-- Forgetting a connection leaves those to the other members. -/
theorem Leads.erase (h : M.Leads i js t) (j : Fin n) :
    M.Leads i (js.filter (· ≠ j)) (t.erase (M.line i j)) := by
  have hf := List.Perm.filter (fun e : ConnectionId × Identity => decide (e.1 ≠ M.line i j)) h
  rw [List.filter_map] at hf
  have hp : ((fun e : ConnectionId × Identity => decide (e.1 ≠ M.line i j)) ∘ fun k => (M.line i k, M.user k)) =
      fun k => decide (k ≠ j) := by
    funext k
    simp [(M.line_injective i).eq_iff]
  rwa [hp] at hf

end Table

/-! ## What is put on its way -/

section Post

variable {M : Mesh n} {i j : Fin n} {js : List (Fin n)} {m : Member}

theorem target?_line (h : j ≠ i) : M.target? i (M.line i j) = some j :=
  find?_eq_some_of_unique (mem_others.2 h) (by simp)
    fun _ _ hk => M.line_injective i (of_decide_eq_true hk)

@[simp] theorem post_nil : M.post i m [] = [] := rfl

@[simp] theorem post_append (es fs : List Effect) : M.post i m (es ++ fs) = M.post i m es ++ M.post i m fs := by
  simp [post, Member.outgoing]

@[simp] theorem post_notify (e : Event) (es : List Effect) : M.post i m (.notify e :: es) = M.post i m es := rfl

@[simp] theorem post_disconnect (id : ConnectionId) (es : List Effect) :
    M.post i m (.disconnect id :: es) = M.post i m es := rfl

theorem post_map_notify {α : Type} (f : α → Event) (xs : List α) :
    M.post i m (xs.map fun x => .notify (f x)) = [] := by
  induction xs with
  | nil => rfl
  | cons x xs ih => simpa using ih

theorem post_line (h : j ≠ i) (message : Message) :
    M.post i m [.send (.connection (M.line i j)) message] = [⟨i, j, ⟨m.me.addr, message⟩⟩] := by
  simp [post, Member.outgoing, Member.resolve, target?_line h]

/-- What is sent to all goes to each member that the table leads to, once. -/
theorem perm_post_allPeers (h : M.Leads i js m.peers) (hi : i ∉ js) (message : Message) :
    (M.post i m [.send .allPeers message]).Perm (js.map fun j => ⟨i, j, ⟨m.me.addr, message⟩⟩) := by
  have hs : M.post i m [.send .allPeers message] =
      m.peers.ids.filterMap fun id => (M.target? i id).map fun j => ⟨i, j, ⟨m.me.addr, message⟩⟩ := by
    simp [post, Member.outgoing, Member.resolve]
  rw [hs]
  refine (h.ids.filterMap _).trans ?_
  rw [List.filterMap_map, ← List.filterMap_eq_map']
  refine List.Perm.of_eq (List.filterMap_congr fun j hj => ?_)
  have hne : j ≠ i := fun e => hi (e ▸ hj)
  simp [target?_line hne]

/-- Of what is sent to all, each member that the table leads to gets one message, and nobody else gets any. -/
theorem filter_post_allPeers (h : M.Leads i js m.peers) (hi : i ∉ js) (hn : js.Nodup) (message : Message)
    (j : Fin n) :
    (M.post i m [.send .allPeers message]).filter (·.target = j) =
      if j ∈ js then [⟨i, j, ⟨m.me.addr, message⟩⟩] else [] := by
  have hp := (perm_post_allPeers h hi message).filter fun p => decide (p.target = j)
  have hf : js.filter ((fun p : Packet n => decide (p.target = j)) ∘ fun j => ⟨i, j, ⟨m.me.addr, message⟩⟩) =
      js.filter (· = j) := rfl
  rw [List.filter_map, hf, List.filter_eq] at hp
  by_cases hj : j ∈ js
  · rw [List.count_eq_one_of_mem hn hj] at hp
    rw [if_pos hj]
    exact List.perm_singleton.1 hp
  · rw [List.count_eq_zero_of_not_mem hj] at hp
    rw [if_neg hj]
    exact List.perm_nil.1 hp

end Post

end Mesh

/-! ## Events -/

namespace Effect

@[simp] theorem events_nil : events [] = [] := rfl

@[simp] theorem events_notify (e : Event) (es : List Effect) : events (.notify e :: es) = e :: events es := rfl

theorem events_map_notify {α : Type} (f : α → Event) (xs : List α) :
    events (xs.map fun x => .notify (f x)) = xs.map f := by
  simp [events]

end Effect

/-! ## Inputs -/

namespace Room

variable {M : Mesh n} {r : Room n} {i j : Fin n} {x : Member.Input}

/-- The messages on their way to a member. -/
def inbound (r : Room n) (i : Fin n) : List (Packet n) := r.flight.filter (·.target = i)

theorem input_member_self {m : Member} {es : List Effect} (h : (r.member i).step x = .ok (m, es)) :
    (r.input M i x).member i = m := by
  simp [input, Member.after, h]

theorem input_told_self {m : Member} {es : List Effect} (h : (r.member i).step x = .ok (m, es)) :
    (r.input M i x).told i = r.told i ++ Effect.events es := by
  simp [input, Member.effectsOf, h]

theorem input_flight {m : Member} {es : List Effect} (h : (r.member i).step x = .ok (m, es)) :
    (r.input M i x).flight = r.flight ++ M.post i m es := by
  simp [input, Member.after, Member.effectsOf, h]

/-- The messages on their way to a member after an input to some member. -/
theorem inbound_input {m : Member} {es : List Effect} (h : (r.member i).step x = .ok (m, es)) (j : Fin n) :
    (r.input M i x).inbound j = r.inbound j ++ (M.post i m es).filter (·.target = j) := by
  simp only [inbound, input_flight h, List.filter_append]

theorem input_member_of_ne (h : j ≠ i) : (r.input M i x).member j = r.member j := by simp [input, h]

theorem input_told_of_ne (h : j ≠ i) : (r.input M i x).told j = r.told j := by simp [input, h]

end Room

/-! ## Examples of rooms -/

namespace Mesh

/-- A member that has just taken its place. -/
def seat (M : Mesh n) (i : Fin n) : Member :=
  { Member.outside (M.user i) (.v4 ⟨.loopback, 7000⟩) with
    key := some M.key
    peers := ⟨⟨(others i).map fun j => (M.line i j, M.user j)⟩⟩ }

theorem seated_seat (M : Mesh n) (i : Fin n) : M.Seated i (others i) (M.seat i) := ⟨rfl, rfl, List.Perm.refl _⟩

/-- Three members, which number their connections by the places of those that they lead to. -/
def trio : Mesh 3 where
  key := ⟨RoomKey.zeroBlock⟩
  user i := ⟨"member", ⟨.loopback, 7001 + UInt16.ofNat i⟩⟩
  line _ j := j
  addr_injective i j h := by
    revert i j
    decide
  line_injective _ := Fin.val_injective

end Mesh
end Parley
