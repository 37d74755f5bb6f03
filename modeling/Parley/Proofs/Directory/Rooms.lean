import Mathlib.Data.List.Sort
import Mathlib.Logic.Function.Basic
import Parley.Proofs.Directory.Ledger
import Parley.Proofs.Directory.Operation
import Parley.Proofs.SortedMap

/-!
# The room map of the directory

What members know of the directory is one map from tokens to adverts (`RoomMap`), which requests change and which answers
them. A ledger that shows such a map carries a request out as the map says (`Ledger.apply_of_shows`): a new operation that is
queued and carried out leads to a ledger that shows the changed map, and to the answer that the map gives
(`Ledger.process_queue`). There is only one such answer (`RoomMap.Answers.unique`), so that all ledgers that show a map agree
on it.
-/

namespace Parley.Directory

/-- The adverts of rooms by their tokens. -/
abbrev RoomMap := String → Option Bytes

/-- A request for the directory that survives the way, with an advert that is not empty if it has one. -/
def Operation.IsProper (o : Operation) : Prop :=
  o.request.isWireValid = true ∧
    match o.request with
    | .hostRoom payload | .hostUpdated _ payload => payload ≠ []
    | .requestRoomList => True
    | _ => False

namespace RoomMap

/-- The map after an operation. -/
def after (m : RoomMap) (o : Operation) : RoomMap :=
  match o.request with
  | .hostRoom payload => Function.update m (String.ofList o.id.simple) (some payload)
  | .hostUpdated token payload => Function.update m token (some payload)
  | _ => m

/-- The adverts of all rooms, in the order of their tokens. -/
def Lists (m : RoomMap) (adverts : List Bytes) : Prop :=
  ∃ tokens : List String, tokens.Pairwise (· < ·) ∧ (∀ t, t ∈ tokens ↔ (m t).isSome = true) ∧ adverts = tokens.filterMap m

/-- What the map answers to a request. -/
inductive Answers (m : RoomMap) : Operation → Message → Prop
  | hosted (id : OperationId) (payload : Bytes) : Answers m ⟨id, .hostRoom payload⟩ (.ack (String.ofList id.simple))
  | updated (id : OperationId) (token : String) (payload : Bytes) : Answers m ⟨id, .hostUpdated token payload⟩ (.ack token)
  | listed (id : OperationId) {adverts : List Bytes} (h : m.Lists adverts) :
    Answers m ⟨id, .requestRoomList⟩ (.roomList adverts)

/-- No advert is empty. -/
def NoneEmpty (m : RoomMap) : Prop := ∀ t payload, m t = some payload → payload ≠ []

variable {m : RoomMap} {o : Operation}

theorem Lists.unique {adverts adverts' : List Bytes} (h : m.Lists adverts) (h' : m.Lists adverts') : adverts = adverts' := by
  obtain ⟨tokens, hsorted, hmem, rfl⟩ := h
  obtain ⟨tokens', hsorted', hmem', rfl⟩ := h'
  have htokens : tokens = tokens' := hsorted.eq_of_mem_iff hsorted' fun t => (hmem t).trans (hmem' t).symm
  rw [htokens]

theorem Answers.unique {answer answer' : Message} (h : m.Answers o answer) (h' : m.Answers o answer') : answer = answer' := by
  cases h with
  | hosted | updated =>
    cases h'
    rfl
  | listed id hlists =>
    cases h' with
    | listed _ hlists' => rw [hlists.unique hlists']

theorem NoneEmpty.update (h : m.NoneEmpty) (token : String) {payload : Bytes} (hne : payload ≠ []) :
    NoneEmpty (Function.update m token (some payload)) := by
  intro t a ht
  rw [Function.update_apply] at ht
  split at ht
  · exact Option.some.inj ht ▸ hne
  · exact h t a ht

theorem NoneEmpty.after (h : m.NoneEmpty) (ho : o.IsProper) : (m.after o).NoneEmpty := by
  obtain ⟨id, request⟩ := o
  obtain ⟨-, ho⟩ := ho
  cases request
  case hostRoom payload =>
    have hne : payload ≠ [] := ho
    have hafter : m.after ⟨id, .hostRoom payload⟩ = Function.update m (String.ofList id.simple) (some payload) := rfl
    rw [hafter]
    exact h.update _ hne
  case hostUpdated token payload => exact h.update token ho
  all_goals exact h

/-- The answer to a proper request can travel, and no operation is in it. -/
theorem Answers.isWireValid {answer : Message} (h : m.Answers o answer) (hm : m.NoneEmpty) :
    answer.isWireValid = true ∧ answer.kind? ≠ some .queue := by
  cases h with
  | hosted | updated => exact ⟨rfl, by simp [Message.kind?]⟩
  | listed id hlists =>
    obtain ⟨tokens, -, -, rfl⟩ := hlists
    refine ⟨?_, by simp [Message.kind?]⟩
    rw [Message.isWireValid, List.all_eq_true]
    intro payload hpayload
    obtain ⟨t, -, ht⟩ := List.mem_filterMap.1 hpayload
    simpa using hm t payload ht

end RoomMap

namespace Ledger

/-- The rooms of a ledger are those of a map. -/
structure Shows (l : Ledger) (m : RoomMap) : Prop where
  sorted : l.rooms.Sorted
  advert : ∀ t, l.advert? t = m t

variable {l : Ledger} {m : RoomMap} {o : Operation}

theorem Shows.insert (h : l.Shows m) (token : String) (payload : Bytes) :
    ({ l with rooms := l.rooms.insert token payload } : Ledger).Shows (Function.update m token (some payload)) := by
  refine ⟨h.sorted.insert token payload, fun t => ?_⟩
  rw [Function.update_apply, ← h.advert t]
  split
  · rename_i ht
    rw [ht]
    exact SortedMap.get?_insert_self ..
  · rename_i ht
    exact SortedMap.get?_insert_of_ne _ _ ht

theorem Shows.lists (h : l.Shows m) : m.Lists l.rooms.values := by
  have heq : l.rooms.get? = m := funext h.advert
  exact ⟨l.rooms.keys, h.sorted, fun t => heq ▸ l.rooms.mem_keys_iff t, heq ▸ h.sorted.values_eq⟩

theorem Shows.of_rooms_eq {l' : Ledger} (h : l.Shows m) (heq : l'.rooms = l.rooms) : l'.Shows m :=
  ⟨heq ▸ h.sorted, fun t => (congrArg (·.get? t) heq).trans (h.advert t)⟩

/-- A ledger carries a proper request out as its map says. -/
theorem apply_of_shows (h : l.Shows m) (ho : o.IsProper) :
    ∃ l' answer, l.apply o.id o.request = .ok (l', answer) ∧ l'.Shows (m.after o) ∧ m.Answers o answer ∧
      l'.completed = l.completed := by
  obtain ⟨id, request⟩ := o
  obtain ⟨-, ho⟩ := ho
  cases request
  case hostRoom payload => exact ⟨_, _, rfl, h.insert _ payload, .hosted id payload, rfl⟩
  case hostUpdated token payload => exact ⟨_, _, rfl, h.insert token payload, .updated id token payload, rfl⟩
  case requestRoomList => exact ⟨_, _, rfl, h, .listed id h.lists, rfl⟩
  all_goals exact ho.elim

/-- **A new operation at a ledger.** What comes of it is what the map says, and the ledger has results of no other operations
than before. -/
theorem process_queue (h : l.Shows m) (ho : o.IsProper) (hnew : l.completed.get? o.id = none) :
    ∃ l' answer, (l.queue o.id o.request).process o.id = (l', .ok answer) ∧ l'.Shows (m.after o) ∧ m.Answers o answer ∧
      ∀ j ≠ o.id, l.completed.get? j = none → l'.completed.get? j = none := by
  have hqueued : ({ l with pending := (l.pending.insert o.id o.request).erase o.id } : Ledger).Shows m := h.of_rooms_eq rfl
  obtain ⟨l', answer, happly, hafter, hanswer, hcompleted⟩ := apply_of_shows hqueued ho
  exact ⟨l'.remember o.id answer, answer, process_queue_of_new hnew happly, hafter.of_rooms_eq (rooms_remember ..), hanswer,
    fun j hj hnone => get?_completed_remember_eq_none hj (hcompleted ▸ hnone) answer⟩

end Ledger
end Parley.Directory
