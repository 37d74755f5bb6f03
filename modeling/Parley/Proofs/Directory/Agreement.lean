import Mathlib.Data.List.Pairwise
import Parley.Proofs.Directory.Operation
import Parley.Proofs.Directory.Recall

/-!
# Replicas agree

Requests of several members are on their way at the same time, and every replica meets the two phases of their operations in
an order of its own (`Schedule`). If no two of them write under the same token, this order does not matter: the rooms after
all of them are those of any order (`Ledger.Awaits.rooms_run`), whatever results the replicas keep. So two replicas that had
the same rooms have the same rooms again, and they acknowledge the same tokens (`Ledger.replicas_agree`).

What other operations do to a replica does not touch one that waits at it (`Ledger.Awaits`): they add and remove other queued
requests and other results.
-/

namespace Parley.Directory

namespace Operation

variable {o p : Operation}

/-- The token that an operation writes an advert under. -/
def token? (o : Operation) : Option String :=
  match o.request with
  | .hostRoom _ => some (String.ofList o.id.simple)
  | .hostUpdated token _ => some token
  | _ => none

/-- The rooms after an operation. -/
def write (o : Operation) (rooms : SortedMap String Bytes) : SortedMap String Bytes :=
  match o.request with
  | .hostRoom payload => rooms.insert (String.ofList o.id.simple) payload
  | .hostUpdated token payload => rooms.insert token payload
  | _ => rooms

/-- An operation without a token leaves the rooms alone. -/
theorem write_of_token?_eq_none (h : o.token? = none) (rooms : SortedMap String Bytes) : o.write rooms = rooms := by
  obtain ⟨id, request⟩ := o
  cases request <;> simp only [token?, reduceCtorEq] at h <;> rfl

theorem exists_write_eq_insert {token : String} (h : o.token? = some token) :
    ∃ payload, ∀ rooms, o.write rooms = rooms.insert token payload := by
  obtain ⟨id, request⟩ := o
  cases request <;> simp only [token?, Option.some.injEq, reduceCtorEq] at h <;> subst h <;> exact ⟨_, fun _ => rfl⟩

/-- Operations that do not write under the same token can change places. -/
theorem write_comm (h : ∀ token, o.token? = some token → p.token? ≠ some token) (rooms : SortedMap String Bytes) :
    p.write (o.write rooms) = o.write (p.write rooms) := by
  cases ho : o.token? with
  | none => rw [write_of_token?_eq_none ho, write_of_token?_eq_none ho]
  | some s =>
    cases hp : p.token? with
    | none => rw [write_of_token?_eq_none hp, write_of_token?_eq_none hp]
    | some t =>
      obtain ⟨a, ha⟩ := exists_write_eq_insert ho
      obtain ⟨b, hb⟩ := exists_write_eq_insert hp
      have hne : s ≠ t := by
        rintro rfl
        exact h s ho hp
      rw [ha, hb, hb, ha, SortedMap.insert_comm _ hne]

/-- The rooms after operations, one after the other. -/
def writeAll (os : List Operation) (rooms : SortedMap String Bytes) : SortedMap String Bytes :=
  os.foldl (fun rooms o => o.write rooms) rooms

/-- No two operations write under the same token. -/
def Disjoint (os : List Operation) : Prop := (os.filterMap token?).Nodup

instance (os : List Operation) : Decidable (Disjoint os) := inferInstanceAs (Decidable (os.filterMap token?).Nodup)

theorem Disjoint.perm {os ps : List Operation} (h : Disjoint os) (hp : os.Perm ps) : Disjoint ps :=
  (hp.filterMap token?).nodup_iff.1 h

/-- The order of operations that write under different tokens does not matter. -/
theorem Disjoint.writeAll_perm {os ps : List Operation} (h : Disjoint os) (hp : os.Perm ps)
    (rooms : SortedMap String Bytes) : writeAll os rooms = writeAll ps rooms := by
  have hsymm : Std.Symm fun o p : Operation => ∀ s, o.token? = some s → ∀ t, p.token? = some t → s ≠ t :=
    ⟨fun o p hop s hs t ht => (hop t ht s hs).symm⟩
  have hpairs := (List.pairwise_filterMap.1 h).forall
  refine hp.foldl_eq' (fun o ho p hp rooms => ?_) rooms
  by_cases heq : o = p
  · rw [heq]
  · exact write_comm (fun token hto htp => hpairs ho hp heq token hto token htp rfl) rooms

/-- An operation that waits is queued. -/
theorem perm_queue (before after queued : List Operation) (o : Operation) :
    (before ++ o :: after ++ queued).Perm (before ++ after ++ o :: queued) := by
  refine (List.perm_middle.append_right queued).trans ?_
  rw [List.cons_append]
  exact List.perm_middle.symm

/-- A queued operation is carried out. -/
theorem perm_process (waiting before after : List Operation) (o : Operation) :
    (waiting ++ (before ++ o :: after)).Perm (o :: (waiting ++ (before ++ after))) := by
  rw [← List.append_assoc, ← List.append_assoc]
  exact List.perm_middle

/-- Ids of operations are different. -/
theorem ne_of_nodup_ids {os : List Operation} (h : ((o :: os).map Operation.id).Nodup) (hp : p ∈ os) : p.id ≠ o.id := by
  rw [List.map_cons, List.nodup_cons] at h
  intro heq
  exact h.1 (heq ▸ List.mem_map_of_mem hp)

end Operation

namespace Ledger

/-! ## Calls in any order -/

/-- Calls that queue operations that wait and carry operations out that are queued, each one once, until none is left. -/
inductive Schedule : List Operation → List Operation → List Call → Prop
  | done : Schedule [] [] []
  | queue {before after queued : List Operation} {cs : List Call} (o : Operation)
    (h : Schedule (before ++ after) (o :: queued) cs) : Schedule (before ++ o :: after) queued (.queue o.id o.request :: cs)
  | process {waiting before after : List Operation} {cs : List Call} (o : Operation)
    (h : Schedule waiting (before ++ after) cs) : Schedule waiting (before ++ o :: after) (.process o.id :: cs)

/-- The answers to an operation among those to calls. -/
def answersTo (l : Ledger) (id : OperationId) : List Call → List (Except Fault Message)
  | [] => []
  | c :: cs => (if c = .process id then [(l.process id).2] else []) ++ (l.call c).answersTo id cs

/-- A ledger that has to carry out operations, some of which are still to be queued. -/
structure Awaits (l : Ledger) (waiting queued : List Operation) : Prop where
  nodup : ((waiting ++ queued).map Operation.id).Nodup
  isRequest : ∀ o ∈ waiting ++ queued, IsRequest o.request = true
  isNew : ∀ o ∈ waiting ++ queued, l.completed.get? o.id = none
  pending : ∀ o ∈ queued, l.pending.get? o.id = some o.request

variable {l : Ledger} {o p : Operation} {waiting queued before after : List Operation} {cs : List Call}

/-- A request changes the rooms, and its token is acknowledged if it has one. -/
theorem apply_of_request (h : IsRequest o.request = true) (l : Ledger) :
    ∃ result, l.apply o.id o.request = .ok ({ l with rooms := o.write l.rooms }, result) ∧
      ∀ token, o.token? = some token → result = .ack token := by
  obtain ⟨id, request⟩ := o
  cases request <;> simp only [IsRequest, Bool.false_eq_true] at h
  case hostRoom payload => exact ⟨_, rfl, fun token ht => congrArg Message.ack (Option.some.inj ht)⟩
  case hostUpdated token payload => exact ⟨_, rfl, fun token ht => congrArg Message.ack (Option.some.inj ht)⟩
  case requestRoomList => exact ⟨_, rfl, nofun⟩

/-- One operation is queued. -/
theorem Awaits.queue (h : l.Awaits (before ++ o :: after) queued) :
    (l.call (.queue o.id o.request)).Awaits (before ++ after) (o :: queued) ∧
      (l.call (.queue o.id o.request)).rooms = l.rooms := by
  have hperm := Operation.perm_queue before after queued o
  have hids : ((o :: (before ++ after ++ queued)).map Operation.id).Nodup :=
    ((hperm.trans List.perm_middle).map _).nodup_iff.1 h.nodup
  have hcall : l.call (.queue o.id o.request) = { l with pending := l.pending.insert o.id o.request } :=
    queue_of_new (h.isNew o (by simp)) o.request
  rw [hcall]
  refine ⟨⟨(hperm.map _).nodup_iff.1 h.nodup, fun p hp => h.isRequest p (hperm.mem_iff.2 hp),
    fun p hp => h.isNew p (hperm.mem_iff.2 hp), fun p hp => ?_⟩, rfl⟩
  rcases List.mem_cons.1 hp with rfl | hq
  · exact SortedMap.get?_insert_self ..
  · have hne : p.id ≠ o.id := Operation.ne_of_nodup_ids hids (List.mem_append_right _ hq)
    exact (SortedMap.get?_insert_of_ne _ _ hne).trans (h.pending p hq)

/-- One operation is carried out. -/
theorem Awaits.process (h : l.Awaits waiting (before ++ o :: after)) :
    ∃ l' result, l.process o.id = (l', .ok result) ∧ (∀ token, o.token? = some token → result = .ack token) ∧
      l'.Awaits waiting (before ++ after) ∧ l'.rooms = o.write l.rooms := by
  have hperm := Operation.perm_process waiting before after o
  have hids := (hperm.map _).nodup_iff.1 h.nodup
  have hmem {p : Operation} (hp : p ∈ o :: (waiting ++ (before ++ after))) := hperm.mem_iff.2 hp
  have ho := hmem List.mem_cons_self
  have hne {p : Operation} (hp : p ∈ waiting ++ (before ++ after)) : p.id ≠ o.id := Operation.ne_of_nodup_ids hids hp
  obtain ⟨result, happly, hack⟩ := apply_of_request (h.isRequest o ho) { l with pending := l.pending.erase o.id }
  have hprocess : l.process o.id =
      (remember { l with rooms := o.write l.rooms, pending := l.pending.erase o.id } o.id result, .ok result) := by
    simp only [Ledger.process, h.isNew o ho, h.pending o (by simp), happly]
  refine ⟨_, result, hprocess, hack, ⟨(List.nodup_cons.1 hids).2, fun p hp => h.isRequest p (hmem (.tail _ hp)),
    fun p hp => ?_, fun p hp => ?_⟩, rooms_remember ..⟩
  · refine get?_completed_remember_eq_none (hne hp) ?_ result
    exact h.isNew p (hmem (.tail _ hp))
  · rw [pending_remember]
    refine (SortedMap.get?_erase_of_ne _ (hne (List.mem_append_right _ hp))).trans (h.pending p ?_)
    exact ((List.sublist_cons_self o after).append_left before).subset hp

/-! ## What comes of them -/

/-- **The rooms after operations.** They are those of the operations in the order of the list, in whatever order the calls
come. -/
theorem Awaits.rooms_run (h : l.Awaits waiting queued) (hs : Schedule waiting queued cs)
    (hd : Operation.Disjoint (waiting ++ queued)) : (l.run cs).rooms = Operation.writeAll (waiting ++ queued) l.rooms := by
  induction hs generalizing l with
  | done => rfl
  | @queue before after queued cs o hs ih =>
    have hperm := Operation.perm_queue before after queued o
    obtain ⟨hnext, hrooms⟩ := h.queue
    rw [hd.writeAll_perm hperm, ← hrooms]
    exact ih hnext (hd.perm hperm)
  | @process waiting before after cs o hs ih =>
    have hperm := Operation.perm_process waiting before after o
    obtain ⟨l', result, hprocess, -, hnext, hrooms⟩ := h.process
    have hcall : l.call (.process o.id) = l' := congrArg Prod.fst hprocess
    have hrest : Operation.Disjoint (waiting ++ (before ++ after)) :=
      (hd.perm hperm).sublist ((List.sublist_cons_self o _).filterMap _)
    calc (l.run (.process o.id :: cs)).rooms = (l'.run cs).rooms := by rw [← hcall]; rfl
      _ = Operation.writeAll (waiting ++ (before ++ after)) (o.write l.rooms) := by rw [ih hnext hrest, hrooms]
      _ = Operation.writeAll (waiting ++ (before ++ o :: after)) l.rooms := (hd.writeAll_perm hperm _).symm

/-- No call carries out an operation that is none of those. -/
theorem Schedule.answersTo_eq_nil (hs : Schedule waiting queued cs) {id : OperationId}
    (hid : ∀ p ∈ waiting ++ queued, p.id ≠ id) (l : Ledger) : l.answersTo id cs = [] := by
  induction hs generalizing l with
  | done => rfl
  | @queue before after queued cs o hs ih =>
    have hperm := Operation.perm_queue before after queued o
    rw [answersTo, if_neg nofun, List.nil_append]
    exact ih (fun p hp => hid p (hperm.mem_iff.2 hp)) _
  | @process waiting before after cs o hs ih =>
    have hperm := Operation.perm_process waiting before after o
    have hne : o.id ≠ id := hid o (hperm.mem_iff.2 List.mem_cons_self)
    rw [answersTo, if_neg fun heq => hne (Call.process.inj heq), List.nil_append]
    exact ih (fun p hp => hid p (hperm.mem_iff.2 (.tail _ hp))) _

/-- Every operation is answered once, and what it writes under is acknowledged. -/
theorem Awaits.answersTo_run (h : l.Awaits waiting queued) (hs : Schedule waiting queued cs)
    (hp : p ∈ waiting ++ queued) :
    ∃ result, l.answersTo p.id cs = [.ok result] ∧ ∀ token, p.token? = some token → result = .ack token := by
  induction hs generalizing l with
  | done => cases hp
  | @queue before after queued cs o hs ih =>
    have hperm := Operation.perm_queue before after queued o
    rw [answersTo, if_neg nofun, List.nil_append]
    exact ih h.queue.1 (hperm.mem_iff.1 hp)
  | @process waiting before after cs o hs ih =>
    have hperm := Operation.perm_process waiting before after o
    have hids := (hperm.map _).nodup_iff.1 h.nodup
    obtain ⟨l', result, hprocess, hack, hnext, -⟩ := h.process
    have hcall : l.call (.process o.id) = l' := congrArg Prod.fst hprocess
    rw [answersTo, hcall]
    rcases List.mem_cons.1 (hperm.mem_iff.1 hp) with rfl | hrest
    · refine ⟨result, ?_, hack⟩
      rw [if_pos rfl, hprocess, hs.answersTo_eq_nil fun q hq => Operation.ne_of_nodup_ids hids hq]
      rfl
    · have hne : o.id ≠ p.id := (Operation.ne_of_nodup_ids hids hrest).symm
      rw [if_neg fun heq => hne (Call.process.inj heq), List.nil_append]
      exact ih hnext hrest

theorem awaits_of_isNew {ops : List Operation} (hids : (ops.map Operation.id).Nodup)
    (hrequest : ∀ o ∈ ops, IsRequest o.request = true) (hnew : ∀ o ∈ ops, l.completed.get? o.id = none) :
    l.Awaits ops [] := by
  have hops : ops ++ [] = ops := List.append_nil ops
  exact ⟨hops.symm ▸ hids, hops.symm ▸ hrequest, hops.symm ▸ hnew, nofun⟩

/-- **Replicas agree.** Two ledgers that have the same rooms carry out the same new operations, of which no two write under
the same token, each in an order of its own. Then they have the same rooms again, and every token that is written under is
acknowledged by both. -/
theorem replicas_agree {l l' : Ledger} {ops : List Operation} {cs ds : List Call} (hrooms : l.rooms = l'.rooms)
    (hids : (ops.map Operation.id).Nodup) (hrequest : ∀ o ∈ ops, IsRequest o.request = true)
    (hnew : ∀ o ∈ ops, l.completed.get? o.id = none ∧ l'.completed.get? o.id = none) (hd : Operation.Disjoint ops)
    (hcs : Schedule ops [] cs) (hds : Schedule ops [] ds) :
    (l.run cs).rooms = (l'.run ds).rooms ∧ ∀ o ∈ ops, ∀ token, o.token? = some token →
      l.answersTo o.id cs = [.ok (.ack token)] ∧ l'.answersTo o.id ds = [.ok (.ack token)] := by
  have h : l.Awaits ops [] := awaits_of_isNew hids hrequest fun o ho => (hnew o ho).1
  have h' : l'.Awaits ops [] := awaits_of_isNew hids hrequest fun o ho => (hnew o ho).2
  have hd' : Operation.Disjoint (ops ++ []) := (List.append_nil ops).symm ▸ hd
  refine ⟨?_, fun o ho token htoken => ?_⟩
  · rw [h.rooms_run hcs hd', h'.rooms_run hds hd', hrooms]
  · have hmem : o ∈ ops ++ [] := List.mem_append_left [] ho
    obtain ⟨result, hanswer, hack⟩ := h.answersTo_run hcs hmem
    obtain ⟨result', hanswer', hack'⟩ := h'.answersTo_run hds hmem
    rw [hanswer, hanswer', hack token htoken, hack' token htoken]
    exact ⟨rfl, rfl⟩

/-- A room that is hosted, the new advert of another one and a listing, at a ledger that keeps one result and at one that
keeps many. -/
theorem replicas_agree_crossed :
    let lobby : List Call := [.queue (.ofNat 1) (.hostUpdated "lobby" [7]), .process (.ofNat 1)]
    let hosts : Operation := ⟨.ofNat 2, .hostRoom [8]⟩
    let updates : Operation := ⟨.ofNat 3, .hostUpdated "lobby" [9]⟩
    let lists : Operation := ⟨.ofNat 4, .requestRoomList⟩
    let cs : List Call := [.queue hosts.id hosts.request, .queue updates.id updates.request, .process updates.id,
      .queue lists.id lists.request, .process hosts.id, .process lists.id]
    let ds : List Call := [.queue lists.id lists.request, .process lists.id, .queue updates.id updates.request,
      .queue hosts.id hosts.request, .process hosts.id, .process updates.id]
    (((new 1).run lobby).run cs).rooms = (((new 256).run lobby).run ds).rooms ∧
      ((new 1).run lobby).answersTo updates.id cs = [.ok (.ack "lobby")] ∧
        ((new 256).run lobby).answersTo updates.id ds = [.ok (.ack "lobby")] := by
  intro lobby hosts updates lists cs ds
  have hcs : Schedule [hosts, updates, lists] [] cs :=
    @Schedule.queue [] _ _ _ hosts <| @Schedule.queue [] _ _ _ updates <| @Schedule.process _ [] _ _ updates <|
      @Schedule.queue [] _ _ _ lists <| @Schedule.process _ [lists] _ _ hosts <| @Schedule.process _ [] _ _ lists .done
  have hds : Schedule [hosts, updates, lists] [] ds :=
    @Schedule.queue [hosts, updates] _ _ _ lists <| @Schedule.process _ [] _ _ lists <|
      @Schedule.queue [hosts] _ _ _ updates <| @Schedule.queue [] _ _ _ hosts <| @Schedule.process _ [] _ _ hosts <|
        @Schedule.process _ [] _ _ updates .done
  have hrooms : ((new 1).run lobby).rooms = ((new 256).run lobby).rooms := by decide
  have hids : ([hosts, updates, lists].map Operation.id).Nodup := by decide
  obtain ⟨hagree, hacks⟩ := replicas_agree hrooms hids (by decide) (by decide) (by decide) hcs hds
  exact ⟨hagree, hacks updates (by simp) "lobby" rfl⟩

end Ledger
end Parley.Directory
