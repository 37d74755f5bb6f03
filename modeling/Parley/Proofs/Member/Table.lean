import Parley.Proofs.Member.Departures

/-!
# One connection to an address

A table may be walked in any order, and two of its functions stop at the first entry that suits them: the one that finds the
connection to an address, and the one that finds the connection that a new one displaces. Only one entry is displaced at a
time. That this is enough, and that the order makes no difference, comes from what every command keeps
(`PeerTable.OneToOne`): no two connections lead to one address.

* `PeerTable.Built`: the tables that come of any commands, each of which walks the entries in an order of its own;
* `PeerTable.OneToOne.insert`, `PeerTable.OneToOne.obey`: what one command keeps;
* `PeerTable.Faithful`: what can be relied on, for every table that was built so, and for the table of every member
  (`PeerTable.one_to_one`).
-/

namespace Parley

namespace PeerTable

/-! ## Entries in some order -/

/-- The connection to an address that comes first among entries. -/
def findAmong? (es : List (ConnectionId × Identity)) (a : Endpoint) : Option ConnectionId :=
  (es.find? fun e => e.2.addr = a).map Prod.fst

/-- The connection that comes first among entries of those, other than `id`, that lead to the same member as `u`. -/
def displacedAmong? (es : List (ConnectionId × Identity)) (id : ConnectionId) (u : Identity) : Option ConnectionId :=
  (es.find? fun e => e.1 ≠ id && e.2.same u).map Prod.fst

/-- Registers who is at the other end of a connection, and drops the one that comes first among the entries. -/
def insertAmong (t : PeerTable) (es : List (ConnectionId × Identity)) (id : ConnectionId) (u : Identity) : PeerTable :=
  match displacedAmong? es id u with
  | some old => ⟨(t.byConnection.erase old).insert id u⟩
  | none => ⟨t.byConnection.insert id u⟩

/-- The connections among entries, put in order. -/
def idsAmong (es : List (ConnectionId × Identity)) : List ConnectionId := (es.map Prod.fst).mergeSort

/-- The entries of a table, in the order of some walk through it. -/
def Walk (t : PeerTable) (es : List (ConnectionId × Identity)) : Prop := es.Perm t.byConnection.entries

/-- What a table can be told. -/
inductive Command where
  /-- Register who is at the other end of a connection. -/
  | insert (id : ConnectionId) (u : Identity)
  /-- Forget a connection. -/
  | remove (id : ConnectionId)
  /-- Forget all connections. -/
  | clear

/-- A table after a command that walks the entries in some order. -/
def obey (t : PeerTable) (es : List (ConnectionId × Identity)) : Command → PeerTable
  | .insert id u => t.insertAmong es id u
  | .remove id => t.erase id
  | .clear => .empty

/-- The tables that come of any commands, whatever the order in which each of them walks the entries. -/
inductive Built : PeerTable → Prop
  | empty : Built .empty
  | obey {t : PeerTable} {es : List (ConnectionId × Identity)} (h : Built t) (w : t.Walk es) (c : Command) :
    Built (t.obey es c)

/-- The entries are in the order of the connections, and no two connections lead to one address. -/
structure OneToOne (t : PeerTable) : Prop where
  sorted : t.byConnection.Sorted
  unique : ∀ i j u v, t.get? i = some u → t.get? j = some v → u.addr = v.addr → i = j

/-- What can be relied on: addresses and connections belong to each other one to one, in whatever order the table is walked,
and a new connection changes no entry but its own and the one that it displaces. -/
structure Faithful (t : PeerTable) : Prop where
  unique : ∀ i j u v, t.get? i = some u → t.get? j = some v → u.addr = v.addr → i = j
  find?_iff : ∀ a id, t.find? a = some id ↔ ∃ u, t.get? id = some u ∧ u.addr = a
  findAmong?_eq : ∀ es a, t.Walk es → findAmong? es a = t.find? a
  displaced?_iff : ∀ id u old, t.displaced? id u = some old ↔ old ≠ id ∧ ∃ v, t.get? old = some v ∧ v.addr = u.addr
  displacedAmong?_eq : ∀ es id u, t.Walk es → displacedAmong? es id u = t.displaced? id u
  insertAmong_eq : ∀ es id u, t.Walk es → t.insertAmong es id u = t.insert id u
  get?_insert : ∀ id u j, (t.insert id u).get? j =
    if j = id then some u else if t.displaced? id u = some j then none else t.get? j
  increasing : t.ids.Pairwise (· < ·)
  mem_ids_iff : ∀ id, id ∈ t.ids ↔ (t.get? id).isSome = true
  idsAmong_eq : ∀ es, t.Walk es → idsAmong es = t.ids
  aligned : t.ids.map t.get? = t.users.map some

variable {t : PeerTable} {es : List (ConnectionId × Identity)} {id j old : ConnectionId} {u : Identity} {a : Endpoint}

/-- If what is looked for is on one connection at most, then a walk finds it, in whatever order. -/
theorem Walk.find?_iff (w : t.Walk es) (h : t.byConnection.Sorted) {p : ConnectionId × Identity → Bool}
    (hp : ∀ i j u v, t.get? i = some u → t.get? j = some v → p (i, u) = true → p (j, v) = true → i = j) :
    (es.find? p).map Prod.fst = some id ↔ ∃ u, t.get? id = some u ∧ p (id, u) = true := by
  have hmem {i : ConnectionId} {v : Identity} : (i, v) ∈ es ↔ t.get? i = some v :=
    w.mem_iff.trans h.mem_entries_iff
  constructor
  · intro hfind
    obtain ⟨⟨i, v⟩, he, rfl⟩ := Option.map_eq_some_iff.1 hfind
    exact ⟨v, hmem.1 (List.mem_of_find?_eq_some he), List.find?_some he⟩
  · rintro ⟨u, hget, hu⟩
    have hfound : (es.find? p).isSome = true := List.find?_isSome.2 ⟨(id, u), hmem.2 hget, hu⟩
    obtain ⟨⟨i, v⟩, he⟩ := Option.isSome_iff_exists.1 hfound
    have hi : i = id := hp i id v u (hmem.1 (List.mem_of_find?_eq_some he)) hget (List.find?_some he) hu
    rw [he, ← hi]
    rfl

namespace OneToOne

theorem findAmong?_iff (h : t.OneToOne) (w : t.Walk es) :
    findAmong? es a = some id ↔ ∃ u, t.get? id = some u ∧ u.addr = a := by
  refine (w.find?_iff h.sorted fun i j u v hu hv hpu hpv => ?_).trans (by simp only [decide_eq_true_eq])
  exact h.unique i j u v hu hv ((of_decide_eq_true hpu).trans (of_decide_eq_true hpv).symm)

theorem displacedAmong?_iff (h : t.OneToOne) (w : t.Walk es) :
    displacedAmong? es id u = some old ↔ old ≠ id ∧ ∃ v, t.get? old = some v ∧ v.addr = u.addr := by
  have hp {e : ConnectionId × Identity} : (decide (e.1 ≠ id) && e.2.same u) = true ↔ e.1 ≠ id ∧ e.2.addr = u.addr := by
    simp only [Identity.same, Bool.and_eq_true, decide_eq_true_eq]
  refine (w.find?_iff h.sorted fun i j v v' hv hv' hpv hpv' => ?_).trans ?_
  · exact h.unique i j v v' hv hv' ((hp.1 hpv).2.trans (hp.1 hpv').2.symm)
  · constructor
    · rintro ⟨v, hget, hpv⟩
      exact ⟨(hp.1 hpv).1, v, hget, (hp.1 hpv).2⟩
    · rintro ⟨hne, v, hget, haddr⟩
      exact ⟨v, hget, hp.2 ⟨hne, haddr⟩⟩

theorem findAmong?_eq (h : t.OneToOne) (w : t.Walk es) : findAmong? es a = t.find? a :=
  Option.ext fun _ => (h.findAmong?_iff w).trans (h.findAmong?_iff (.refl _)).symm

theorem displacedAmong?_eq (h : t.OneToOne) (w : t.Walk es) : displacedAmong? es id u = t.displaced? id u :=
  Option.ext fun _ => (h.displacedAmong?_iff w).trans (h.displacedAmong?_iff (.refl _)).symm

theorem insertAmong_eq (h : t.OneToOne) (w : t.Walk es) : t.insertAmong es id u = t.insert id u := by
  unfold insertAmong
  rw [h.displacedAmong?_eq w]
  rfl

end OneToOne

/-! ## What a command keeps -/

theorem get?_insert (t : PeerTable) (id : ConnectionId) (u : Identity) (j : ConnectionId) :
    (t.insert id u).get? j = if j = id then some u else if t.displaced? id u = some j then none else t.get? j := by
  by_cases hj : j = id
  · rw [if_pos hj, hj, get?_insert_self]
  · rw [if_neg hj]
    split
    · rename_i hd
      unfold insert
      rw [hd]
      exact (SortedMap.get?_insert_of_ne _ _ hj).trans (SortedMap.get?_erase_self _ _)
    · rename_i hd
      exact get?_insert_of_ne hj hd

theorem get?_of_get?_erase (h : (t.erase id).get? j = some u) : t.get? j = some u := by
  by_cases hj : j = id
  · rw [hj, erase, get?, SortedMap.get?_erase_self] at h
    cases h
  · rwa [erase, get?, SortedMap.get?_erase_of_ne _ hj] at h

theorem oneToOne_empty : OneToOne .empty := ⟨SortedMap.sorted_empty, nofun⟩

/-- A connection that led to the address of the new one is displaced, so the new one is the only one. -/
theorem OneToOne.insert (h : t.OneToOne) (id : ConnectionId) (u : Identity) : (t.insert id u).OneToOne := by
  refine ⟨(Change.insert id u).sorted h.sorted, ?_⟩
  -- whoever else is found was there before and listens elsewhere
  have hother {j : ConnectionId} {v : Identity} (hj : j ≠ id) (hv : (t.insert id u).get? j = some v) :
      t.get? j = some v ∧ v.addr ≠ u.addr := by
    rw [get?_insert, if_neg hj] at hv
    split at hv
    · cases hv
    · rename_i hkept
      exact ⟨hv, fun haddr => hkept ((h.displacedAmong?_iff (.refl _)).2 ⟨hj, v, hv, haddr⟩)⟩
  intro i j v w hv hw haddr
  by_cases hi : i = id
  · by_cases hj : j = id
    · exact hi.trans hj.symm
    · rw [hi, get?_insert_self] at hv
      cases hv
      exact absurd haddr.symm (hother hj hw).2
  · by_cases hj : j = id
    · rw [hj, get?_insert_self] at hw
      cases hw
      exact absurd haddr (hother hi hv).2
    · exact h.unique i j v w (hother hi hv).1 (hother hj hw).1 haddr

theorem OneToOne.erase (h : t.OneToOne) (id : ConnectionId) : (t.erase id).OneToOne :=
  ⟨h.sorted.erase id, fun i j v w hv hw => h.unique i j v w (get?_of_get?_erase hv) (get?_of_get?_erase hw)⟩

theorem OneToOne.obey (h : t.OneToOne) (w : t.Walk es) (c : Command) : (t.obey es c).OneToOne := by
  cases c with
  | insert id u =>
    show (t.insertAmong es id u).OneToOne
    rw [h.insertAmong_eq w]
    exact h.insert id u
  | remove id => exact h.erase id
  | clear => exact oneToOne_empty

theorem Built.oneToOne (h : t.Built) : t.OneToOne := by
  induction h with
  | empty => exact oneToOne_empty
  | obey _ w c ih => exact ih.obey w c

/-! ## What can be relied on -/

/-- Putting the connections of a walk in order gives them in the order of the table. -/
theorem OneToOne.idsAmong_eq (h : t.OneToOne) (w : t.Walk es) : idsAmong es = t.ids := by
  have hperm : (idsAmong es).Perm t.ids := (List.mergeSort_perm _ _).trans (w.map Prod.fst)
  have hsorted : (idsAmong es).Pairwise (· ≤ ·) :=
    (List.pairwise_mergeSort (by simpa using fun _ _ _ => Nat.le_trans) (by simpa using Nat.le_total) _).imp
      of_decide_eq_true
  exact hperm.eq_of_pairwise (fun _ _ _ _ => Nat.le_antisymm) hsorted (h.sorted.imp Nat.le_of_lt)

theorem OneToOne.faithful (h : t.OneToOne) : t.Faithful where
  unique := h.unique
  find?_iff _ _ := h.findAmong?_iff (.refl _)
  findAmong?_eq _ _ := h.findAmong?_eq
  displaced?_iff _ _ _ := h.displacedAmong?_iff (.refl _)
  displacedAmong?_eq _ _ _ := h.displacedAmong?_eq
  insertAmong_eq _ _ _ := h.insertAmong_eq
  get?_insert := t.get?_insert
  increasing := h.sorted
  mem_ids_iff := SortedMap.mem_keys_iff t.byConnection
  idsAmong_eq _ := h.idsAmong_eq
  aligned := h.sorted.map_get?_keys

/-- What becomes of a table in one step of a member comes of a command. -/
theorem Built.of_change {t' : PeerTable} (h : t.Built) (c : t.Change t') : t'.Built := by
  cases c with
  | same => exact h
  | insert id u => exact h.obey (.refl _) (.insert id u)
  | erase id => exact h.obey (.refl _) (.remove id)

end PeerTable

theorem Member.Reachable.built {m : Member} (h : m.Reachable) : m.peers.Built := by
  induction h with
  | outside => exact .empty
  | @after m _ i ih =>
    cases i with
    | join k =>
      rw [after_join]
      split <;> exact ih
    | abortJoin => exact ih
    | leave => exact .empty
    | chat _ | poll | connected _ _ | connectFailed _ | closed _ | received _ _ =>
      exact ih.of_change (change_after m id).peers

/-- **A table leads to each address by one connection**, whatever it was told, in whatever order it is walked, and so does
the table of every member. What is found and what is displaced is then no matter of the order; whoever registers a connection
is told exactly which other one led to the same address, and no entry but these two changes; and the connections are listed in
increasing order, each with who is at its other end. -/
theorem PeerTable.one_to_one : (∀ t : PeerTable, t.Built → t.Faithful) ∧ ∀ m : Member, m.Reachable → m.peers.Faithful :=
  ⟨fun _ h => h.oneToOne.faithful, fun _ h => h.built.oneToOne.faithful⟩

/-- Ann on a second connection, with bob in between and the entries walked from the last to the first; and a member that has
met ann and cyd. -/
theorem PeerTable.one_to_one_second_connection :
    let ann : Identity := ⟨"ann", ⟨.loopback, 7001⟩⟩
    let bob : Identity := ⟨"bob", ⟨.loopback, 7002⟩⟩
    let before := (PeerTable.empty.obey [] (.insert 1 ann)).obey [(1, ann)] (.insert 2 bob)
    let t := before.obey [(2, bob), (1, ann)] (.insert 3 ann)
    let m := (Member.outside bob (.v4 ⟨.loopback, 7000⟩)).run Member.acquaintance
    before.displaced? 3 ann = some 1 ∧ t.get? 1 = none ∧ t.get? 2 = some bob ∧ t.ids = [2, 3] ∧
      findAmong? [(3, ann), (2, bob)] ann.addr = some 3 ∧ m.peers.find? ⟨.loopback, 7003⟩ = some 2 := by
  intro ann bob before t m
  have hbefore : before.Built := .obey (.obey .empty .nil _) (.refl _) _
  have hwalk : before.Walk [(2, bob), (1, ann)] := .swap ..
  have f : before.Faithful := one_to_one.1 before hbefore
  have g : t.Faithful := one_to_one.1 t (.obey hbefore hwalk _)
  have hold : before.displaced? 3 ann = some 1 := (f.displaced?_iff 3 ann 1).2 ⟨by decide, ann, by decide, rfl⟩
  have ht : t = before.insert 3 ann := f.insertAmong_eq _ 3 ann hwalk
  refine ⟨hold, ?_, ?_, by decide, ?_, ?_⟩
  · rw [ht, f.get?_insert, hold]
    rfl
  · rw [ht, f.get?_insert, hold]
    rfl
  · rw [g.findAmong?_eq _ _ (.swap ..)]
    exact (g.find?_iff ann.addr 3).2 ⟨ann, by decide, rfl⟩
  · have hm : m.Reachable := (Member.Reachable.outside _ _).run _
    exact ((one_to_one.2 m hm).find?_iff _ 2).2 ⟨⟨"cyd", ⟨.loopback, 7003⟩⟩, by decide, rfl⟩

end Parley
