import Mathlib.Data.List.Induction
import Mathlib.Data.List.Nodup
import Mathlib.Tactic.Common
import Parley.Ranking

/-!
# Rankings by address

Who a member is depends on its address alone, and so does what becomes of a ranking. The addresses in rank order
(`Ranking.order`) after a change are made from the addresses before it, so that rankings which differ by names only stay so
(`Alike.push`, `Alike.remove`, `Alike.setSelf`). A ranking is proper if every address stands in it once, that of the local
member included. The ranking of the local member alone is proper, and every change keeps it so; a proper ranking that is
reset lists the local member and nobody else (`Proper.order_reset`).
-/

namespace Parley.Ranking

/-- The addresses of the members, in rank order. -/
def order (r : Ranking) : List Endpoint := r.users.map Identity.addr

/-- Every address stands once in the ranking, and that of the local member does. -/
structure Proper (r : Ranking) : Prop where
  nodup : r.order.Nodup
  self_mem : r.self ∈ r.order

/-- The same addresses in the same order, and the same local member. -/
structure Alike (r s : Ranking) : Prop where
  order : r.order = s.order
  self : r.self = s.self

variable {r s : Ranking} {u me : Identity} {a : Endpoint} {us vs : List Identity}

/-! ## The addresses after a change -/

theorem contains_iff : r.contains a = true ↔ a ∈ r.order := by simp [contains, order]

/-- Somebody who is not ranked yet is ranked last. -/
theorem users_push (h : ∀ v ∈ r.users, v.addr ≠ u.addr) : (r.push u).users = r.users ++ [u] := by
  have hc : r.contains u.addr = false := by simpa [contains] using h
  simp [push, hc]

theorem order_push (r : Ranking) (u : Identity) :
    (r.push u).order = if u.addr ∈ r.order then r.order else r.order ++ [u.addr] := by
  unfold push
  by_cases h : u.addr ∈ r.order
  · rw [if_pos (contains_iff.2 h), if_pos h]
  · rw [if_neg (mt contains_iff.1 h), if_neg h]
    simp [order]

theorem self_push (r : Ranking) (u : Identity) : (r.push u).self = r.self := by
  unfold push
  split <;> rfl

theorem order_remove (r : Ranking) (a : Endpoint) :
    (r.remove a).order = if a = r.self then r.order else r.order.erase a := by
  unfold remove
  split
  · rfl
  · have hp : (fun x => x == a) ∘ Identity.addr = fun v => decide (v.addr = a) := by
      funext v
      exact beq_eq_decide ..
    rw [order, order, List.erase_eq_eraseP', List.eraseP_map, hp]

theorem self_remove (r : Ranking) (a : Endpoint) : (r.remove a).self = r.self := by
  unfold remove
  split <;> rfl

theorem order_reset (r : Ranking) : r.reset.order = r.order.filter (· = r.self) := by
  rw [order, order, List.filter_map]
  rfl

theorem addr_head (r : Ranking) : r.head.addr = r.order.headD r.self := by
  obtain ⟨us, a⟩ := r
  cases us <;> rfl

theorem addr_find? (r : Ranking) (a : Endpoint) : (r.find? a).map Identity.addr = r.order.find? (· = a) := by
  rw [order, List.find?_map]
  rfl

/-! ## Alike rankings -/

theorem Alike.head (h : r.Alike s) : r.head.addr = s.head.addr := by rw [addr_head, addr_head, h.order, h.self]

theorem Alike.contains (h : r.Alike s) (a : Endpoint) : r.contains a = s.contains a :=
  Bool.eq_iff_iff.2 (by rw [contains_iff, contains_iff, h.order])

theorem Alike.find? (h : r.Alike s) (a : Endpoint) :
    (r.find? a).map Identity.addr = (s.find? a).map Identity.addr := by rw [addr_find?, addr_find?, h.order]

theorem Alike.push (h : r.Alike s) (u : Identity) : (r.push u).Alike (s.push u) :=
  ⟨by rw [order_push, order_push, h.order], by rw [self_push, self_push, h.self]⟩

theorem Alike.remove (h : r.Alike s) (a : Endpoint) : (r.remove a).Alike (s.remove a) :=
  ⟨by rw [order_remove, order_remove, h.order, h.self], by rw [self_remove, self_remove, h.self]⟩

theorem Alike.reset (h : r.Alike s) : r.reset.Alike s.reset :=
  ⟨by rw [order_reset, order_reset, h.order, h.self], h.self⟩

theorem map_addr_replaceFirst (h : us.map Identity.addr = vs.map Identity.addr) (a : Endpoint) (me : Identity) :
    (replaceFirst a me us).map Identity.addr = (replaceFirst a me vs).map Identity.addr := by
  induction us generalizing vs with
  | nil => rw [List.map_eq_nil_iff.1 h.symm]
  | cons u us ih =>
    obtain ⟨v, vs, rfl⟩ := List.exists_cons_of_ne_nil (l := vs) (by rintro rfl; cases h)
    obtain ⟨hu, hs⟩ := List.cons.inj h
    simp only [replaceFirst, hu]
    split
    · rw [List.map_cons, List.map_cons, hs]
    · rw [List.map_cons, List.map_cons, hu, ih hs]

theorem map_addr_filter (us : List Identity) (a : Endpoint) :
    (us.filter fun v => v.addr ≠ a).map Identity.addr = (us.map Identity.addr).filter (· ≠ a) := by
  rw [List.filter_map]
  rfl

theorem map_addr_keepFirst (h : us.map Identity.addr = vs.map Identity.addr) (a : Endpoint) :
    (keepFirst a us).map Identity.addr = (keepFirst a vs).map Identity.addr := by
  induction us generalizing vs with
  | nil => rw [List.map_eq_nil_iff.1 h.symm]
  | cons u us ih =>
    obtain ⟨v, vs, rfl⟩ := List.exists_cons_of_ne_nil (l := vs) (by rintro rfl; cases h)
    obtain ⟨hu, hs⟩ := List.cons.inj h
    simp only [keepFirst, hu]
    split
    · rw [List.map_cons, List.map_cons, hu, map_addr_filter, map_addr_filter, hs]
    · rw [List.map_cons, List.map_cons, hu, ih hs]

theorem Alike.setSelf (h : r.Alike s) (me : Identity) : (r.setSelf me).Alike (s.setSelf me) := by
  refine ⟨map_addr_keepFirst ?_ me.addr, rfl⟩
  rw [h.self, h.contains]
  split
  · exact map_addr_replaceFirst h.order s.self me
  · rw [List.map_append, List.map_append]
    exact congrArg (· ++ [me.addr]) h.order

/-- A member that ranks nobody else still does so at another address. -/
theorem order_setSelf_of_alone (h : r.order = [r.self]) (me : Identity) : (r.setSelf me).order = [me.addr] := by
  have ha : r.Alike (alone ⟨"", r.self⟩) := ⟨h, rfl⟩
  exact (ha.setSelf me).order.trans (by simp [setSelf, alone, contains, replaceFirst, keepFirst, order])

/-! ## Proper rankings -/

theorem proper_alone (me : Identity) : (alone me).Proper := ⟨List.nodup_singleton _, List.mem_singleton.2 rfl⟩

theorem Proper.push (h : r.Proper) (u : Identity) : (r.push u).Proper := by
  constructor
  · rw [order_push]
    split
    · exact h.nodup
    · rename_i hu
      exact List.nodup_append.2 ⟨h.nodup, List.nodup_singleton _, fun x hx y hy => by
        rw [List.mem_singleton.1 hy]
        exact ne_of_mem_of_not_mem hx hu⟩
  · rw [self_push, order_push]
    split
    · exact h.self_mem
    · exact List.mem_append_left _ h.self_mem

theorem Proper.remove (h : r.Proper) (a : Endpoint) : (r.remove a).Proper := by
  constructor
  · rw [order_remove]
    split
    · exact h.nodup
    · exact h.nodup.erase a
  · rw [self_remove, order_remove]
    split
    · exact h.self_mem
    · rename_i ha
      exact (List.mem_erase_of_ne (Ne.symm ha)).2 h.self_mem

theorem Proper.count_self (h : r.Proper) : r.order.count r.self = 1 := List.count_eq_one_of_mem h.nodup h.self_mem

/-- Somebody is first in rank. -/
theorem Proper.head?_users (h : r.Proper) : r.users.head? = some r.head := by
  obtain ⟨us, a⟩ := r
  cases us with
  | nil => exact absurd h.self_mem List.not_mem_nil
  | cons u us => rfl

/-- Whoever is removed listens where it was said, and is not the local member. -/
theorem addr_removed? (h : r.removed? a = some u) : u.addr = a ∧ a ≠ r.self := by
  unfold removed? at h
  split at h
  · cases h
  · rename_i ha
    exact ⟨by simpa using List.find?_some h, ha⟩

/-- A ranking that is reset lists the local member alone. -/
theorem Proper.order_reset (h : r.Proper) : r.reset.order = [r.self] := by
  rw [Ranking.order_reset, List.filter_eq, h.count_self]
  rfl

theorem Proper.reset (h : r.Proper) : r.reset.Proper := by
  have ho := h.order_reset
  exact ⟨ho ▸ List.nodup_singleton _, ho ▸ List.mem_singleton.2 rfl⟩

theorem distinct_concat (us : List Identity) (u : Identity) :
    distinct (us ++ [u]) = if u.addr ∈ (distinct us).map Identity.addr then distinct us else distinct us ++ [u] := by
  have hstep : distinct (us ++ [u]) = if (distinct us).any (Identity.same u) then distinct us else distinct us ++ [u] := by
    rw [distinct, List.foldl_append]
    rfl
  have hany : (distinct us).any (Identity.same u) = true ↔ u.addr ∈ (distinct us).map Identity.addr := by
    rw [List.any_eq_true, List.mem_map]
    exact exists_congr fun v => and_congr_right fun _ => decide_eq_true_iff.trans eq_comm
  rw [hstep]
  exact if_congr hany rfl rfl

theorem nodup_distinct (us : List Identity) : ((distinct us).map Identity.addr).Nodup := by
  induction us using List.reverseRecOn with
  | nil => exact List.nodup_nil
  | append_singleton us u ih =>
    rw [distinct_concat]
    split
    · exact ih
    · rename_i h
      rw [List.map_append]
      exact List.nodup_append.2 ⟨ih, List.nodup_singleton _, fun x hx y hy => by
        rw [List.mem_singleton.1 hy]
        exact ne_of_mem_of_not_mem hx h⟩

/-- Whoever is listed is found among the distinct ones by address. -/
theorem addr_mem_distinct (h : u ∈ us) : u.addr ∈ (distinct us).map Identity.addr := by
  induction us using List.reverseRecOn with
  | nil => simp at h
  | append_singleton us v ih =>
    rw [distinct_concat]
    split
    · rename_i hv
      rcases List.mem_append.1 h with h | h
      · exact ih h
      · exact List.mem_singleton.1 h ▸ hv
    · rw [List.map_append]
      rcases List.mem_append.1 h with h | h
      · exact List.mem_append_left _ (ih h)
      · exact List.mem_append_right _ (List.mem_map_of_mem h)

theorem mem_of_mem_distinct (h : u ∈ distinct us) : u ∈ us := by
  induction us using List.reverseRecOn with
  | nil => exact h
  | append_singleton us v ih =>
    rw [distinct_concat] at h
    split at h
    · exact List.mem_append_left _ (ih h)
    · exact List.mem_append.2 ((List.mem_append.1 h).imp_left ih)

theorem proper_replace (r : Ranking) (us : List Identity) (me : Identity) : (r.replace us me).Proper :=
  ⟨nodup_distinct _, addr_mem_distinct (List.mem_append_right _ (List.mem_singleton.2 rfl))⟩

/-- A ranking that is taken over lists the local member alone if it tells of nobody else. -/
theorem order_replace_eq_singleton_iff : (r.replace us me).order = [me.addr] ↔ ∀ u ∈ us, u.addr = me.addr := by
  constructor
  · intro h u hu
    have hmem : u.addr ∈ (r.replace us me).order := addr_mem_distinct (List.mem_append_left _ hu)
    exact List.mem_singleton.1 (h ▸ hmem)
  · intro h
    have hreset := (proper_replace r us me).order_reset
    rw [Ranking.order_reset, List.filter_eq_self.2] at hreset
    · exact hreset
    · intro a ha
      obtain ⟨u, hu, rfl⟩ := List.mem_map.1 ha
      rcases List.mem_append.1 (mem_of_mem_distinct hu) with hu | hu
      · exact decide_eq_true (h u hu)
      · exact decide_eq_true (congrArg Identity.addr (List.mem_singleton.1 hu))

/-- Apart from the new identity, nothing is added. -/
theorem filter_replaceFirst_sublist (a : Endpoint) (me : Identity) (us : List Identity) :
    ((replaceFirst a me us).filter fun v => v.addr ≠ me.addr).Sublist us := by
  induction us with
  | nil => exact List.Sublist.refl _
  | cons u us ih =>
    rw [replaceFirst]
    split
    · rw [List.filter_cons_of_neg (by simp)]
      exact List.filter_sublist.cons u
    · rw [List.filter_cons]
      split
      · exact ih.cons_cons u
      · exact ih.cons u

theorem mem_replaceFirst (h : a ∈ us.map Identity.addr) (me : Identity) : me ∈ replaceFirst a me us := by
  induction us with
  | nil => simp at h
  | cons u us ih =>
    rw [replaceFirst]
    split
    · exact List.mem_cons_self
    · rename_i hu
      exact List.mem_cons_of_mem _ (ih ((List.mem_cons.1 h).resolve_left (Ne.symm hu)))

theorem mem_keepFirst_self (h : a ∈ us.map Identity.addr) : a ∈ (keepFirst a us).map Identity.addr := by
  induction us with
  | nil => simp at h
  | cons u us ih =>
    rw [keepFirst]
    split
    · rename_i hu
      exact List.mem_cons.2 (.inl hu.symm)
    · rename_i hu
      exact List.mem_cons_of_mem _ (ih ((List.mem_cons.1 h).resolve_left (Ne.symm hu)))

theorem keepFirst_sublist (a : Endpoint) (us : List Identity) : (keepFirst a us).Sublist us := by
  induction us with
  | nil => exact List.Sublist.refl _
  | cons u us ih =>
    rw [keepFirst]
    split
    · exact List.filter_sublist.cons_cons u
    · exact ih.cons_cons u

/-- One identity is kept of those at the address, and the others were distinct. -/
theorem nodup_keepFirst (h : ((us.filter fun v => v.addr ≠ a).map Identity.addr).Nodup) :
    ((keepFirst a us).map Identity.addr).Nodup := by
  induction us with
  | nil => exact List.nodup_nil
  | cons u us ih =>
    rw [keepFirst]
    split
    · rename_i hu
      rw [List.filter_cons_of_neg (by simpa using hu)] at h
      refine List.nodup_cons.2 ⟨?_, h⟩
      simp [hu]
    · rename_i hu
      rw [List.filter_cons_of_pos (by simpa using hu), List.map_cons, List.nodup_cons] at h
      refine List.nodup_cons.2 ⟨fun hmem => h.1 ?_, ih h.2⟩
      rw [map_addr_filter, List.mem_filter]
      exact ⟨((keepFirst_sublist a us).map _).subset hmem, by simpa using hu⟩

theorem Proper.setSelf (h : r.Proper) (me : Identity) : (r.setSelf me).Proper := by
  have hc : r.contains r.self = true := contains_iff.2 h.self_mem
  have he : (r.setSelf me).order = (keepFirst me.addr (replaceFirst r.self me r.users)).map Identity.addr := by
    simp [Ranking.setSelf, order, hc]
  constructor
  · rw [he]
    exact nodup_keepFirst (h.nodup.sublist ((filter_replaceFirst_sublist r.self me r.users).map _))
  · rw [he]
    exact mem_keepFirst_self (List.mem_map_of_mem (mem_replaceFirst h.self_mem me))

/-! ## Who is ranked -/

theorem mem_users_push {v : Identity} (h : v ∈ (r.push u).users) : v = u ∨ v ∈ r.users := by
  unfold push at h
  split at h
  · exact .inr h
  · exact (List.mem_append.1 h).symm.imp_left List.mem_singleton.1

theorem mem_users_remove {v : Identity} (h : v ∈ (r.remove a).users) : v ∈ r.users := by
  unfold remove at h
  split at h
  · exact h
  · exact List.mem_of_mem_eraseP h

theorem mem_users_replace {v : Identity} (h : v ∈ (r.replace us me).users) : v = me ∨ v ∈ us :=
  (List.mem_append.1 (mem_of_mem_distinct h)).symm.imp_left List.mem_singleton.1

theorem eq_or_mem_of_mem_replaceFirst {v : Identity} (h : v ∈ replaceFirst a me us) : v = me ∨ v ∈ us := by
  induction us with
  | nil => cases h
  | cons u us ih =>
    unfold replaceFirst at h
    split at h
    · exact (List.mem_cons.1 h).imp_right (List.mem_cons_of_mem u)
    · rcases List.mem_cons.1 h with rfl | h
      · exact .inr List.mem_cons_self
      · exact (ih h).imp_right (List.mem_cons_of_mem u)

theorem mem_users_setSelf {v : Identity} (h : v ∈ (r.setSelf me).users) : v = me ∨ v ∈ r.users := by
  have hv := (keepFirst_sublist me.addr _).subset h
  split at hv
  · exact eq_or_mem_of_mem_replaceFirst hv
  · exact (List.mem_append.1 hv).symm.imp_left List.mem_singleton.1

end Parley.Ranking
