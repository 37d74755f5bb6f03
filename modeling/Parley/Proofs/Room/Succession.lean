import Parley.Proofs.Room.Mesh

/-!
# The death of a host

A `Succession` is a room with a host, and the heir: the first in rank besides the host. When the host has died (`Vacancy`),
the survivors lose their connections to it one by one and send each other messages, which arrive in any order.

Here stands what can be said of it without looking at what survivors do: which of them a survivor is connected to
(`Succession.company`), and that the heir leads the ranking once the host is removed from it (`Succession.head_roll`).
-/

namespace Parley

variable {n : Nat}

/-- A room of three members or more that have the same ranking, in which nobody stands twice, its host, and the heir: the
first in rank besides the host. -/
structure Succession (n : Nat) where
  mesh : Mesh n
  host : Fin n
  heir : Fin n
  ranks : List Identity
  nodup : (ranks.map Identity.addr).Nodup
  first : (ranks.find? fun u => u.addr ≠ (mesh.user host).addr).map Identity.addr = some (mesh.user heir).addr
  survivors : 3 ≤ n

/-- A room whose host has died, and the survivors that have yet to lose their connection to it. -/
structure Vacancy (n : Nat) where
  room : Room n
  closing : List (Fin n)

namespace Vacancy

/-- What happens after the death of the host, one thing at a time: a message to a survivor arrives, any one that is on its
way, or a survivor loses its connection to the host. What is sent to the host is lost: it stays on its way for ever. -/
inductive Step (S : Succession n) : Vacancy n → Vacancy n → Prop
  | deliver (s : Vacancy n) (p : Packet n) (before after : List (Packet n))
      (h : s.room.flight = before ++ p :: after) (ht : p.target ≠ S.host) :
      Step S s ⟨s.room.deliver S.mesh p (before ++ after), s.closing⟩
  | close (s : Vacancy n) (i : Fin n) (h : i ∈ s.closing) :
      Step S s ⟨s.room.input S.mesh i (.closed (S.mesh.line i S.host)), s.closing.erase i⟩

/-- The host has just died: everybody is connected to everybody else and takes it for the host. The connection to the
directory, if there is one, leads to no member. -/
structure Opening (S : Succession n) (s : Vacancy n) : Prop where
  seated : ∀ i, S.mesh.Seated i (Mesh.others i) (s.room.member i)
  ranking : ∀ i, (s.room.member i).ranking = ⟨S.ranks, (S.mesh.user i).addr⟩
  host : ∀ i, (s.room.member i).host = some (S.mesh.user S.host).addr
  isHost : ∀ i, (s.room.member i).isHost = true ↔ i = S.host
  election : ∀ i, (s.room.member i).election.active = false
  directory : ∀ i j, (s.room.member i).directory ≠ some (S.mesh.line i j)
  flight : s.room.flight = []
  closing : s.closing = Mesh.others S.host

/-- Everybody has noticed, and nothing is on its way to a survivor. -/
def Quiet (S : Succession n) (s : Vacancy n) : Prop := s.closing = [] ∧ ∀ p ∈ s.room.flight, p.target = S.host

end Vacancy

namespace Succession

variable (S : Succession n)

/-- Where the host listened. -/
abbrev hostAddr : Endpoint := (S.mesh.user S.host).addr

/-- Where the heir listens. -/
abbrev heirAddr : Endpoint := (S.mesh.user S.heir).addr

/-- The members that a survivor is connected to, before and after it has noticed. -/
def company (i : Fin n) (noticed : Bool) : List (Fin n) :=
  if noticed then (Mesh.others i).filter (· ≠ S.host) else Mesh.others i

/-- The ranking of a survivor, before and after it has noticed. -/
def roll (noticed : Bool) : List Identity :=
  if noticed then S.ranks.filter fun u => u.addr ≠ S.hostAddr else S.ranks

/-- What a survivor knows of the room. -/
structure Stands (i : Fin n) (noticed : Bool) (m : Member) : Prop where
  seated : S.mesh.Seated i (S.company i noticed) m
  ranking : m.ranking = ⟨S.roll noticed, (S.mesh.user i).addr⟩
  directory : ∀ j, m.directory ≠ some (S.mesh.line i j)

variable {S}

/-! ## The ranking -/

theorem heirAddr_ne : S.heirAddr ≠ S.hostAddr := by
  obtain ⟨u, hu, ha⟩ := Option.map_eq_some_iff.1 S.first
  have hne := List.find?_some hu
  simpa [ha] using hne

theorem heir_ne : S.heir ≠ S.host := fun h => heirAddr_ne (congrArg (fun i => (S.mesh.user i).addr) h)

/-- In a list that names everybody once, removing a member is leaving it out. -/
theorem eraseP_eq_filter {us : List Identity} (h : (us.map Identity.addr).Nodup) (a : Endpoint) :
    us.eraseP (fun u => u.addr = a) = us.filter fun u => u.addr ≠ a := by
  induction us with
  | nil => rfl
  | cons u us ih =>
    rw [List.map_cons, List.nodup_cons] at h
    by_cases hu : u.addr = a
    · have hrest : us.filter (fun v => v.addr ≠ a) = us := by
        rw [List.filter_eq_self]
        intro v hv
        have hne : v.addr ≠ a := fun e => h.1 (hu ▸ e ▸ List.mem_map_of_mem hv)
        simpa using hne
      simpa [hu] using hrest.symm
    · simpa [hu] using ih h.2

theorem remove_host {a : Endpoint} (ha : a ≠ S.hostAddr) :
    (⟨S.roll false, a⟩ : Ranking).remove S.hostAddr = ⟨S.roll true, a⟩ := by
  simp [Ranking.remove, Ne.symm ha, roll, eraseP_eq_filter S.nodup]

/-- Once the host is removed, the heir is the first in rank. -/
theorem head_roll (a : Endpoint) : (⟨S.roll true, a⟩ : Ranking).head.addr = S.heirAddr := by
  obtain ⟨u, hu, ha⟩ := Option.map_eq_some_iff.1 S.first
  show ((S.ranks.filter fun u => u.addr ≠ S.hostAddr).headD _).addr = _
  rw [List.headD_eq_head?_getD, List.head?_filter, hu]
  exact ha

/-- Before, it is the first in rank or the host is. -/
theorem head_ranks (a : Endpoint) :
    (⟨S.roll false, a⟩ : Ranking).head.addr = S.heirAddr ∨ (⟨S.roll false, a⟩ : Ranking).head.addr = S.hostAddr := by
  have h := S.first
  cases hr : S.ranks with
  | nil => simp [hr] at h
  | cons u us =>
    by_cases hu : u.addr = (S.mesh.user S.host).addr
    · exact .inr (by simp [Ranking.head, roll, hr, hu])
    · rw [hr, List.find?_cons_of_pos (by simpa using hu), Option.map_some, Option.some.injEq] at h
      exact .inl (by simp [Ranking.head, roll, hr, h])

theorem not_contains_host (a : Endpoint) : (⟨S.roll true, a⟩ : Ranking).contains S.hostAddr = false := by
  simp [Ranking.contains, roll]

/-! ## The company -/

theorem mem_company {i j : Fin n} {b : Bool} (hi : j ≠ i) (hj : j ≠ S.host) : j ∈ S.company i b := by
  cases b <;> simp [company, hi, hj]

theorem ne_of_mem_company {i j : Fin n} {b : Bool} (h : j ∈ S.company i b) : j ≠ i := by
  cases b <;> simp [company] at h
  · exact h
  · exact h.1

theorem not_mem_company (i : Fin n) (b : Bool) : i ∉ S.company i b := fun h => ne_of_mem_company h rfl

theorem host_mem_company {i : Fin n} (hi : i ≠ S.host) : S.host ∈ S.company i false := by
  simp [company, Ne.symm hi]

theorem host_not_mem_company (i : Fin n) : S.host ∉ S.company i true := by simp [company]

theorem nodup_company (i : Fin n) (b : Bool) : (S.company i b).Nodup := by
  cases b
  · exact Mesh.nodup_others i
  · exact (Mesh.nodup_others i).filter _

/-- The survivors besides the heir. -/
def followers (S : Succession n) : List (Fin n) := S.company S.heir true

theorem length_followers : S.followers.length + 2 = n := by
  have ho := Mesh.length_filter_ne (List.nodup_finRange n) (List.mem_finRange S.heir)
  have hf := Mesh.length_filter_ne (Mesh.nodup_others S.heir) (Mesh.mem_others.2 (Ne.symm heir_ne) : S.host ∈ _)
  rw [List.length_finRange] at ho
  simp only [followers, company, ↓reduceIte, Mesh.others] at ho hf ⊢
  omega

theorem length_company_le (b : Bool) : (S.company S.heir b).length ≤ S.followers.length + 1 := by
  cases b
  · have ho := Mesh.length_filter_ne (List.nodup_finRange n) (List.mem_finRange S.heir)
    have hf := S.length_followers
    rw [List.length_finRange] at ho
    simp only [company, Bool.false_eq_true, ↓reduceIte, Mesh.others]
    omega
  · exact Nat.le_succ _

end Succession
end Parley
