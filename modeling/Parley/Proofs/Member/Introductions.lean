import Parley.Proofs.Member.Admission
import Parley.Proofs.Member.Reachable

/-!
# Introductions

A host tells its members of everybody who joins, and a member asks for a connection to whomever it is told of. To be told
changes nothing (`Member.Strange.run_announced`): the member ranks somebody once the connection is open, and connections
open in any order (`Member.ranking_run_opened`). So a member ranks those that it was told of in the order in which its
connections to them were opened, and they stand in the order in which they joined exactly if this is the same
(`Member.Strange.ranked_as_opened`).
-/

namespace Parley.Member

/-- Somebody on a connection tells of a member. -/
def announced (id : ConnectionId) (a : Endpoint) (u : Identity) : Input := .received id ⟨a, .userInfo u⟩

/-- The connection to a member that was told of is open. -/
def opened (c : ConnectionId × Identity) : Input := .connected c.1 (.member c.2)

/-- The connections that a member asks for, input by input. -/
def calls (m : Member) : List Input → List (SocketAddress × Role)
  | [] => []
  | i :: is => (m.effectsOf i).filterMap Effect.call? ++ (m.after i).calls is

/-- Different users, none of which the member is, ranks, or is connected to. -/
structure Strange (m : Member) (us : List Identity) : Prop where
  nodup : (us.map Identity.addr).Nodup
  others : ∀ u ∈ us, u.addr ≠ m.me.addr
  unranked : ∀ u ∈ us, u.addr ∉ m.ranking.order
  unmet : ∀ u ∈ us, m.peers.find? u.addr = none

variable {m : Member} {us : List Identity} {u : Identity} {cs : List (ConnectionId × Identity)}

theorem Strange.of_cons (h : m.Strange (u :: us)) : m.Strange us where
  nodup := (List.nodup_cons.1 h.nodup).2
  others v hv := h.others v (List.mem_cons_of_mem u hv)
  unranked v hv := h.unranked v (List.mem_cons_of_mem u hv)
  unmet v hv := h.unmet v (List.mem_cons_of_mem u hv)

/-- A member that is told of strangers asks for connections to them, in the order in which it is told, and stays as it is. -/
theorem Strange.run_announced (h : m.Strange us) (id : ConnectionId) (a : Endpoint) :
    m.run (us.map (announced id a)) = m ∧
      m.calls (us.map (announced id a)) = us.map fun u => (.v4 u.addr, .member u) := by
  induction us with
  | nil => exact ⟨rfl, rfl⟩
  | cons u us ih =>
    have hstep : m.step (announced id a u) = _ :=
      step_userInfo (h.others u List.mem_cons_self) (h.unmet u List.mem_cons_self)
    have hafter : m.after (announced id a u) = m := by rw [after, hstep]
    have hcall : (m.effectsOf (announced id a u)).filterMap Effect.call? = [(.v4 u.addr, .member u)] := by
      rw [effectsOf, hstep]
      rfl
    obtain ⟨hrun, hcalls⟩ := ih h.of_cons
    constructor
    · rw [List.map_cons, run, List.foldl_cons, hafter]
      exact hrun
    · rw [List.map_cons, calls, hafter, hcall, hcalls]
      rfl

/-- Connections to users that are not ranked rank them, in the order in which they are opened. -/
theorem ranking_run_opened (hn : ((cs.map Prod.snd).map Identity.addr).Nodup)
    (hr : ∀ u ∈ cs.map Prod.snd, u.addr ∉ m.ranking.order) :
    (m.run (cs.map opened)).ranking.users = m.ranking.users ++ cs.map Prod.snd := by
  induction cs generalizing m with
  | nil => exact (List.append_nil _).symm
  | cons c cs ih =>
    rw [List.map_cons] at hn hr
    obtain ⟨hc, hcs⟩ := List.nodup_cons.1 hn
    have hnew : c.2.addr ∉ m.ranking.order := hr c.2 List.mem_cons_self
    have husers : (m.after (opened c)).ranking.users = m.ranking.users ++ [c.2] :=
      Ranking.users_push fun v hv heq => hnew (heq ▸ List.mem_map_of_mem hv)
    have horder : (m.after (opened c)).ranking.order = m.ranking.order ++ [c.2.addr] := by
      rw [Ranking.order, husers, List.map_append]
      rfl
    have hrest : ∀ u ∈ cs.map Prod.snd, u.addr ∉ (m.after (opened c)).ranking.order := by
      intro u hu
      rw [horder, List.mem_append, List.mem_singleton, not_or]
      exact ⟨hr u (List.mem_cons_of_mem _ hu), fun heq => hc (heq ▸ List.mem_map_of_mem hu)⟩
    have hrun : m.run ((c :: cs).map opened) = (m.after (opened c)).run (cs.map opened) := rfl
    rw [hrun, ih hcs hrest, husers, List.append_assoc]
    rfl

/-- **Those that a member is told of are ranked as the connections to them are opened.** A member is told of strangers, one
after the other, and asks for connections to them in this order. Once each of them is open, the strangers stand in its
ranking behind those that it ranked before, in the order in which the connections were opened. This is the order in which
they were announced exactly if the connections were opened in that order. -/
theorem Strange.ranked_as_opened (h : m.Strange us) (id : ConnectionId) (a : Endpoint) (hp : (cs.map Prod.snd).Perm us) :
    m.calls (us.map (announced id a)) = us.map (fun u => (.v4 u.addr, .member u)) ∧
      (m.run (us.map (announced id a) ++ cs.map opened)).ranking.users = m.ranking.users ++ cs.map Prod.snd ∧
      ((m.run (us.map (announced id a) ++ cs.map opened)).ranking.users = m.ranking.users ++ us ↔ cs.map Prod.snd = us) := by
  obtain ⟨hrun, hcalls⟩ := h.run_announced id a
  have hsplit : m.run (us.map (announced id a) ++ cs.map opened) = (m.run (us.map (announced id a))).run (cs.map opened) :=
    List.foldl_append
  have husers : (m.run (us.map (announced id a) ++ cs.map opened)).ranking.users = m.ranking.users ++ cs.map Prod.snd := by
    rw [hsplit, hrun]
    exact ranking_run_opened ((hp.map _).nodup_iff.2 h.nodup) fun u hu => h.unranked u (hp.subset hu)
  refine ⟨hcalls, husers, ?_⟩
  rw [husers, List.append_cancel_left_eq]

/-- Ann hosts a room, and tells dee of bob and then of cyd. The connection to cyd is open first. -/
theorem ranked_as_opened_overtaken :
    let ann : Identity := ⟨"ann", ⟨.loopback, 7001⟩⟩
    let bob : Identity := ⟨"bob", ⟨.loopback, 7002⟩⟩
    let cyd : Identity := ⟨"cyd", ⟨.loopback, 7003⟩⟩
    let dee : Identity := ⟨"dee", ⟨.loopback, 7004⟩⟩
    let m := (outside dee (.v4 ⟨.loopback, 7000⟩)).run [.join ⟨RoomKey.zeroBlock⟩, .connected 1 (.roomHost ann)]
    m.Strange [bob, cyd] ∧ m.ranking.users = [dee, ann] ∧
      (m.run ([bob, cyd].map (announced 1 ann.addr) ++ [(3, cyd), (2, bob)].map opened)).ranking.users =
        [dee, ann, cyd, bob] := by
  intro ann bob cyd dee m
  have h : m.Strange [bob, cyd] := ⟨by decide, by decide, by decide, by decide⟩
  have hp : ([(3, cyd), (2, bob)].map Prod.snd : List Identity).Perm [bob, cyd] := .swap ..
  obtain ⟨-, husers, -⟩ := h.ranked_as_opened 1 ann.addr hp
  exact ⟨h, rfl, husers⟩

/-- So a member of a room need not rank newcomers in the order in which its host tells of them. -/
theorem overtaken_ranked_apart :
    ¬ ∀ (m : Member) (id : ConnectionId) (host : Identity) (us : List Identity) (cs : List (ConnectionId × Identity)),
      m.Reachable → m.inRoom = true → m.isHost = false → m.peers.get? id = some host → m.host = some host.addr →
      m.Strange us → (cs.map Prod.snd).Perm us → (cs.map Prod.fst).Nodup → (∀ c ∈ cs, c.1 ∉ m.peers.ids) →
      (m.run (us.map (announced id host.addr) ++ cs.map opened)).ranking.users = m.ranking.users ++ us := by
  intro h
  let ann : Identity := ⟨"ann", ⟨.loopback, 7001⟩⟩
  let bob : Identity := ⟨"bob", ⟨.loopback, 7002⟩⟩
  let cyd : Identity := ⟨"cyd", ⟨.loopback, 7003⟩⟩
  let m := (outside ⟨"dee", ⟨.loopback, 7004⟩⟩ (.v4 ⟨.loopback, 7000⟩)).run
    [.join ⟨RoomKey.zeroBlock⟩, .connected 1 (.roomHost ann)]
  have husers := h m 1 ann [bob, cyd] [(3, cyd), (2, bob)] ((Reachable.outside _ _).run _) rfl rfl rfl rfl
    ⟨by decide, by decide, by decide, by decide⟩ (.swap ..) (by decide) (by decide)
  exact absurd husers (by decide)

end Parley.Member
