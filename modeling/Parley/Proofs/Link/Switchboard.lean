import Parley.Proofs.Link.Reader
import Parley.Proofs.SortedMap

/-!
# Connections with several hands on them

A hub ends a connection in one go: octets with a fault come in, and it is dropped. In a running node the reader of a
connection works beside those who write to it and those who close it, and any of them may end it. A `Switchboard` keeps them
apart. Whoever ends a connection takes it out of the registry, stops its reader and then reports its end, and each of these is
a step of its own (`Act`). In between everybody else goes on.

A reader works in turns. It can only be stopped between two turns: one that is told to stop during a turn goes on until the
turn is over. A turn is over when the reader has to wait: for octets, for the key, or for the registry.

The acts on one connection are a run of that connection (`Line.Run`), whatever is done to the others (`Run.line`). And a run of
one connection can follow any run (`Run.lift`).
-/

namespace Parley

/-- The connection that an event is about. -/
def HubEvent.connection : HubEvent → ConnectionId
  | accepted id _ => id
  | received id _ => id
  | closed id _ => id

namespace Hub

/-- The fault of a connection that could not be written to. -/
def writeFault (cause : Message.Fault) : Link.Fault := .connectionClosed s!"send failed: {cause.message}"

end Hub

namespace Switchboard

/-! ## One connection -/

/-- How a connection was opened. -/
structure Opening where
  remote : SocketAddress
  mode : LinkMode
  inbound : Bool
  deriving DecidableEq, Repr

/-- What is reported when a connection is opened. -/
def Opening.greeting (o : Opening) (id : ConnectionId) : List HubEvent :=
  if o.inbound then [.accepted id o.remote] else []

/-- Where a connection stands with the registry. -/
inductive Place where
  /-- It is about to be listed. -/
  | entering
  /-- It is listed. -/
  | listed
  /-- It has been taken out. -/
  | out
  deriving DecidableEq, Repr

/-- What a reader does with its time. -/
inductive Activity where
  /-- It waits for its next turn. -/
  | resting
  /-- It has a turn. -/
  | working
  /-- It has a turn, and has been told to stop. -/
  | stopping
  /-- It is no more. -/
  | gone
  deriving DecidableEq, Repr

namespace Activity

/-- Whether a reader has a turn. -/
def isAtWork : Activity → Bool
  | working | stopping => true
  | _ => false

/-- The end of a turn. -/
def rested : Activity → Activity
  | working => resting
  | stopping => gone
  | a => a

/-- A reader that is told to stop does so at once between two turns. -/
def stopped : Activity → Activity
  | resting => gone
  | working => stopping
  | a => a

@[simp] theorem isAtWork_rested (a : Activity) : a.rested.isAtWork = false := by cases a <;> rfl

@[simp] theorem stopped_ne_resting (a : Activity) : a.stopped ≠ resting := by cases a <;> nofun

@[simp] theorem isAtWork_stopped (a : Activity) : a.stopped.isAtWork = a.isAtWork := by cases a <;> rfl

end Activity

/-- What somebody who has taken out a connection has still to do. -/
inductive Errand where
  /-- To stop the reader, and then to report the end, if it is one to report. -/
  | stop (fault : Option Link.Fault)
  /-- To report the end. -/
  | tell (cause : Option Link.Fault)
  deriving DecidableEq, Repr

/-- The end that is reported in the course of an errand, if one is. -/
def Errand.cause? : Errand → Option (Option Link.Fault)
  | stop fault => fault.map some
  | tell c => some c

/-- A connection, its reader, and who has taken it out. -/
structure Line where
  opening : Opening
  place : Place
  reader : Reader
  activity : Activity
  errand : Option Errand
  deriving DecidableEq, Repr

/-- One step of somebody who works with a connection. -/
inductive Act where
  /-- The registry lists the connection. -/
  | enter
  /-- Its reader has a turn. -/
  | wake
  /-- The turn of its reader is over. -/
  | rest
  /-- Its reader reads. -/
  | read (act : Reader.Act)
  /-- Its reader, which has stopped, takes it out. -/
  | drop
  /-- Somebody who could not write to it takes it out. -/
  | fail (cause : Message.Fault)
  /-- Somebody who closes it at this end takes it out. -/
  | close
  /-- Its reader is told to stop. -/
  | abort
  /-- Its end is reported. -/
  | tell
  deriving DecidableEq, Repr

namespace Line

/-- A connection that has just been opened. It is reported before its reader is there, and its reader may read before it is
listed. -/
def start (o : Opening) : Line := ⟨o, .entering, .fresh, .resting, none⟩

/-- What an act does to a connection, and what is reported. Whoever takes a connection out waits until it is listed, and only
the first of them finds it. -/
inductive Step (id : ConnectionId) : Line → Act → Line → List HubEvent → Prop
  | enter {l : Line} (h : l.place = .entering) : Step id l .enter { l with place := .listed } []
  | wake {l : Line} (h : l.activity = .resting) : Step id l .wake { l with activity := .working } []
  | rest {l : Line} (hwork : l.activity.isAtWork = true) (h : l.reader.Waits) :
    Step id l .rest { l with activity := l.activity.rested } []
  | read {l : Line} {a : Reader.Act} {r : Reader} {said : List Envelope} (hwork : l.activity.isAtWork = true)
    (h : Reader.Step l.opening.mode l.reader a r said) :
    Step id l (.read a) { l with reader := r } (said.map (.received id))
  | drop {l : Line} {c : Option Link.Fault} (hwork : l.activity.isAtWork = true) (hstop : l.reader.stage = .stops c)
    (h : l.place = .listed) :
    Step id l .drop { l with place := .out, activity := .gone, errand := some (.tell c) } []
  | miss {l : Line} {c : Option Link.Fault} (hwork : l.activity.isAtWork = true) (hstop : l.reader.stage = .stops c)
    (h : l.place = .out) : Step id l .drop { l with activity := .gone } []
  | fail {l : Line} (cause : Message.Fault) (h : l.place = .listed) :
    Step id l (.fail cause) { l with place := .out, errand := some (.stop (some (Hub.writeFault cause))) } []
  | close {l : Line} (h : l.place = .listed) : Step id l .close { l with place := .out, errand := some (.stop none) } []
  | abort {l : Line} {fault : Option Link.Fault} (h : l.errand = some (.stop fault)) :
    Step id l .abort { l with activity := l.activity.stopped, errand := fault.map fun f => .tell (some f) } []
  | tell {l : Line} {c : Option Link.Fault} (h : l.errand = some (.tell c)) :
    Step id l .tell { l with errand := none } [.closed id c]

/-- A connection after acts, and what was reported meanwhile. -/
inductive Run (id : ConnectionId) (l : Line) : List Act → Line → List HubEvent → Prop
  | refl : Run id l [] l []
  | tail {acts : List Act} {a : Act} {k m : Line} {events more : List HubEvent} (h : Run id l acts k events)
    (hs : Step id k a m more) : Run id l (acts ++ [a]) m (events ++ more)

section Runs

variable {id : ConnectionId} {l k m : Line} {acts bs : List Act} {a : Act} {events more : List HubEvent}

theorem Step.run (h : Step id l a k events) : Run id l [a] k events := .tail .refl h

theorem Run.trans (h : Run id l acts k events) (g : Run id k bs m more) : Run id l (acts ++ bs) m (events ++ more) := by
  induction g with
  | refl => simpa using h
  | tail g hs ih =>
    rw [← List.append_assoc, ← List.append_assoc]
    exact .tail ih hs

/-- The opening of a connection stays. -/
theorem Step.opening_eq (h : Step id l a k events) : k.opening = l.opening := by cases h <;> rfl

theorem Run.opening_eq (h : Run id l acts k events) : k.opening = l.opening := by
  induction h with
  | refl => rfl
  | tail _ hs ih => rw [hs.opening_eq, ih]

/-- What is reported of a connection after its opening is about it. -/
theorem Step.connection_eq (h : Step id l a k events) : ∀ e ∈ events, e.connection = id := by
  cases h with
  | read =>
    simp [HubEvent.connection]
  | tell => simp [HubEvent.connection]
  | _ => simp

/-- What a reader does in a turn. -/
theorem run_read (id : ConnectionId) {r : Reader} {acts : List Reader.Act} {said : List Envelope}
    (hwork : l.activity.isAtWork = true) (h : Reader.Run l.opening.mode l.reader acts r said) :
    Run id l (acts.map .read) { l with reader := r } (said.map (.received id)) := by
  induction h with
  | refl => exact .refl
  | tail _ hs ih =>
    rw [List.map_append, List.map_append]
    exact .tail ih (.read hwork hs)

section Turns

variable {place : Place} {r r' : Reader} {activity : Activity} {errand : Option Errand} {o : Opening} {act : Reader.Act}

/-- A step of a reader by which nothing is reported. -/
theorem Step.silent (hwork : activity.isAtWork = true) (h : Reader.Step o.mode r act r' []) :
    Step id ⟨o, place, r, activity, errand⟩ (.read act) ⟨o, place, r', activity, errand⟩ [] :=
    .read (l := ⟨o, place, r, activity, errand⟩) hwork h

/-- A step of a reader by which a message is reported. -/
theorem Step.spoken {e : Envelope} (hwork : activity.isAtWork = true) (h : Reader.Step o.mode r act r' [e]) :
    Step id ⟨o, place, r, activity, errand⟩ (.read act) ⟨o, place, r', activity, errand⟩ [.received id e] :=
    .read (l := ⟨o, place, r, activity, errand⟩) hwork h

end Turns

end Runs

end Line

/-! ## All connections -/

end Switchboard

/-- All connections that were ever opened, and the room key. -/
structure Switchboard where
  key : Option RoomKey
  lines : SortedMap ConnectionId Switchboard.Line
  deriving DecidableEq, Repr

namespace Switchboard

/-- No connections and no key. -/
def empty : Switchboard := ⟨none, .empty⟩

/-- One step of somebody who works with the connections of a node. Closing all connections is closing one after the other
those that are listed. -/
inductive Move where
  /-- A connection is opened. -/
  | opens (id : ConnectionId) (o : Opening)
  /-- The room key is installed. -/
  | installs (key : RoomKey)
  /-- Something is done to a connection. -/
  | acts (id : ConnectionId) (act : Act)
  deriving DecidableEq, Repr

/-- What a move does, and what is reported. No id is used twice. A frame is opened with the key that is installed then. -/
inductive Step : Switchboard → Move → Switchboard → List HubEvent → Prop
  | opens {s : Switchboard} {id : ConnectionId} (o : Opening) (h : s.lines.get? id = none) :
    Step s (.opens id o) { s with lines := s.lines.insert id (.start o) } (o.greeting id)
  | installs {s : Switchboard} (key : RoomKey) : Step s (.installs key) { s with key := some key } []
  | acts {s : Switchboard} {id : ConnectionId} {l k : Line} {a : Act} {events : List HubEvent}
    (hl : s.lines.get? id = some l) (hkey : ∀ key, a = .read (.decode key) → key = s.key) (h : Line.Step id l a k events) :
    Step s (.acts id a) { s with lines := s.lines.insert id k } events

/-- A switchboard after moves from the start, and what was reported. -/
inductive Run : List Move → Switchboard → List HubEvent → Prop
  | refl : Run [] empty []
  | tail {ms : List Move} {m : Move} {s t : Switchboard} {events more : List HubEvent} (h : Run ms s events)
    (hs : Step s m t more) : Run (ms ++ [m]) t (events ++ more)

/-- What a move does to a connection. -/
def Move.act? (id : ConnectionId) : Move → Option Act
  | acts j a => if j = id then some a else none
  | _ => none

/-- What is done to a connection. -/
def actsOn (id : ConnectionId) (ms : List Move) : List Act := ms.filterMap (Move.act? id)

/-- The events about a connection. -/
def about (id : ConnectionId) (events : List HubEvent) : List HubEvent := events.filter (·.connection = id)

section Lines

variable {id : ConnectionId} {ms : List Move} {s : Switchboard} {events : List HubEvent}

theorem about_eq_self (h : ∀ e ∈ events, e.connection = id) : about id events = events :=
  List.filter_eq_self.2 fun e he => decide_eq_true (h e he)

theorem about_eq_nil {j : ConnectionId} (h : ∀ e ∈ events, e.connection = j) (hj : j ≠ id) : about id events = [] :=
  List.filter_eq_nil_iff.2 fun e he => by simpa [h e he] using hj

theorem connection_greeting (o : Opening) (id : ConnectionId) : ∀ e ∈ o.greeting id, e.connection = id := by
  rw [Opening.greeting]
  split <;> simp [HubEvent.connection]

/-- A connection that was never opened. -/
structure Unopened (id : ConnectionId) (ms : List Move) (events : List HubEvent) : Prop where
  opens : ∀ o, .opens id o ∉ ms
  actsOn_eq : actsOn id ms = []
  about_eq : about id events = []

/-- A connection that was opened once. -/
structure Opened (id : ConnectionId) (ms : List Move) (l : Line) (events : List HubEvent) : Prop where
  opens_iff : ∀ o, .opens id o ∈ ms ↔ o = l.opening
  run : ∃ told, about id events = l.opening.greeting id ++ told ∧ Line.Run id (.start l.opening) (actsOn id ms) l told

/-- A move that is not about the connection. -/
structure Move.Spares (id : ConnectionId) (m : Move) (more : List HubEvent) : Prop where
  opens : ∀ o, m ≠ .opens id o
  act?_eq : m.act? id = none
  about_eq : about id more = []

theorem actsOn_concat (m : Move) : actsOn id (ms ++ [m]) = actsOn id ms ++ (m.act? id).toList := by
  cases h : m.act? id <;> simp [actsOn, h]

theorem about_append (events more : List HubEvent) : about id (events ++ more) = about id events ++ about id more :=
  List.filter_append ..

section Spares

variable {m : Move} {more : List HubEvent} (hm : m.Spares id more)
include hm

theorem Unopened.concat (h : Unopened id ms events) : Unopened id (ms ++ [m]) (events ++ more) where
  opens o ho := by
    rcases List.mem_append.1 ho with ho | ho
    · exact h.opens o ho
    · exact hm.opens o (List.mem_singleton.1 ho).symm
  actsOn_eq := by rw [actsOn_concat, h.actsOn_eq, hm.act?_eq]; rfl
  about_eq := by rw [about_append, h.about_eq, hm.about_eq]; rfl

theorem Opened.concat {l : Line} (h : Opened id ms l events) : Opened id (ms ++ [m]) l (events ++ more) where
  opens_iff o := by
    rw [List.mem_append, List.mem_singleton, h.opens_iff]
    exact or_iff_left (hm.opens o).symm
  run := by
    obtain ⟨told, habout, hrun⟩ := h.run
    refine ⟨told, ?_, ?_⟩
    · rw [about_append, habout, hm.about_eq, List.append_nil]
    · rwa [actsOn_concat, hm.act?_eq, Option.toList_none, List.append_nil]

end Spares

/-- **The acts on one connection are a run of it**, whatever is done to the others. -/
theorem Run.line (h : Run ms s events) (id : ConnectionId) :
    (s.lines.get? id = none → Unopened id ms events) ∧ ∀ l, s.lines.get? id = some l → Opened id ms l events := by
  induction h with
  | refl =>
    have hnone : empty.lines.get? id = none := SortedMap.get?_empty id
    exact ⟨fun _ => ⟨by simp, rfl, rfl⟩, fun l hl => by simp [hnone] at hl⟩
  | @tail ms m s t events more _ hs ih =>
    cases hs with
    | installs key =>
      have hm : (Move.installs key).Spares id [] := ⟨by simp, rfl, rfl⟩
      exact ⟨fun hl => (ih.1 hl).concat hm, fun l hl => (ih.2 l hl).concat hm⟩
    | @opens j o hnone =>
      by_cases hj : j = id
      · subst hj
        have hold := ih.1 hnone
        rw [SortedMap.get?_insert_self]
        refine ⟨by simp, ?_⟩
        rintro _ ⟨⟩
        refine ⟨fun o' => ?_, [], ?_, ?_⟩
        · simp [hold.opens, Line.start]
        · rw [about_append, hold.about_eq, about_eq_self (connection_greeting o j)]
          simp [Line.start]
        · rw [actsOn_concat, hold.actsOn_eq]
          exact .refl
      · have hm : (Move.opens j o).Spares id (o.greeting j) :=
          ⟨by simp [hj], rfl, about_eq_nil (connection_greeting o j) hj⟩
        rw [SortedMap.get?_insert_of_ne _ _ (Ne.symm hj)]
        exact ⟨fun hl => (ih.1 hl).concat hm, fun l hl => (ih.2 l hl).concat hm⟩
    | @acts j l k a more hl _ hstep =>
      by_cases hj : j = id
      · subst hj
        obtain ⟨hopens, told, habout, hrun⟩ := ih.2 l hl
        have hact : (Move.acts j a).act? j = some a := if_pos rfl
        rw [SortedMap.get?_insert_self]
        refine ⟨by simp, ?_⟩
        rintro _ ⟨⟩
        refine ⟨fun o => ?_, told ++ more, ?_, ?_⟩
        · simp [hopens, hstep.opening_eq]
        · rw [about_append, habout, about_eq_self hstep.connection_eq, hstep.opening_eq, List.append_assoc]
        · rw [actsOn_concat, hact, hstep.opening_eq]
          exact .tail hrun hstep
      · have hm : (Move.acts j a).Spares id more := ⟨by simp, if_neg hj, about_eq_nil hstep.connection_eq hj⟩
        rw [SortedMap.get?_insert_of_ne _ _ (Ne.symm hj)]
        exact ⟨fun hl => (ih.1 hl).concat hm, fun l hl => (ih.2 l hl).concat hm⟩

/-- A run of one connection can follow any run, if frames are opened with the key that is installed. -/
theorem Run.lift {l k : Line} {acts : List Act} {told : List HubEvent} (h : Run ms s events)
    (hrun : Line.Run id l acts k told) (hl : s.lines.get? id = some l) (hkey : ∀ key, .read (.decode key) ∈ acts → key = s.key) :
    ∃ t, Run (ms ++ acts.map (.acts id)) t (events ++ told) ∧ t.lines.get? id = some k ∧ t.key = s.key ∧
      ∀ j, j ≠ id → t.lines.get? j = s.lines.get? j := by
  induction hrun with
  | refl => exact ⟨s, by simpa using h, hl, rfl, fun _ _ => rfl⟩
  | @tail acts a k m told more _ hs ih =>
    obtain ⟨t, ht, hk, htkey, hother⟩ := ih fun key hmem => hkey key (List.mem_append_left _ hmem)
    have hkeyed (key : Option RoomKey) (ha : a = .read (.decode key)) : key = t.key := by
      rw [htkey]
      exact hkey key (by simp [ha])
    refine ⟨{ t with lines := t.lines.insert id m }, ?_, SortedMap.get?_insert_self .., htkey, fun j hj => ?_⟩
    · rw [List.map_append, ← List.append_assoc, ← List.append_assoc]
      exact .tail ht (.acts hk hkeyed hs)
    · rw [SortedMap.get?_insert_of_ne _ _ hj, hother j hj]

end Lines

end Switchboard
end Parley
