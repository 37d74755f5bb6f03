import Mathlib.Data.List.Infix
import Mathlib.Data.List.TakeWhile
import Parley.Proofs.Frame.Codec
import Parley.Proofs.Link.Switchboard

/-!
# Reports of connections

What is reported of a connection, whatever the steps of a run are and in whatever order they come (`events_accounted`). If it
was opened from the other end, that comes first. Then come the messages of its stream, one for each frame, up to the first
frame that does not open. Its end is reported at most once, and not if it was closed here. The connections that are listed are
those of which no end is reported or about to be reported and that were not closed here.

The end of a connection is the last that is reported of it if whoever takes it out does so between two turns of its reader
(`Apart`). A reader that has a turn cannot be stopped: it goes on while its connection is taken out, and what it has in hand is
reported after the end (`message_after_end`).
-/

namespace Parley.Switchboard

variable {id : ConnectionId} {o : Opening} {l k m : Line} {acts bs : List Act} {a : Act} {told more : List HubEvent}

/-! ## What was done to a connection -/

/-- What its reader did. -/
def reads (acts : List Act) : List Reader.Act :=
  acts.filterMap fun
    | .read a => some a
    | _ => none

/-- Whether somebody takes the connection out by an act. A reader that comes too late does not. -/
def Act.takesOut : Act → Bool
  | drop | fail _ | close => true
  | _ => false

/-- The acts before the connection is taken out. -/
def life (acts : List Act) : List Act := acts.takeWhile fun a => !a.takesOut

/-- The act by which the connection is taken out. -/
def exit? (acts : List Act) : Option Act := acts.find? Act.takesOut

/-- Whether the reader has a turn. -/
def hasTurn (acts : List Act) : Bool :=
  acts.foldl (fun on a => match a with
    | .wake => true
    | .rest | .drop => false
    | _ => on) false

/-- Whether somebody else has taken the connection out, and has not told the reader to stop. -/
def isLeaving (acts : List Act) : Bool :=
  acts.foldl (fun on a => match a with
    | .fail _ | .close => true
    | .abort => false
    | _ => on) false

/-- Whoever takes the connection out does so, and stops its reader, between two turns of the reader. -/
def Apart (acts : List Act) : Prop := ∀ before ∈ acts.inits, hasTurn before = true → isLeaving before = false

instance (acts : List Act) : Decidable (Apart acts) := by
  unfold Apart
  infer_instance

theorem Apart.of_append (h : Apart (acts ++ bs)) : Apart acts := fun before hbefore =>
  h before ((List.mem_inits ..).2 (((List.mem_inits ..).1 hbefore).trans (List.prefix_append ..)))

/-- The messages in the frames that the reader has opened, up to the first that does not open. -/
def messages (mode : LinkMode) (acts : List Act) : List Envelope := (Reader.opened mode (reads acts)).1

/-- What is to be reported of the end of a connection that is taken out by an act: why its reader stopped, or that it could not
be written to. -/
inductive Ending (mode : LinkMode) (acts : List Act) : Act → Option (Option Link.Fault) → Prop
  | drop {c : Option Link.Fault} (h : Reader.Stops mode (reads acts) c) : Ending mode acts .drop (some c)
  | fail (cause : Message.Fault) : Ending mode acts (.fail cause) (some (some (Hub.writeFault cause)))
  | close : Ending mode acts .close none

/-- An end that is still to be reported. -/
def Line.isDue (l : Line) : Bool :=
  match l.errand with
  | some (.stop (some _)) | some (.tell _) => true
  | _ => false

/-- The messages in events. -/
def heard (events : List HubEvent) : List Envelope :=
  events.filterMap fun
    | .received _ e => some e
    | _ => none

theorem reads_append (acts bs : List Act) : reads (acts ++ bs) = reads acts ++ reads bs := List.filterMap_append

theorem heard_append (events more : List HubEvent) : heard (events ++ more) = heard events ++ heard more :=
  List.filterMap_append

theorem heard_received (id : ConnectionId) (es : List Envelope) : heard (es.map (.received id)) = es := by
  simp [heard, List.filterMap_map]

/-! ## Runs -/

namespace Line

/-- A run can be cut anywhere. -/
theorem Run.split (h : Run id l (acts ++ bs) k told) :
    ∃ m first last, Run id l acts m first ∧ Run id m bs k last ∧ told = first ++ last := by
  induction bs using List.reverseRecOn generalizing k told with
  | nil => exact ⟨k, told, [], by simpa using h, .refl, by simp⟩
  | append_singleton bs b ih =>
    rw [← List.append_assoc] at h
    generalize hall : acts ++ bs ++ [b] = all at h
    cases h with
    | refl => simp at hall
    | tail h hs =>
      obtain ⟨rfl, hb⟩ := List.append_inj' hall rfl
      obtain rfl := List.singleton_inj.1 hb
      obtain ⟨m, first, last, hfirst, hlast, rfl⟩ := ih h
      exact ⟨m, first, _, hfirst, hlast.tail hs, List.append_assoc ..⟩

theorem Run.step (h : Run id l [a] k told) : Step id l a k told := by
  generalize hacts : [a] = acts at h
  cases h with
  | refl => simp at hacts
  | tail h hs =>
    obtain ⟨rfl, ha⟩ := List.append_inj' ((List.nil_append [a]).trans hacts) rfl
    obtain rfl := List.singleton_inj.1 ha
    generalize hnil : [] = bs at h
    cases h with
    | refl => exact hs
    | tail => simp at hnil

/-- What a reader does on a connection is a run of the reader. -/
theorem Step.reader (h : Step id l a k told) : Reader.Run l.opening.mode l.reader (reads [a]) k.reader (heard told) := by
  cases h with
  | read _ h =>
    rw [heard_received]
    exact h.run
  | _ => exact .refl

theorem Run.reader (h : Run id l acts k told) : Reader.Run l.opening.mode l.reader (reads acts) k.reader (heard told) := by
  induction h with
  | refl => exact .refl
  | tail h hs ih =>
    rw [reads_append, heard_append]
    exact ih.trans (h.opening_eq ▸ hs.reader)

/-- A reader between two turns has to wait for something. -/
theorem Run.waits (h : Run id (start o) acts l told) (hl : l.activity = .resting) : l.reader.Waits := by
  induction h with
  | refl => rfl
  | tail _ hs ih =>
    cases hs with
    | enter | fail | close | tell => exact ih hl
    | wake | drop | miss => simp at hl
    | rest _ hwaits => exact hwaits
    | read hwork => exact absurd (hwork.symm.trans (congrArg Activity.isAtWork hl)) (by decide)
    | abort => exact absurd hl (Activity.stopped_ne_resting _)

/-! ## Before a connection is taken out -/

/-- A connection that nobody has taken out, and the events about it since its opening. -/
structure IsOpen (id : ConnectionId) (acts : List Act) (l : Line) (told : List HubEvent) : Prop where
  place : l.place = if .enter ∈ acts then .listed else .entering
  errand : l.errand = none
  activity : l.activity = .resting ∨ l.activity = .working
  told_eq : told = (heard told).map (.received id)

theorem Step.isOpen (h : Step id l a k more) (hl : IsOpen id acts l told) (ha : a.takesOut = false) :
    IsOpen id (acts ++ [a]) k (told ++ more) := by
  obtain ⟨hplace, herrand, hactivity, htold⟩ := hl
  have hkept (hne : a ≠ .enter) : l.place = if .enter ∈ acts ++ [a] then .listed else .entering := by
    simpa [Ne.symm hne] using hplace
  have hsilent : told ++ [] = (heard (told ++ [])).map (.received id) := by rwa [List.append_nil]
  cases h with
  | enter h => exact ⟨by simp, herrand, hactivity, hsilent⟩
  | wake => exact ⟨hkept (by simp), herrand, .inr rfl, hsilent⟩
  | rest =>
    refine ⟨hkept (by simp), herrand, .inl ?_, hsilent⟩
    rcases hactivity with h | h <;> rw [h] <;> rfl
  | read =>
    refine ⟨hkept (by simp), herrand, hactivity, ?_⟩
    rw [heard_append, heard_received, List.map_append, ← htold]
  | drop | miss | fail | close => contradiction
  | abort h | tell h => simp [herrand] at h

theorem Run.isOpen (h : Run id (start o) acts l told) (hacts : ∀ a ∈ acts, a.takesOut = false) : IsOpen id acts l told := by
  induction h with
  | refl => exact ⟨rfl, rfl, .inl rfl, rfl⟩
  | tail _ hs ih =>
    rw [List.forall_mem_append, List.forall_mem_singleton] at hacts
    exact hs.isOpen (ih hacts.1) hacts.2

/-! ## After it -/

/-- What is left of a connection that has been taken out by somebody with an errand. -/
inductive Aftermath : Errand → Activity → Option Errand → Option (Option Link.Fault) → Prop
  /-- The reader has not been told to stop. -/
  | stop {fault : Option Link.Fault} {activity : Activity} : Aftermath (.stop fault) activity (some (.stop fault)) none
  /-- The end is still to be reported. -/
  | tell {e : Errand} {c : Option Link.Fault} {activity : Activity} (he : e.cause? = some c)
    (h : activity = .stopping ∨ activity = .gone) : Aftermath e activity (some (.tell c)) none
  /-- Nothing is left to do. -/
  | done {e : Errand} {activity : Activity} (h : activity = .stopping ∨ activity = .gone) :
    Aftermath e activity none e.cause?

/-- A connection that has been taken out by somebody with an errand, and the events about it since then. -/
structure IsOut (id : ConnectionId) (e : Errand) (l : Line) (told : List HubEvent) (between late : List Envelope)
    (closing : Option (Option Link.Fault)) : Prop where
  place : l.place = .out
  aftermath : Aftermath e l.activity l.errand closing
  told_eq : told = between.map (.received id) ++ closing.toList.map (.closed id) ++ late.map (.received id)
  late_eq : closing = none → late = []

theorem Aftermath.wake {e : Errand} {errand : Option Errand} {closing : Option (Option Link.Fault)}
    (h : Aftermath e .resting errand closing) : Aftermath e .working errand closing := by
  cases h with
  | stop => exact .stop
  | tell _ h | done h => simp at h

/-- A reader that is stopping or gone stays so. -/
theorem Aftermath.change {e : Errand} {activity activity' : Activity} {errand : Option Errand}
    {closing : Option (Option Link.Fault)} (h : Aftermath e activity errand closing)
    (hnext : activity = .stopping ∨ activity = .gone → activity' = .stopping ∨ activity' = .gone) :
    Aftermath e activity' errand closing := by
  cases h with
  | stop => exact .stop
  | tell he h => exact .tell he (hnext h)
  | done h => exact .done (hnext h)

theorem Aftermath.abort {e : Errand} {activity : Activity} {fault : Option Link.Fault} {closing : Option (Option Link.Fault)}
    (h : Aftermath e activity (some (.stop fault)) closing) :
    Aftermath e activity.stopped (fault.map fun f => .tell (some f)) closing := by
  have hstopped : activity.stopped = .stopping ∨ activity.stopped = .gone := by cases activity <;> simp [Activity.stopped]
  cases h with
  | stop =>
    cases fault with
    | none => exact .done hstopped
    | some f => exact .tell rfl hstopped

theorem Step.isOut {e : Errand} {between late : List Envelope} {closing : Option (Option Link.Fault)}
    (h : Step id l a k more) (hl : IsOut id e l told between late closing) :
    ∃ between late closing, IsOut id e k (told ++ more) between late closing := by
  obtain ⟨hplace, hafter, htold, hlate⟩ := hl
  have hsilent : told ++ [] = between.map (.received id) ++ closing.toList.map (.closed id) ++ late.map (.received id) := by
    rwa [List.append_nil]
  cases h with
  | enter h | drop _ _ h | fail _ h | close h => simp [hplace] at h
  | wake h => exact ⟨between, late, closing, hplace, (h ▸ hafter).wake, hsilent, hlate⟩
  | rest =>
    refine ⟨between, late, closing, hplace, hafter.change ?_, hsilent, hlate⟩
    rintro (h | h) <;> simp [h, Activity.rested]
  | miss => exact ⟨between, late, closing, hplace, hafter.change fun _ => .inr rfl, hsilent, hlate⟩
  | @read _ _ said =>
    cases closing with
    | none =>
      obtain rfl := hlate rfl
      refine ⟨between ++ said, [], none, hplace, hafter, ?_, fun _ => rfl⟩
      simp [htold]
    | some c =>
      refine ⟨between, late ++ said, some c, hplace, hafter, ?_, by simp⟩
      simp [htold]
  | @abort fault h => exact ⟨between, late, closing, hplace, (h ▸ hafter).abort, hsilent, hlate⟩
  | @tell c h =>
    rw [h] at hafter
    cases hafter with
    | tell he hgone =>
      obtain rfl := hlate rfl
      refine ⟨between, [], some c, hplace, ?_, ?_, by simp⟩
      · rw [← he]
        exact .done hgone
      · simp [htold]

theorem Run.isOut {e : Errand} (h : Run id l acts k told) (hplace : l.place = .out) (he : l.errand = some e)
    (hgone : ∀ c, e = .tell c → l.activity = .gone) :
    ∃ between late closing, IsOut id e k told between late closing := by
  induction h with
  | refl =>
    refine ⟨[], [], none, hplace, ?_, rfl, fun _ => rfl⟩
    rw [he]
    cases e with
    | stop fault => exact .stop
    | tell c => exact .tell rfl (.inr (hgone c rfl))
  | tail _ hs ih =>
    obtain ⟨between, late, closing, hk⟩ := ih
    exact hs.isOut hk

/-- A reader that is gone does nothing. -/
theorem Run.gone (h : Run id l acts k told) (hl : l.activity = .gone) : k.activity = .gone ∧ reads acts = [] := by
  induction h with
  | refl => exact ⟨hl, rfl⟩
  | tail _ hs ih =>
    obtain ⟨hgone, hreads⟩ := ih
    rw [reads_append, hreads]
    cases hs with
    | wake h => simp [hgone] at h
    | rest hwork | read hwork | drop hwork | miss hwork => simp [hgone, Activity.isAtWork] at hwork
    | enter | fail | close | tell => exact ⟨hgone, rfl⟩
    | abort => exact ⟨by simp [hgone, Activity.stopped], rfl⟩

/-! ## The moment in between -/

/-- A connection is taken out, by somebody who then has an errand. -/
inductive Taken (k : Line) : Act → Line → Errand → Prop
  | drop {c : Option Link.Fault} (h : k.reader.stage = .stops c) :
    Taken k .drop { k with place := .out, activity := .gone, errand := some (.tell c) } (.tell c)
  | fail (cause : Message.Fault) :
    Taken k (.fail cause) { k with place := .out, errand := some (.stop (some (Hub.writeFault cause))) }
      (.stop (some (Hub.writeFault cause)))
  | close : Taken k .close { k with place := .out, errand := some (.stop none) } (.stop none)

theorem Step.taken (h : Step id k a m more) (ha : a.takesOut = true) (hk : k.place ≠ .out) :
    more = [] ∧ ∃ e, Taken k a m e := by
  cases h with
  | drop _ h => exact ⟨rfl, _, .drop h⟩
  | miss _ _ h => exact absurd h hk
  | fail cause => exact ⟨rfl, _, .fail cause⟩
  | close => exact ⟨rfl, _, .close⟩
  | _ => contradiction

theorem IsOpen.place_ne (h : IsOpen id acts l told) : l.place ≠ .out := by
  rw [h.place]
  split <;> simp

/-- A connection is open all the time, or it is open until somebody takes it out. -/
theorem Run.story (h : Run id (start o) acts l told) :
    exit? acts = none ∧ IsOpen id acts l told ∨
      ∃ a rest k m e first last, acts = life acts ++ a :: rest ∧ exit? acts = some a ∧ told = first ++ last ∧
        Run id (start o) (life acts) k first ∧ IsOpen id (life acts) k first ∧ Step id k a m [] ∧ Taken k a m e ∧
        Run id m rest l last := by
  cases hexit : exit? acts with
  | none => exact .inl ⟨rfl, h.isOpen (by simpa [exit?] using hexit)⟩
  | some a =>
    obtain ⟨ha, before, rest, rfl, hbefore⟩ := List.find?_eq_some_iff_append.1 hexit
    have hlife : life (before ++ a :: rest) = before := by
      rw [life, List.takeWhile_append_of_pos hbefore, List.takeWhile_cons_of_neg (by simpa using ha), List.append_nil]
    obtain ⟨k, first, _, hfirst, hrest, rfl⟩ := h.split
    rw [← List.singleton_append] at hrest
    obtain ⟨m, _, last, hstep, hlast, rfl⟩ := hrest.split
    have hopen := hfirst.isOpen (by simpa using hbefore)
    obtain ⟨rfl, e, htaken⟩ := hstep.step.taken ha hopen.place_ne
    rw [hlife]
    exact .inr ⟨a, rest, k, m, e, first, last, rfl, rfl, rfl, hfirst, hopen, hstep.step, htaken, hlast⟩

/-! ## Taking a connection out between two turns -/

theorem Run.hasTurn_eq (h : Run id (start o) acts l told) : hasTurn acts = l.activity.isAtWork := by
  induction h with
  | refl => rfl
  | tail _ hs ih =>
    rw [hasTurn, List.foldl_append, ← hasTurn, ih]
    cases hs with
    | rest => exact (Activity.isAtWork_rested _).symm
    | abort => exact (Activity.isAtWork_stopped _).symm
    | _ => rfl

theorem Run.isLeaving_eq_true (h : Run id (start o) acts l told) {fault : Option Link.Fault}
    (he : l.errand = some (.stop fault)) : isLeaving acts = true := by
  induction h with
  | refl => simp [start] at he
  | tail _ hs ih =>
    rw [isLeaving, List.foldl_append, ← isLeaving]
    cases hs with
    | fail | close => rfl
    | abort => simp at he
    | drop | tell => simp at he
    | enter | wake | rest | read | miss => exact ih he

/-- Whoever takes out a connection between two turns does not meet its reader at work. -/
theorem Run.rests (h : Run id (start o) acts l told) (hapart : Apart acts) {fault : Option Link.Fault}
    (he : l.errand = some (.stop fault)) : l.activity.isAtWork = false := by
  rw [← h.hasTurn_eq, Bool.eq_false_iff]
  intro hturn
  have hleaving := hapart acts ((List.mem_inits ..).2 List.prefix_rfl) hturn
  rw [h.isLeaving_eq_true he] at hleaving
  contradiction

/-- A connection that has been taken out between two turns of its reader, which waits to be told to stop or is gone. -/
structure Calm (l : Line) : Prop where
  place : l.place = .out
  activity : l.activity = .gone ∨ l.activity = .resting ∧ ∃ fault, l.errand = some (.stop fault)

theorem Calm.isAtWork_eq (h : l.Calm) : l.activity.isAtWork = false := by
  rcases h.activity with h | ⟨h, -⟩ <;> rw [h] <;> rfl

theorem Run.calm (h₀ : Run id (start o) acts m told) (h : Run id m bs l more) (hapart : Apart (acts ++ bs)) (hm : m.Calm) :
    l.Calm ∧ reads bs = [] := by
  induction h with
  | refl => exact ⟨hm, rfl⟩
  | @tail bs b k l events more h hs ih =>
    rw [← List.append_assoc] at hapart
    obtain ⟨hk, hreads⟩ := ih hapart.of_append
    have hrun := (h₀.trans h).tail hs
    rw [reads_append, hreads]
    cases hs with
    | rest hwork | read hwork | drop hwork | miss hwork => simp [hk.isAtWork_eq] at hwork
    | enter h | fail _ h | close h => simp [hk.place] at h
    | wake h =>
      -- the reader does not get another turn before it is told to stop
      obtain ⟨-, fault, he⟩ := hk.activity.resolve_left (by simp [h])
      have hrests := hrun.rests hapart he
      contradiction
    | abort =>
      refine ⟨⟨hk.place, .inl ?_⟩, rfl⟩
      rcases hk.activity with h | ⟨h, -⟩ <;> simp [h, Activity.stopped]
    | tell h =>
      refine ⟨⟨hk.place, .inl (hk.activity.resolve_right ?_)⟩, rfl⟩
      rintro ⟨-, fault, he⟩
      simp [he] at h

theorem Taken.place_eq {e : Errand} (h : Taken k a m e) : m.place = .out := by cases h <;> rfl

theorem Taken.errand_eq {e : Errand} (h : Taken k a m e) : m.errand = some e := by cases h <;> rfl

theorem Taken.activity_eq {e : Errand} (h : Taken k a m e) : ∀ c, e = .tell c → m.activity = .gone := by
  cases h with
  | drop => exact fun _ _ => rfl
  | fail | close => simp

theorem Taken.reads_cons {e : Errand} (h : Taken k a m e) (rest : List Act) : reads (a :: rest) = reads rest := by
  cases h <;> rfl

/-- Taken out between two turns, a connection has no message in hand. -/
theorem Taken.calm {e : Errand} (h : Taken k a m e) (hk : IsOpen id acts k told) (hwaits : k.activity = .resting → k.reader.Waits)
    (hrests : ∀ fault, m.errand = some (.stop fault) → m.activity.isAtWork = false) : m.Calm ∧ k.reader.inHand = [] := by
  have hrest (hwork : k.activity.isAtWork = false) : k.activity = .resting ∧ k.reader.inHand = [] := by
    have hresting : k.activity = .resting := hk.activity.resolve_right fun h => by simp [h, Activity.isAtWork] at hwork
    exact ⟨hresting, Reader.inHand_of_waits (hwaits hresting)⟩
  cases h with
  | drop h => exact ⟨⟨rfl, .inl rfl⟩, by simp [Reader.inHand, h]⟩
  | fail cause =>
    obtain ⟨h, hnone⟩ := hrest (hrests _ rfl)
    exact ⟨⟨rfl, .inr ⟨h, _, rfl⟩⟩, hnone⟩
  | close =>
    obtain ⟨h, hnone⟩ := hrest (hrests _ rfl)
    exact ⟨⟨rfl, .inr ⟨h, _, rfl⟩⟩, hnone⟩

end Line

/-! ## The account of a connection -/

/-- What was done to a connection, what became of it and what was reported of it: the messages `said` before it was taken out,
those that the reader had `between` that and the report of the end, and those that came `late`; the end that was reported is
`closing`. -/
structure Account (id : ConnectionId) (acts : List Act) (l : Line) (told : List HubEvent)
    (said between late : List Envelope) (closing : Option (Option Link.Fault)) : Prop where
  /-- First whoever has connected is announced; then come messages; there is at most one end. -/
  told_eq : told = l.opening.greeting id ++ (said ++ between).map (.received id) ++ closing.toList.map (.closed id) ++
    late.map (.received id)
  /-- What is reported is what the frames say, one message for each and in order, up to the first that does not open. -/
  messages_eq : said ++ between ++ late ++ l.reader.inHand = messages l.opening.mode acts
  /-- So it is when the connection is taken out, but for a message that the reader has in hand. -/
  said_eq : ∃ inHand : List Envelope, inHand.length ≤ 1 ∧ said ++ inHand = messages l.opening.mode (life acts)
  /-- Nothing comes after its end on a connection that is not taken out, or that its reader takes out. -/
  strays : exit? acts = none ∨ exit? acts = some .drop → between = [] ∧ late = []
  late_eq : closing = none → late = []
  /-- The reader stops at a frame that does not open. -/
  refused : ∀ e, (Reader.opened l.opening.mode (reads acts)).2 = some e → l.reader.stage = .stops (some e)
  /-- A reader that rests in front of the next frame has opened all frames, and found no fault. -/
  all_opened : l.activity = .resting → l.reader.stage = .reads →
    (Reader.keys (reads acts)).length = (Reader.batch (reads acts)).frames.length ∧ (Reader.batch (reads acts)).fault = none
  /-- The connection of a reader that is no more has been taken out. -/
  gone : l.activity = .gone → l.place = .out
  /-- The end that is reported is that of whoever took the connection out. It is none if somebody closed it here. -/
  closing_eq : ∀ c, closing = some c → ∃ a, exit? acts = some a ∧ Ending l.opening.mode (life acts) a (some c)
  /-- A connection is listed from its opening until its end is reported or about to be reported, or it is closed here. -/
  isListed_iff : l.place = .listed ↔ .enter ∈ acts ∧ closing = none ∧ exit? acts ≠ some .close ∧ l.isDue = false

namespace Line

/-- What is to be reported of the end, if anything is. -/
theorem Taken.ending {e : Errand} (h : Taken k a m e) {mode : LinkMode}
    (hstop : ∀ c, k.reader.stage = .stops c → Reader.Stops mode (reads acts) c) : Ending mode acts a e.cause? := by
  cases h with
  | drop h => exact .drop (hstop _ h)
  | fail cause => exact .fail cause
  | close => exact .close

theorem Aftermath.cause?_eq {e : Errand} {activity : Activity} {errand : Option Errand} {closing : Option (Option Link.Fault)}
    (h : Aftermath e activity errand closing) : ∀ c, closing = some c → e.cause? = some c := by
  cases h with
  | stop | tell => simp
  | done => exact fun _ hc => hc

/-- Only somebody who has closed a connection here has no end to report. -/
theorem Taken.close_of_silent {e : Errand} (h : Taken k a m e) {closing : Option (Option Link.Fault)}
    (hl : Aftermath e l.activity l.errand closing) (hclosing : closing = none) (hdue : l.isDue = false) : a = .close := by
  unfold isDue at hdue
  generalize l.errand = errand at hl hdue
  cases hl with
  | @stop fault =>
    cases fault with
    | none =>
      cases h
      rfl
    | some f => simp at hdue
  | tell => simp at hdue
  | done =>
    cases h with
    | drop | fail => simp [Errand.cause?] at hclosing
    | close => rfl

/-- **The account of a connection.** -/
theorem Run.account (h : Run id (start o) acts l told) :
    ∃ said between late closing, Account id acts l (o.greeting id ++ told) said between late closing ∧
      (Apart acts → between = [] ∧ late = [] ∧ messages o.mode acts = messages o.mode (life acts)) := by
  obtain rfl : l.opening = o := h.opening_eq
  obtain ⟨done, p⟩ := Reader.Run.progress h.reader
  have hmessages : heard told ++ l.reader.inHand = messages l.opening.mode acts := p.said_eq.symm
  have hopened (hresting : l.activity = .resting) (hstage : l.reader.stage = .reads) :=
    p.all_opened hstage (h.waits hresting)
  rcases h.story with ⟨hexit, hl⟩ |
    ⟨a, rest, k, m, e, first, last, hacts, hexit, rfl, hfirst, hk, hstep, htaken, hlast⟩
  · have hlife : life acts = acts := List.takeWhile_eq_self_iff.2 (by simpa [exit?] using hexit)
    refine ⟨heard told, [], [], none, ?_, fun _ => ⟨rfl, rfl, by rw [hlife]⟩⟩
    refine ⟨?_, ?_, ?_, fun _ => ⟨rfl, rfl⟩, fun _ => rfl, p.refused, hopened, ?_, by simp, ?_⟩
    · simpa using hl.told_eq
    · simpa using hmessages
    · exact ⟨l.reader.inHand, Reader.length_inHand_le _, by rw [hlife, hmessages]⟩
    · rcases hl.activity with h | h <;> simp [h]
    · simp [hl.place, hexit, isDue, hl.errand]
  · obtain ⟨done', q⟩ := Reader.Run.progress hfirst.reader
    obtain ⟨between, late, closing, hl⟩ := hlast.isOut htaken.place_eq htaken.errand_eq htaken.activity_eq
    have hlater : heard last = between ++ late := by
      have hends : heard (closing.toList.map (.closed id)) = [] := by cases closing <;> rfl
      rw [hl.told_eq, heard_append, heard_append, heard_received, heard_received, hends, List.append_nil]
    have hsilent (hreads : reads rest = []) : between = [] ∧ late = [] := by
      have hrun := hlast.reader
      rw [hreads] at hrun
      rw [← List.append_eq_nil_iff, ← hlater, hrun.said_eq_nil]
    refine ⟨heard first, between, late, closing, ?_, fun hapart => ?_⟩
    · refine ⟨?_, ?_, ?_, ?_, hl.late_eq, p.refused, hopened, fun _ => hl.place, fun c hc => ⟨a, hexit, ?_⟩, ?_⟩
      · rw [hk.told_eq, hl.told_eq, heard_received]
        simp
      · rw [← hmessages, heard_append, hlater]
        simp
      · exact ⟨k.reader.inHand, Reader.length_inHand_le _, q.said_eq.symm⟩
      · rw [hexit]
        rintro (h | h)
        · contradiction
        · obtain rfl := Option.some.inj h
          cases htaken with
          | drop => exact hsilent (hlast.gone rfl).2
      · rw [← hl.aftermath.cause?_eq c hc]
        exact htaken.ending q.stopped
      · rw [hl.place, hexit]
        refine ⟨nofun, ?_⟩
        rintro ⟨-, hclosing, hclose, hdue⟩
        exact absurd (congrArg some (htaken.close_of_silent hl.aftermath hclosing hdue)) hclose
    · rw [hacts, List.append_cons] at hapart
      have hrun := hfirst.tail hstep
      obtain ⟨hm, -⟩ := htaken.calm hk hfirst.waits fun fault => hrun.rests hapart.of_append
      have hreads := (hrun.calm hlast hapart hm).2
      obtain ⟨rfl, rfl⟩ := hsilent hreads
      refine ⟨rfl, rfl, ?_⟩
      rw [messages, messages]
      conv_lhs => rw [hacts, reads_append, htaken.reads_cons, hreads, List.append_nil]

/-- A frame comes in on a connection that has just been opened, and its reader is about to open it. -/
theorem run_cut {f : Frame} (hfit : f.body.length ≤ Frame.defaultLimit) (id : ConnectionId) (o : Opening) :
    Run id (start o) [.enter, .wake, .read (.take f.octets), .read .cut] ⟨o, .listed, ⟨[], .opens f⟩, .working, none⟩ [] := by
  have hcut : Frame.decode Frame.defaultLimit ([] ++ f.octets) = .ok (some (f, [])) := by
    have h := Frame.decode_octets_append hfit Frame.defaultLimit_lt []
    rwa [List.append_nil] at h
  have hlisted : Run id (start o) ([] ++ [.enter] ++ [.wake]) ⟨o, .listed, .fresh, .working, none⟩ [] :=
    (Run.refl.tail (.enter rfl)).tail (.wake rfl)
  exact (hlisted.tail (.silent rfl (.take _ rfl))).tail (.silent rfl (.cut hcut))

/-- On a plain connection, its reader then has the message in hand. -/
theorem run_inHand {e : Envelope} (hvalid : e.message.isWireValid = true) (hfit : e.frame.body.length ≤ Frame.defaultLimit)
    (id : ConnectionId) (remote : SocketAddress) (inbound : Bool) (key : Option RoomKey) :
    Run id (start ⟨remote, .plain, inbound⟩) [.enter, .wake, .read (.take e.frame.octets), .read .cut, .read (.decode key)]
      ⟨⟨remote, .plain, inbound⟩, .listed, ⟨[], .reports e⟩, .working, none⟩ [] := by
  have hopen : Hub.readFrame key .plain e.frame = .ok e := by
    rw [Hub.readFrame, Envelope.ofFrame_frame hvalid]
    rfl
  exact (run_cut hfit id _).tail (.silent rfl (.decode hopen))

/-- **A message in hand is reported, whatever becomes of its connection.** A reader that has a turn and a message in hand
reports it also if somebody has taken the connection out, told it to stop and reported the end, or closed the connection. -/
theorem exists_run_stray (id : ConnectionId) {e : Envelope} (hlisted : l.place = .listed) (hwork : l.activity = .working)
    (hstage : l.reader.stage = .reports e) (cause : Message.Fault) :
    (∃ k, Run id l [.fail cause, .abort, .tell, .read .report] k [.closed id (some (Hub.writeFault cause)), .received id e]) ∧
      ∃ k, Run id l [.close, .abort, .read .report] k [.received id e] := by
  obtain ⟨o, place, ⟨unread, stage⟩, activity, errand⟩ := l
  obtain rfl : place = .listed := hlisted
  obtain rfl : activity = .working := hwork
  obtain rfl : stage = .reports e := hstage
  have hspoken : Step id ⟨o, .out, ⟨unread, .reports e⟩, .stopping, none⟩ (.read .report)
      ⟨o, .out, ⟨unread, .reads⟩, .stopping, none⟩ [.received id e] := .spoken rfl .report
  constructor
  · exact ⟨_, (((Run.refl.tail (.fail cause rfl)).tail (.abort rfl)).tail (.tell rfl)).tail hspoken⟩
  · exact ⟨_, ((Run.refl.tail (.close rfl)).tail (.abort rfl)).tail hspoken⟩

end Line

/-! ## All connections -/

/-- **Messages that come after the end.** For every message there is a run in which it is reported after the end of its
connection. -/
theorem exists_run_late {e : Envelope} (hvalid : e.message.isWireValid = true)
    (hfit : e.frame.body.length ≤ Frame.defaultLimit) (id : ConnectionId) (remote : SocketAddress) (cause : Message.Fault) :
    ∃ s, Run (.opens id ⟨remote, .plain, true⟩ :: [.enter, .wake, .read (.take e.frame.octets), .read .cut,
        .read (.decode none), .fail cause, .abort, .tell, .read .report].map (.acts id)) s
      [.accepted id remote, .closed id (some (Hub.writeFault cause)), .received id e] := by
  have hopen : Run [.opens id ⟨remote, .plain, true⟩] _ [.accepted id remote] := Run.refl.tail (.opens _ rfl)
  have hhand := Line.run_inHand hvalid hfit id remote true none
  obtain ⟨⟨k, hstray⟩, -⟩ := Line.exists_run_stray id
    (l := ⟨⟨remote, .plain, true⟩, .listed, ⟨[], .reports e⟩, .working, none⟩) rfl rfl rfl cause
  obtain ⟨s, h, -⟩ := hopen.lift (hhand.trans hstray) (SortedMap.get?_insert_self ..) (by simp [empty])
  exact ⟨s, h⟩

/-- **The events about connections are accounted for**, in every run. Nothing is reported of a connection that was never
opened. If whoever takes out a connection that was opened does so between two turns of its reader, then nothing comes after
that but the report of the end. -/
theorem events_accounted {ms : List Move} {s : Switchboard} {events : List HubEvent} (h : Run ms s events)
    (id : ConnectionId) :
    (s.lines.get? id = none → (∀ o, .opens id o ∉ ms) ∧ about id events = []) ∧
      ∀ l, s.lines.get? id = some l → (∀ o, .opens id o ∈ ms ↔ o = l.opening) ∧
        ∃ said between late closing, Account id (actsOn id ms) l (about id events) said between late closing ∧
          (Apart (actsOn id ms) → between = [] ∧ late = [] ∧
            messages l.opening.mode (actsOn id ms) = messages l.opening.mode (life (actsOn id ms))) := by
  obtain ⟨hnone, hsome⟩ := h.line id
  refine ⟨fun hl => ⟨(hnone hl).opens, (hnone hl).about_eq⟩, fun l hl => ?_⟩
  obtain ⟨hopens, told, habout, hrun⟩ := hsome l hl
  rw [habout]
  exact ⟨hopens, hrun.account⟩

/-- Somebody connects and sends a line of chat. While its reader has the line in hand, the connection cannot be written to, and
that is reported. Then the line is. -/
theorem message_after_end :
    let remote : SocketAddress := .v4 ⟨.loopback, 4000⟩
    let chat : Envelope := ⟨⟨.loopback, 5000⟩, .chat 7 "at\nnoon"⟩
    let acts : List Act := [.enter, .wake, .read (.take chat.frame.octets), .read .cut, .read (.decode none),
      .fail (.stream "broken pipe"), .abort, .tell, .read .report]
    let events : List HubEvent :=
      [.accepted 0 remote, .closed 0 (some (Hub.writeFault (.stream "broken pipe"))), .received 0 chat]
    (∃ s, Run (.opens 0 ⟨remote, .plain, true⟩ :: acts.map (.acts 0)) s events) ∧
      ¬ ∃ (said : List Envelope) (closing : Option (Option Link.Fault)),
        events = [.accepted 0 remote] ++ said.map (.received 0) ++ closing.toList.map (.closed 0) := by
  refine ⟨exists_run_late (by decide) (by decide) 0 _ _, ?_⟩
  rintro ⟨said, closing, h⟩
  cases said <;> cases closing <;> simp at h

/-- A plain connection hears a line of chat, and cannot be written to after that. Meanwhile the reader of a sealed one, for
which no key is installed, stops at the first frame and takes its connection out. -/
theorem events_accounted_two_lines :
    let first : Opening := ⟨.v4 ⟨.loopback, 4000⟩, .plain, true⟩
    let second : Opening := ⟨.v4 ⟨.loopback, 4001⟩, .sealed, false⟩
    let chat : Envelope := ⟨⟨.loopback, 5000⟩, .chat 7 "at\nnoon"⟩
    let frame : Frame := Envelope.frame ⟨⟨.loopback, 5001⟩, .sealed [1, 2, 3]⟩
    let hears : List Act := [.enter, .wake, .read (.take chat.frame.octets), .read .cut, .read (.decode none), .read .report,
      .rest]
    let stops : List Act := [.enter, .wake, .read (.take frame.octets), .read .cut, .read (.decode none), .drop, .tell]
    let fails : List Act := [.fail (.stream "broken pipe"), .abort, .tell]
    let ms : List Move := [.opens 0 first, .opens 1 second] ++ hears.map (.acts 0) ++ stops.map (.acts 1) ++ fails.map (.acts 0)
    let fault : Link.Fault := Hub.writeFault (.stream "broken pipe")
    ∃ s l, Run ms s [.accepted 0 first.remote, .received 0 chat, .closed 1 (some .noKey), .closed 0 (some fault)] ∧
      s.lines.get? 0 = some l ∧ Apart (actsOn 0 ms) ∧
      Account 0 (actsOn 0 ms) l [.accepted 0 first.remote, .received 0 chat, .closed 0 (some fault)] [chat] [] []
        (some (some fault)) := by
  intro first second chat frame hears stops fails ms fault
  have hopen : Run [.opens 0 first, .opens 1 second] _ [.accepted 0 first.remote] :=
    (Run.refl.tail (.opens first rfl)).tail (.opens second rfl)
  have hhears : Line.Run 0 (.start first) hears ⟨first, .listed, .fresh, .resting, none⟩ [.received 0 chat] :=
    ((Line.run_inHand (by decide) (by decide) 0 _ true none).tail (.spoken rfl .report)).tail (.rest rfl rfl)
  have hstops : ∃ k, Line.Run 1 (.start second) stops k [.closed 1 (some .noKey)] := by
    have hread : Hub.readFrame none .sealed frame = .error .noKey := by
      rw [Hub.readFrame, Envelope.ofSealedFrame_frame]
    exact ⟨_, (((Line.run_cut (by decide) 1 second).tail (.silent rfl (.refuse hread))).tail
      (.drop rfl rfl rfl)).tail (.tell rfl)⟩
  have hfails : ∃ k, Line.Run 0 ⟨first, .listed, .fresh, .resting, none⟩ fails k [.closed 0 (some fault)] :=
    ⟨_, ((Line.Run.refl.tail (.fail _ rfl)).tail (.abort rfl)).tail (.tell rfl)⟩
  obtain ⟨k, hstops⟩ := hstops
  obtain ⟨l, hfails⟩ := hfails
  obtain ⟨s₁, h₁, hl₁, hkey₁, hother₁⟩ := hopen.lift hhears rfl (by simp [hears, empty])
  obtain ⟨s₂, h₂, hl₂, hkey₂, hother₂⟩ := h₁.lift hstops (hother₁ 1 (by decide)) (by simp [stops, hkey₁, empty])
  obtain ⟨s, h, hl, -⟩ := h₂.lift hfails ((hother₂ 0 (by decide)).trans hl₁) (by simp [fails])
  have hapart : Apart (actsOn 0 ms) := by decide
  obtain ⟨hopens, said, between, late, closing, haccount, hcalm⟩ := (events_accounted h 0).2 l hl
  obtain ⟨rfl, rfl, -⟩ := hcalm hapart
  have hfirst : first = l.opening := (hopens first).1 (by simp)
  have htold := haccount.told_eq
  rw [← hfirst] at htold
  obtain ⟨rfl, rfl⟩ : said = [chat] ∧ closing = some (some fault) := by
    rcases said with _ | ⟨e, _ | ⟨e', said⟩⟩ <;> cases closing <;>
      simp_all [about, HubEvent.connection, Opening.greeting, first]
  exact ⟨s, l, h, hl, hapart, haccount⟩

end Parley.Switchboard
