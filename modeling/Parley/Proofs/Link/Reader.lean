import Mathlib.Data.List.Basic
import Parley.Link.Hub
import Parley.Proofs.Frame.Stream

/-!
# The reader of a connection

Every connection has a reader. It takes octets from the stream, cuts the next frame off, opens it, reports the message in
it, and goes on. At the end of the stream, or at a fault, it stops. An `Act` is one step of this, so that others may do
something between any two of them.

Whatever the acts are, what a reader reports is what the frames of its stream say, one message for each frame and in order,
up to the first frame that does not open (`Run.progress`). And a reader that nobody disturbs does what a hub does when octets
come in (`exists_run_readAll`, `readFrames_eq`).
-/

namespace Parley

namespace Hub

/-- The fault of a stream that ends with octets left over. -/
def endFault (unread : Bytes) : Option Link.Fault := if unread.isEmpty then none else some (.message truncated)

end Hub

/-- What the reader of a connection is about to do. -/
inductive Reader.Stage where
  /-- It looks for the next frame. -/
  | reads
  /-- It opens a frame. -/
  | opens (frame : Frame)
  /-- It reports a message. -/
  | reports (envelope : Envelope)
  /-- It has stopped, and drops its connection. -/
  | stops (cause : Option Link.Fault)
  deriving DecidableEq, Repr

/-- The reader of a connection. -/
structure Reader where
  /-- Octets that it has taken and not cut off yet. -/
  unread : Bytes
  stage : Reader.Stage
  deriving DecidableEq, Repr

namespace Reader

/-- A reader that has read nothing. -/
def fresh : Reader := ⟨[], .reads⟩

/-- What is left to a reader of the octets that it has taken: the frame that it has cut off and not opened, and what comes
of the others. -/
def left (r : Reader) : Frame.Batch :=
  let batch := Frame.drain Frame.defaultLimit r.unread
  match r.stage with
  | .opens f => { batch with frames := f :: batch.frames }
  | _ => batch

/-- The message that a reader has opened and not reported. -/
def inHand (r : Reader) : List Envelope :=
  match r.stage with
  | .reports e => [e]
  | _ => []

/-- A reader may have to wait for octets, for the room key, or for the registry of connections. -/
def Waits (r : Reader) : Prop :=
  match r.stage with
  | .reads => Frame.decode Frame.defaultLimit r.unread = .ok none
  | .opens _ => True
  | .reports _ => False
  | .stops _ => True

instance (r : Reader) : Decidable r.Waits := by
  unfold Waits
  split <;> infer_instance

/-- A reader that has to wait has no message in hand. -/
theorem inHand_of_waits {r : Reader} (h : r.Waits) : r.inHand = [] := by
  unfold Waits at h
  unfold inHand
  split at h <;> simp_all

theorem length_inHand_le (r : Reader) : r.inHand.length ≤ 1 := by
  unfold inHand
  split <;> simp

/-- One step of a reader. -/
inductive Act where
  /-- Octets come in. -/
  | take (octets : Bytes)
  /-- The stream ends. -/
  | finish
  /-- The stream breaks. -/
  | breaks (reason : String)
  /-- The next frame is cut off. -/
  | cut
  /-- A frame is opened, with the room key that is installed. -/
  | decode (key : Option RoomKey)
  /-- A message is reported. -/
  | report
  deriving DecidableEq, Repr

namespace Act

/-- The octets that come in. -/
def octets : Act → Bytes
  | take octets => octets
  | _ => []

/-- The key that is used. -/
def key? : Act → Option (Option RoomKey)
  | decode key => some key
  | _ => none

end Act

/-- What an act does to a reader, and what is reported. A reader turns to the stream only if it has no whole frame. -/
inductive Step (mode : LinkMode) : Reader → Act → Reader → List Envelope → Prop
  | take {unread : Bytes} (octets : Bytes) (h : Frame.decode Frame.defaultLimit unread = .ok none) :
    Step mode ⟨unread, .reads⟩ (.take octets) ⟨unread ++ octets, .reads⟩ []
  | finish {unread : Bytes} (h : Frame.decode Frame.defaultLimit unread = .ok none) :
    Step mode ⟨unread, .reads⟩ .finish ⟨unread, .stops (Hub.endFault unread)⟩ []
  | breaks {unread : Bytes} (reason : String) (h : Frame.decode Frame.defaultLimit unread = .ok none) :
    Step mode ⟨unread, .reads⟩ (.breaks reason) ⟨unread, .stops (some (.message (.stream reason)))⟩ []
  | cut {unread rest : Bytes} {f : Frame} (h : Frame.decode Frame.defaultLimit unread = .ok (some (f, rest))) :
    Step mode ⟨unread, .reads⟩ .cut ⟨rest, .opens f⟩ []
  | stumble {unread : Bytes} {e : Message.Fault} (h : Frame.decode Frame.defaultLimit unread = .error e) :
    Step mode ⟨unread, .reads⟩ .cut ⟨unread, .stops (some (.message e))⟩ []
  | decode {unread : Bytes} {f : Frame} {key : Option RoomKey} {e : Envelope} (h : Hub.readFrame key mode f = .ok e) :
    Step mode ⟨unread, .opens f⟩ (.decode key) ⟨unread, .reports e⟩ []
  | refuse {unread : Bytes} {f : Frame} {key : Option RoomKey} {e : Link.Fault} (h : Hub.readFrame key mode f = .error e) :
    Step mode ⟨unread, .opens f⟩ (.decode key) ⟨unread, .stops (some e)⟩ []
  | report {unread : Bytes} {e : Envelope} : Step mode ⟨unread, .reports e⟩ .report ⟨unread, .reads⟩ [e]

/-- A reader after acts, and what it has reported. -/
inductive Run (mode : LinkMode) (r : Reader) : List Act → Reader → List Envelope → Prop
  | refl : Run mode r [] r []
  | tail {acts : List Act} {a : Act} {t u : Reader} {said more : List Envelope} (h : Run mode r acts t said)
    (hs : Step mode t a u more) : Run mode r (acts ++ [a]) u (said ++ more)

variable {mode : LinkMode} {r t u : Reader} {acts : List Act} {a : Act} {said more : List Envelope}

theorem Step.run (h : Step mode r a t said) : Run mode r [a] t said := .tail .refl h

theorem Run.trans {bs : List Act} (h : Run mode r acts t said) (k : Run mode t bs u more) :
    Run mode r (acts ++ bs) u (said ++ more) := by
  induction k with
  | refl => simpa using h
  | tail k hs ih =>
    rw [← List.append_assoc, ← List.append_assoc]
    exact .tail ih hs

theorem Run.said_eq_nil (h : Run mode r [] t said) : said = [] := by
  generalize hacts : [] = acts at h
  cases h with
  | refl => rfl
  | tail => simp at hacts

/-! ## The stream of a reader -/

/-- What all the octets say that have come in: frames, octets left over, and the fault after the frames, if there is one. -/
def batch (acts : List Act) : Frame.Batch := Frame.drain Frame.defaultLimit (acts.flatMap Act.octets)

/-- The keys with which frames were opened. -/
def keys (acts : List Act) : List (Option RoomKey) := acts.filterMap Act.key?

/-- The messages in frames up to the first that does not open, and its fault. -/
def openAll (mode : LinkMode) : List (Option RoomKey × Frame) → List Envelope × Option Link.Fault
  | [] => ([], none)
  | (key, f) :: fs =>
    match Hub.readFrame key mode f with
    | .error e => ([], some e)
    | .ok envelope => (envelope :: (openAll mode fs).1, (openAll mode fs).2)

/-- What comes of the frames that were opened, each with its key. -/
def opened (mode : LinkMode) (acts : List Act) : List Envelope × Option Link.Fault :=
  openAll mode ((keys acts).zip (batch acts).frames)

/-- Why a reader stops. -/
inductive Stops (mode : LinkMode) (acts : List Act) : Option Link.Fault → Prop
  /-- A frame does not open. -/
  | frame {e : Link.Fault} (h : (opened mode acts).2 = some e) : Stops mode acts (some e)
  /-- The octets after the frames are no frame. -/
  | octets {e : Message.Fault} (h : (batch acts).fault = some e) (hall : (keys acts).length = (batch acts).frames.length) :
    Stops mode acts (some (.message e))
  /-- The stream is at its end. -/
  | stream (h : .finish ∈ acts) : Stops mode acts (Hub.endFault (batch acts).rest)
  /-- The stream is broken. -/
  | broken {reason : String} (h : .breaks reason ∈ acts) : Stops mode acts (some (.message (.stream reason)))

theorem openAll_append {fs : List (Option RoomKey × Frame)} (h : (openAll mode fs).2 = none)
    (gs : List (Option RoomKey × Frame)) :
    openAll mode (fs ++ gs) = ((openAll mode fs).1 ++ (openAll mode gs).1, (openAll mode gs).2) := by
  induction fs with
  | nil => rfl
  | cons f fs ih =>
    obtain ⟨key, f⟩ := f
    simp only [openAll] at h
    split at h
    · simp at h
    · rename_i envelope he
      simp only [List.cons_append, openAll, he, ih h]

section Streams

variable {done rest : List Frame}

/-- Only the frames count that were opened. -/
theorem opened_eq (hlen : (keys acts).length = done.length) (hframes : (batch acts).frames = done ++ rest) :
    opened mode acts = openAll mode ((keys acts).zip done) := by
  have hzip : (keys acts ++ []).zip (done ++ rest) = (keys acts).zip done ++ [].zip rest := List.zip_append hlen
  rw [opened, hframes]
  simpa using congrArg (openAll mode) hzip

theorem batch_concat (ho : a.octets = []) : batch (acts ++ [a]) = batch acts := by simp [batch, ho]

theorem keys_concat (hk : a.key? = none) : keys (acts ++ [a]) = keys acts := by simp [keys, hk]

theorem opened_concat (ho : a.octets = []) (hk : a.key? = none) : opened mode (acts ++ [a]) = opened mode acts := by
  rw [opened, opened, batch_concat ho, keys_concat hk]

end Streams

/-! ## Progress -/

/-- How far a reader is. The frames `done` are those that it has opened, and the others of its stream are left to it. -/
structure Progress (mode : LinkMode) (acts : List Act) (r : Reader) (said : List Envelope) (done : List Frame) : Prop where
  length_eq : (keys acts).length = done.length
  batch_eq : batch acts = { r.left with frames := done ++ r.left.frames }
  said_eq : (opened mode acts).1 = said ++ r.inHand
  /-- A frame that does not open stops the reader. -/
  refused : ∀ e, (opened mode acts).2 = some e → r.stage = .stops (some e)
  /-- The reader does not stop without a reason. -/
  stopped : ∀ c, r.stage = .stops c → Stops mode acts c

theorem progress_fresh (mode : LinkMode) : Progress mode [] fresh [] [] := by
  have hdrain : Frame.drain Frame.defaultLimit [] = ⟨[], [], none⟩ := Frame.drain_of_none rfl
  exact ⟨rfl, by simp [batch, fresh, left, hdrain], rfl, by simp [opened, keys, openAll], by simp [fresh]⟩

namespace Progress

variable {done : List Frame} (p : Progress mode acts r said done)
include p

theorem frames_eq : (batch acts).frames = done ++ r.left.frames := by rw [p.batch_eq]

theorem rest_eq : (batch acts).rest = r.left.rest := by rw [p.batch_eq]

theorem fault_eq : (batch acts).fault = r.left.fault := by rw [p.batch_eq]

/-- A reader that has not stopped has opened all its frames so far. -/
theorem fault_opened (hr : ∀ c, r.stage ≠ .stops c) : (opened mode acts).2 = none :=
  Option.eq_none_iff_forall_ne_some.2 fun e he => hr _ (p.refused e he)

/-- An act by which no octets come in and no frame is opened. -/
theorem concat_of_quiet (hr : ∀ c, r.stage ≠ .stops c) (ho : a.octets = []) (hk : a.key? = none) (hleft : t.left = r.left)
    (hsaid : said ++ r.inHand = said ++ (more ++ t.inHand)) (hstop : ∀ c, t.stage = .stops c → Stops mode (acts ++ [a]) c) :
    Progress mode (acts ++ [a]) t (said ++ more) done := by
  refine ⟨?_, ?_, ?_, ?_, hstop⟩
  · rw [keys_concat hk, p.length_eq]
  · rw [batch_concat ho, p.batch_eq, hleft]
  · rw [opened_concat ho hk, p.said_eq, hsaid, List.append_assoc]
  · rw [opened_concat ho hk, p.fault_opened hr]
    simp

/-- An act by which a frame is opened. -/
theorem concat_of_decode {f : Frame} {key : Option RoomKey} (hr : r.stage = .opens f)
    (hleft : r.left = { t.left with frames := f :: t.left.frames })
    (hsaid : said ++ r.inHand ++ (openAll mode [(key, f)]).1 = said ++ t.inHand)
    (hstop : ∀ c, t.stage = .stops c ↔ (openAll mode [(key, f)]).2.map some = some c) :
    Progress mode (acts ++ [.decode key]) t said (done ++ [f]) := by
  have hkeys : keys (acts ++ [.decode key]) = keys acts ++ [key] := by simp [keys, Act.key?]
  have hlen : (keys (acts ++ [.decode key])).length = (done ++ [f]).length := by simp [hkeys, p.length_eq]
  have hbatch : batch (acts ++ [.decode key]) = { t.left with frames := done ++ [f] ++ t.left.frames } := by
    rw [batch_concat rfl, p.batch_eq, hleft, List.append_assoc]
    rfl
  have hgoing : ∀ c, r.stage ≠ .stops c := by simp [hr]
  have hopened : opened mode (acts ++ [.decode key]) =
      ((opened mode acts).1 ++ (openAll mode [(key, f)]).1, (openAll mode [(key, f)]).2) := by
    have hopen := p.fault_opened hgoing
    rw [opened_eq p.length_eq p.frames_eq] at hopen ⊢
    rw [opened_eq hlen (congrArg Frame.Batch.frames hbatch), hkeys, List.zip_append p.length_eq]
    exact openAll_append hopen _
  refine ⟨hlen, hbatch, ?_, fun e he => ?_, fun c hc => ?_⟩
  · rw [hopened, p.said_eq]
    exact hsaid
  · rw [hopened] at he
    exact (hstop _).2 (congrArg (Option.map some) he)
  · obtain ⟨e, he, rfl⟩ := Option.map_eq_some_iff.1 ((hstop c).1 hc)
    exact .frame (hopened ▸ he)

end Progress

/-- **A step of a reader is progress.** -/
theorem Step.progress {done : List Frame} (h : Step mode r a t more) (p : Progress mode acts r said done) :
    ∃ done, Progress mode (acts ++ [a]) t (said ++ more) done := by
  cases h with
  | @take unread octets h =>
    have hleft : batch acts = ⟨done, unread, none⟩ := by simpa [left, Frame.drain_of_none h] using p.batch_eq
    have hmore := (Frame.drain_append Frame.defaultLimit (acts.flatMap Act.octets) octets).1 (congrArg Frame.Batch.fault hleft)
    have hbatch : batch (acts ++ [.take octets]) =
        { left ⟨unread ++ octets, .reads⟩ with frames := done ++ (left ⟨unread ++ octets, .reads⟩).frames } := by
      rw [← batch, hleft] at hmore
      simpa [batch, Act.octets, left] using hmore
    have hkeys : keys (acts ++ [.take octets]) = keys acts := keys_concat rfl
    have hopened : opened mode (acts ++ [.take octets]) = opened mode acts := by
      rw [opened_eq (hkeys ▸ p.length_eq) (congrArg Frame.Batch.frames hbatch), hkeys, opened_eq p.length_eq p.frames_eq]
    refine ⟨done, hkeys ▸ p.length_eq, hbatch, ?_, ?_, by simp⟩
    · simpa [hopened, inHand] using p.said_eq
    · rw [hopened, p.fault_opened (by simp)]
      simp
  | @finish unread h =>
    refine ⟨done, p.concat_of_quiet (by simp) rfl rfl rfl rfl ?_⟩
    rintro _ ⟨⟩
    have hrest : (batch acts).rest = unread := by simpa [left, Frame.drain_of_none h] using p.rest_eq
    rw [← hrest, ← batch_concat (a := .finish) rfl]
    exact .stream (by simp)
  | breaks reason h =>
    refine ⟨done, p.concat_of_quiet (by simp) rfl rfl rfl rfl ?_⟩
    rintro _ ⟨⟩
    exact .broken (by simp)
  | cut h => exact ⟨done, p.concat_of_quiet (by simp) rfl rfl (by simp [left, Frame.drain_of_some h]) rfl (by simp)⟩
  | stumble h =>
    refine ⟨done, p.concat_of_quiet (by simp) rfl rfl rfl rfl ?_⟩
    rintro _ ⟨⟩
    have hdrain := Frame.drain_of_error h
    refine .octets ?_ ?_
    · rw [batch_concat rfl, p.fault_eq]
      simp [left, hdrain]
    · rw [batch_concat rfl, keys_concat rfl, p.length_eq, p.frames_eq]
      simp [left, hdrain]
  | @decode unread f key e h =>
    rw [List.append_nil]
    exact ⟨_, p.concat_of_decode rfl rfl (by simp [openAll, h, inHand]) (by simp [openAll, h])⟩
  | @refuse unread f key e h =>
    rw [List.append_nil]
    exact ⟨_, p.concat_of_decode rfl rfl (by simp [openAll, h, inHand]) (by simp [openAll, h])⟩
  | report => exact ⟨done, p.concat_of_quiet (by simp) rfl rfl rfl rfl (by simp)⟩

theorem Run.progress (h : Run mode fresh acts r said) : ∃ done, Progress mode acts r said done := by
  induction h with
  | refl => exact ⟨[], progress_fresh mode⟩
  | tail _ hs ih =>
    obtain ⟨done, p⟩ := ih
    exact hs.progress p

/-- A reader that waits for octets has opened all frames of those that came in. -/
theorem Progress.all_opened {done : List Frame} (p : Progress mode acts r said done) (hr : r.stage = .reads) (h : r.Waits) :
    (keys acts).length = (batch acts).frames.length ∧ (batch acts).fault = none := by
  simp only [Waits, hr] at h
  have hleft : r.left = ⟨[], r.unread, none⟩ := by simp [left, hr, Frame.drain_of_none h]
  rw [p.length_eq, p.frames_eq, p.fault_eq, hleft, List.append_nil]
  exact ⟨rfl, rfl⟩

/-! ## A reader that nobody disturbs -/

/-- What a reader makes of octets if nobody disturbs it, and its fault. -/
def readAll (mode : LinkMode) (key : Option RoomKey) (octets : Bytes) : List Envelope × Option Link.Fault :=
  let batch := Frame.drain Frame.defaultLimit octets
  let (messages, fault) := openAll mode (batch.frames.map (key, ·))
  (messages, fault.or (batch.fault.map .message))

/-- A hub reports what opening the frames with its key gives. -/
theorem readFrames_eq (key : Option RoomKey) (id : ConnectionId) (fs : List Frame) :
    Hub.readFrames key mode id fs =
      ((openAll mode (fs.map (key, ·))).1.map (.received id), (openAll mode (fs.map (key, ·))).2) := by
  induction fs with
  | nil => rfl
  | cons f fs ih =>
    rw [List.map_cons, Hub.readFrames, openAll]
    cases Hub.readFrame key mode f with
    | error e => rfl
    | ok envelope =>
      rw [ih]
      rfl

/-- **A reader that nobody disturbs** cuts off and opens all frames up to the first that does not open, and reports the
messages. -/
theorem exists_run_readAll (mode : LinkMode) (key : Option RoomKey) (unread : Bytes) :
    ∃ acts t, Run mode ⟨unread, .reads⟩ acts t (readAll mode key unread).1 ∧ (∀ k, .decode k ∈ acts → k = key) ∧
      ((readAll mode key unread).2 = none → t = ⟨(Frame.drain Frame.defaultLimit unread).rest, .reads⟩) ∧
      ∀ f, (readAll mode key unread).2 = some f → t.stage = .stops (some f) := by
  rw [readAll]
  fun_induction Frame.drain Frame.defaultLimit unread with
  | case1 unread h => exact ⟨[], _, .refl, by simp, fun _ => rfl, by simp [openAll]⟩
  | case2 unread e h =>
    refine ⟨[.cut], _, (Step.stumble h).run, by simp, by simp [openAll], ?_⟩
    rintro _ ⟨⟩
    rfl
  | case3 unread f rest h more ih =>
    have hcut : Run mode ⟨unread, .reads⟩ [.cut] ⟨rest, .opens f⟩ [] := (Step.cut h).run
    simp only [List.map_cons, openAll]
    split
    · rename_i e he
      refine ⟨[.cut, .decode key], _, hcut.tail (.refuse he), by simp, by simp, ?_⟩
      rintro _ ⟨⟩
      rfl
    · rename_i envelope he
      obtain ⟨acts, t, hrun, hkeys, hnone, hsome⟩ := ih
      have hreport := (hcut.tail (.decode he)).tail .report
      refine ⟨[.cut, .decode key, .report] ++ acts, t, hreport.trans hrun, ?_, hnone, hsome⟩
      simpa using hkeys

end Reader
end Parley
