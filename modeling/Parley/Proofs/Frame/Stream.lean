import Parley.Frame

/-!
# Frames from a stream

A stream comes in chunks, which may end anywhere. `Frame.feed` appends them to a buffer one by one and drains it after
each. The outcome does not depend on the chunks, but on the stream alone (`feed_agrees`): it is that of draining the
whole stream at once (`feed_agrees_drain`).

Everything rests on what more octets do to one decoding: a frame stays a frame, and is followed by more (`decode_append`);
a fault stays a fault (`decode_append_of_error`).
-/

namespace Parley.Frame

variable {limit : Nat}

/-- Appends chunks to a buffer one by one, and drains it after each. The first fault is the end of it. -/
def feed (limit : Nat) (buffer : Bytes) : List Bytes → Batch
  | [] => ⟨[], buffer, none⟩
  | chunk :: chunks =>
    let batch := drain limit (buffer ++ chunk)
    match batch.fault with
    | some _ => batch
    | none =>
      let more := feed limit batch.rest chunks
      { more with frames := batch.frames ++ more.frames }

/-- The same frames, and after them the same fault or the same octets left over. -/
structure Batch.Agrees (b c : Batch) : Prop where
  frames : b.frames = c.frames
  fault : b.fault = c.fault
  rest : b.fault = none → b.rest = c.rest

namespace Batch.Agrees

variable {b c d : Batch}

theorem refl (b : Batch) : Agrees b b := ⟨rfl, rfl, fun _ => rfl⟩

theorem symm (h : Agrees b c) : Agrees c b :=
  ⟨h.frames.symm, h.fault.symm, fun hc => (h.rest (h.fault.trans hc)).symm⟩

theorem trans (h : Agrees b c) (k : Agrees c d) : Agrees b d :=
  ⟨h.frames.trans k.frames, h.fault.trans k.fault, fun hb => (h.rest hb).trans (k.rest (h.fault ▸ hb))⟩

/-- The same frames in front. -/
theorem cons (h : Agrees b c) (fs : List Frame) :
    Agrees { b with frames := fs ++ b.frames } { c with frames := fs ++ c.frames } :=
  ⟨congrArg (fs ++ ·) h.frames, h.fault, h.rest⟩

end Batch.Agrees

/-! ## One frame -/

/-- A decoder waits for the header. -/
theorem decode_of_short {buffer : Bytes} (h : buffer.length < headerLength) : decode limit buffer = .ok none := by
  unfold decode
  split
  · simp only [headerLength, List.length_cons] at h
    omega
  · rfl

/-- The header alone says which fault there is, or who sends how many octets. -/
theorem decode_header (limit : Nat) {head : Bytes} (h : head.length = headerLength) :
    (∃ e, ∀ body, decode limit (head ++ body) = .error e) ∨
      ∃ sender length, ∀ body, decode limit (head ++ body) =
        if body.length < length then .ok none
        else .ok (some (⟨sender, body.take length⟩, body.drop length)) := by
  match head, h with
  | [a, b, c, d, p, q, r, s, k, l, m, n], _ =>
    by_cases hl : number [k, l, m, n] > limit
    · exact .inl ⟨.tooLarge (number [k, l, m, n]) limit, fun body => if_pos hl⟩
    · by_cases hp : number [p, q, r, s] ≥ 65536
      · exact .inl ⟨.headerPort (number [p, q, r, s]), fun body => (if_neg hl).trans (if_pos hp)⟩
      · exact .inr ⟨⟨⟨a, b, c, d⟩, UInt16.ofNat (number [p, q, r, s])⟩, number [k, l, m, n],
          fun body => (if_neg hl).trans (if_neg hp)⟩

/-- A buffer that is not too short begins with a header. -/
theorem exists_head {buffer : Bytes} (h : ¬ buffer.length < headerLength) :
    ∃ head body, head.length = headerLength ∧ buffer = head ++ body :=
  ⟨buffer.take headerLength, buffer.drop headerLength, List.length_take_of_le (Nat.le_of_not_lt h),
    (List.take_append_drop headerLength buffer).symm⟩

/-- A decoder that does not wait has a header. -/
theorem exists_header {buffer : Bytes} (h : decode limit buffer ≠ .ok none) :
    ∃ head body, head.length = headerLength ∧ buffer = head ++ body :=
  exists_head fun hshort => h (decode_of_short hshort)

/-- Octets that come after a frame do not change it. -/
theorem decode_append {buffer rest : Bytes} {f : Frame} (h : decode limit buffer = .ok (some (f, rest)))
    (more : Bytes) : decode limit (buffer ++ more) = .ok (some (f, rest ++ more)) := by
  obtain ⟨head, body, hlen, rfl⟩ := exists_header (show decode limit buffer ≠ .ok none by simp [h])
  rcases decode_header limit hlen with ⟨e, he⟩ | ⟨sender, length, hd⟩
  · rw [he] at h
    contradiction
  · rw [hd] at h
    split at h
    · simp at h
    · rename_i hle
      simp only [Except.ok.injEq, Option.some.injEq, Prod.mk.injEq] at h
      obtain ⟨rfl, rfl⟩ := h
      have hle' : length ≤ body.length := Nat.le_of_not_lt hle
      rw [List.append_assoc, hd, if_neg (by rw [List.length_append]; omega), List.take_append_of_le_length hle',
        List.drop_append_of_le_length hle']

/-- A fault in the header does not depend on what comes after. -/
theorem decode_append_of_error {buffer : Bytes} {e : Message.Fault} (h : decode limit buffer = .error e)
    (more : Bytes) : decode limit (buffer ++ more) = .error e := by
  obtain ⟨head, body, hlen, rfl⟩ := exists_header (show decode limit buffer ≠ .ok none by simp [h])
  rcases decode_header limit hlen with ⟨e', he⟩ | ⟨sender, length, hd⟩
  · rw [he] at h
    rw [List.append_assoc, he, h]
  · rw [hd] at h
    split at h <;> contradiction

/-! ## One buffer -/

theorem drain_of_none {buffer : Bytes} (h : decode limit buffer = .ok none) :
    drain limit buffer = ⟨[], buffer, none⟩ := by
  rw [drain]
  split <;> simp_all

theorem drain_of_error {buffer : Bytes} {e : Message.Fault} (h : decode limit buffer = .error e) :
    drain limit buffer = ⟨[], buffer, some e⟩ := by
  rw [drain]
  split <;> simp_all

theorem drain_of_some {buffer rest : Bytes} {f : Frame} (h : decode limit buffer = .ok (some (f, rest))) :
    drain limit buffer = { drain limit rest with frames := f :: (drain limit rest).frames } := by
  rw [drain]
  split <;> simp_all

/-- A drained buffer holds no frame, or the fault. -/
theorem decode_drain_rest (limit : Nat) (buffer : Bytes) (h : (drain limit buffer).fault = none) :
    decode limit (drain limit buffer).rest = .ok none := by
  fun_induction drain limit buffer with
  | case1 buffer hd => exact hd
  | case2 buffer e hd => contradiction
  | case3 buffer f rest hd more ih => exact ih h

/-- Draining a buffer, and then what is left with more octets behind it, is draining all of them. -/
theorem drain_append (limit : Nat) (buffer more : Bytes) :
    ((drain limit buffer).fault = none → drain limit (buffer ++ more) =
        { drain limit ((drain limit buffer).rest ++ more) with
          frames := (drain limit buffer).frames ++ (drain limit ((drain limit buffer).rest ++ more)).frames }) ∧
      ((drain limit buffer).fault ≠ none → (drain limit buffer).Agrees (drain limit (buffer ++ more))) := by
  fun_induction drain limit buffer with
  | case1 buffer hd => exact ⟨fun _ => rfl, fun h => absurd rfl h⟩
  | case2 buffer e hd =>
    rw [drain_of_error (decode_append_of_error hd more)]
    exact ⟨fun h => (nomatch h), fun _ => ⟨rfl, rfl, fun h => (nomatch h)⟩⟩
  | case3 buffer f rest hd batch ih =>
    rw [drain_of_some (decode_append hd more)]
    refine ⟨fun h => ?_, fun h => ?_⟩
    · rw [ih.1 h]
      rfl
    · exact (ih.2 h).cons [f]

/-! ## The stream -/

/-- Feeding chunks to a buffer that holds no frame is draining it with all of them behind it. -/
theorem feed_agrees_drain {buffer : Bytes} (h : decode limit buffer = .ok none) (chunks : List Bytes) :
    (feed limit buffer chunks).Agrees (drain limit (buffer ++ chunks.flatten)) := by
  induction chunks generalizing buffer with
  | nil =>
    rw [List.flatten_nil, List.append_nil, drain_of_none h]
    exact .refl _
  | cons chunk chunks ih =>
    rw [List.flatten_cons, ← List.append_assoc]
    obtain ⟨happ, hfault⟩ := drain_append limit (buffer ++ chunk) chunks.flatten
    unfold feed
    dsimp only
    split
    · rename_i e he
      exact hfault (by simp [he])
    · rename_i he
      rw [happ he]
      exact (ih (decode_drain_rest limit _ he)).cons _

/-- **Chunks do not matter.** However a stream is cut, the frames are the same, and so is the fault after them or what is
left. -/
theorem feed_agrees (limit : Nat) {chunks pieces : List Bytes} (h : chunks.flatten = pieces.flatten) :
    (feed limit [] chunks).Agrees (feed limit [] pieces) := by
  have hnil : decode limit [] = .ok none := rfl
  have hc := feed_agrees_drain hnil chunks
  have hp := feed_agrees_drain hnil pieces
  rw [h] at hc
  exact hc.trans hp.symm

/-- A header cut in two, and behind its body the header of a body that is too long. -/
theorem feed_agrees_cut :
    (feed 2 [] [[127, 0, 0, 1, 0], [], [0, 27, 88, 0, 0, 0, 1, 65, 9, 9, 9, 9, 0, 0], [0, 0, 1, 0, 0, 0]]).Agrees
      (feed 2 [] [[127, 0, 0, 1, 0, 0, 27, 88, 0, 0, 0, 1, 65, 9, 9, 9, 9, 0, 0, 0, 0, 1, 0, 0, 0]]) :=
  feed_agrees 2 (by decide)

example : feed 2 [] [[127, 0, 0, 1, 0], [], [0, 27, 88, 0, 0, 0, 1, 65, 9, 9, 9, 9, 0, 0], [0, 0, 1, 0, 0, 0]] =
    ⟨[⟨⟨.loopback, 7000⟩, [65]⟩], [9, 9, 9, 9, 0, 0, 0, 0, 1, 0, 0, 0], some (.tooLarge 16777216 2)⟩ := by
  decide +kernel

end Parley.Frame
