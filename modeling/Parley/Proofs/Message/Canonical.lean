import Parley.Proofs.Message.Queued

/-!
# Messages that have been read

More bodies are read than are written, but what they are read as can always be written (`isWireValid_of_ofBody`): names
are single words, adverts in lists are not empty, tokens are not empty and hold no space, and no operation holds another.
So every body that is read has a canonical form, which is read as the same message (`canonical_of_ofBody`).
-/

namespace Parley

/-- A name that has been read is a word. -/
theorem Identity.isValidName_of_ofWire {kind : Kind} {text : List Char} {u : Identity} (h : ofWire kind text = .ok u) :
    isValidName u.name = true := by
  unfold ofWire at h
  split at h
  · rename_i name ip port hwords
    split at h
    · cases h
    · split at h
      · cases h
      · cases h
        have hmem : name ∈ Text.words text := hwords ▸ List.mem_cons_self
        obtain ⟨hne, hblank⟩ := Text.mem_words hmem
        simp only [isValidName, String.toList_ofList, Bool.and_eq_true, Bool.not_eq_true', List.isEmpty_eq_false_iff,
          List.any_eq_false]
        exact ⟨hne, fun c hc => by simp [hblank c hc]⟩
  · cases h

namespace Message

/-- A line of a list holds an advert that is not empty. -/
theorem ne_nil_of_readBase64 {cs : List Char} {bs : Bytes} (h : readBase64 cs = .ok bs) (hne : cs ≠ [])
    (ht : Text.IsTrim cs) : bs ≠ [] := by
  unfold readBase64 at h
  rw [Text.trim_eq_self ht] at h
  split at h
  · cases h
    rename_i hd
    exact Base64.ne_nil_of_decode hd (Utf8.encode_ne_nil hne)
  · cases h

/-- What is read can be written, if this holds of what is inside an operation, and if that is none. -/
theorem isWireValid_of_readPayload {readInner : List Char → Except Fault Message} {kind : Kind} {text : List Char}
    {m : Message}
    (hinner : ∀ body inner, readInner body = .ok inner → inner.isWireValid = true ∧ inner.kind? ≠ some .queue)
    (h : readPayload readInner kind text = .ok m) : m.isWireValid = true := by
  cases kind with
  | hello | userInfo | yourInfo | deadUser =>
    obtain ⟨u, hu, rfl⟩ := exists_of_map_eq_ok h
    exact Identity.isValidName_of_ofWire hu
  | rankOrder =>
    obtain ⟨users, hread, rfl⟩ := exists_of_map_eq_ok h
    refine List.all_eq_true.2 fun u hu => ?_
    obtain ⟨line, -, hline⟩ := Text.exists_of_mem_mapM hread hu
    exact Identity.isValidName_of_ofWire hline
  | roomList =>
    obtain ⟨entries, hread, rfl⟩ := exists_of_map_eq_ok h
    refine List.all_eq_true.2 fun e he => ?_
    obtain ⟨line, hmem, hline⟩ := Text.exists_of_mem_mapM hread he
    obtain ⟨hne, ht⟩ := Text.mem_contentLines hmem
    simpa using ne_nil_of_readBase64 hline hne ht
  | hostUpdated =>
    obtain ⟨token, payload, rfl, hne, hspace⟩ := readUpdate_eq_ok h
    simp [isWireValid, hne, hspace]
  | queue =>
    obtain ⟨id, inner, body, rfl, hread⟩ := readQueued_eq_ok h
    obtain ⟨hvalid, hkind⟩ := hinner body inner hread
    exact isWireValid_queue hvalid hkind
  | hostRoom | process =>
    obtain ⟨a, -, rfl⟩ := exists_of_map_eq_ok h
    rfl
  | ack | bye | requestRoomList | leaderVote | leader =>
    cases h
    rfl
  | chat =>
    have hkind := kind?_of_readPayload h
    cases m <;> first | rfl | cases hkind

theorem isWireValid_of_ofInnerChars {text : List Char} {m : Message} (h : ofInnerChars text = .ok m) :
    m.isWireValid = true ∧ m.kind? ≠ some .queue := by
  obtain ⟨⟨kind, rest⟩, -, h⟩ := Text.exists_of_bind_eq_ok h
  refine ⟨isWireValid_of_readPayload (fun _ _ hread => by cases hread) h, fun hq => ?_⟩
  obtain rfl : kind = .queue := Option.some.inj ((kind?_of_readPayload h).symm.trans hq)
  obtain ⟨_, _, _, -, hread⟩ := readQueued_eq_ok h
  cases hread

/-- What has been read can be written. -/
theorem isWireValid_of_ofBody {bs : Bytes} {m : Message} (h : ofBody bs = .ok m) : m.isWireValid = true := by
  obtain ⟨text, -, h⟩ := Text.exists_of_bind_eq_ok h
  obtain ⟨⟨kind, rest⟩, -, h⟩ := Text.exists_of_bind_eq_ok h
  exact isWireValid_of_readPayload (fun _ _ => isWireValid_of_ofInnerChars) h

/-- **Bodies have a canonical form.** A message that has been read can be written: it is not sealed, and an operation holds
neither an operation nor a sealed message. What is then written is read as the same message. -/
theorem canonical_of_ofBody {bs : Bytes} {m : Message} (h : ofBody bs = .ok m) :
    m.isWireValid = true ∧ (∀ ciphertext, m ≠ .sealed ciphertext) ∧
      (∀ id inner, m = .queue id inner →
        (∀ id' inner', inner ≠ .queue id' inner') ∧ ∀ ciphertext, inner ≠ .sealed ciphertext) ∧
      ofBody m.bodyBytes = .ok m := by
  have hvalid := isWireValid_of_ofBody h
  refine ⟨hvalid, ?_, ?_, ?_⟩
  · rintro ciphertext rfl
    cases hvalid
  · rintro id inner rfl
    simp only [isWireValid, Bool.and_eq_true, bne_iff_ne] at hvalid
    obtain ⟨hkind, hinner⟩ := hvalid
    refine ⟨?_, ?_⟩
    · rintro id' inner' rfl
      exact hkind rfl
    · rintro ciphertext rfl
      cases hinner
  · rw [ofBody_bodyBytes_eq]
    exact ofBodyChars_bodyChars hvalid

/-- An operation with its id in braces and upper case, blanks behind it, a plus sign and leading zeros in the time. -/
theorem canonical_of_ofBody_lenient :
    let text := "QUE \x7b00000000-0000-0000-0000-0000000000AB\x7d \r\nMSG +007 at noon".toList
    let m : Message := .queue (.ofNat 171) (.chat 7 "at noon")
    ofBody (Utf8.encode text) = .ok m ∧ m.bodyChars ≠ text ∧ ofBody m.bodyBytes = .ok m := by
  intro text m
  have hread : ofBody (Utf8.encode text) = .ok m := by
    rw [ofBody_encode]
    rfl
  exact ⟨hread, by decide +kernel, (canonical_of_ofBody hread).2.2.2⟩

end Message
end Parley
