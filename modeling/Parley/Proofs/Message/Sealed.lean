import Parley.Envelope
import Parley.Proofs.Message.Queued

/-!
# Plain and sealed bodies

Plain and sealed bodies are both text, and nothing in a frame says which one it holds. Still neither is read as the other
(`Envelope.never_mistaken`). A plain body begins with a code of three letters, and behind it comes the end or a space
(`Message.Begins`): this holds of all that is written (`Message.begins_bodyChars`) and of all that is read
(`Message.begins_of_readTag`). Base64 consists of whole quads without a space, so it does not begin like that, not even after
blanks at its ends have been dropped.
-/

namespace Parley

namespace Message

/-- A text that begins as a plain body does: with a code, and behind it the end or a space. -/
inductive Begins : List Char → Prop
  | code (kind : Kind) : Begins kind.code.toList
  | tagged (kind : Kind) (payload : List Char) : Begins (Message.tagged kind payload)

theorem begins_bodyChars {m : Message} (h : ∀ ciphertext, m ≠ .sealed ciphertext) : Begins m.bodyChars := by
  cases m with
  | sealed ciphertext => exact absurd rfl (h ciphertext)
  | bye | requestRoomList | leaderVote | leader => exact .code _
  | _ => exact .tagged _ _

theorem append_splitCode (text : List Char) : (splitCode text).1 ++ (splitCode text).2 = text := by
  unfold splitCode
  cases h : Text.splitBytes 3 text with
  | none => exact List.append_nil text
  | some p => exact Text.append_of_splitBytes h

theorem begins_of_readTag {text payload : List Char} {kind : Kind} (h : readTag text = .ok (kind, payload)) :
    Begins text := by
  have happend := append_splitCode text
  unfold readTag at h
  dsimp only at h
  split at h
  · cases h
  · rename_i kind' hkind
    have hcode : kind'.code.toList = (splitCode text).1 := by
      have hfound := List.find?_some hkind
      rw [of_decide_eq_true hfound, String.toList_ofList]
    rw [← hcode] at happend
    split at h
    · rename_i hrest
      rw [← happend, hrest, List.append_nil]
      exact .code kind'
    · rename_i rest hrest
      rw [← happend, hrest]
      exact .tagged kind' rest
    · cases h

theorem begins_of_ofBodyChars {text : List Char} {m : Message} (h : ofBodyChars text = .ok m) : Begins text := by
  obtain ⟨⟨kind, payload⟩, htag, -⟩ := Text.exists_of_bind_eq_ok h
  exact begins_of_readTag htag

theorem isBlank_of_mem_code (kind : Kind) : ∀ c ∈ kind.code.toList, Text.isBlank c = false := by
  have hall : (kind.code.toList.all fun c => !Text.isBlank c) = true := by cases kind <;> decide
  simpa using hall

theorem length_encode_code (kind : Kind) : (Utf8.encode kind.code.toList).length = 3 := by
  cases kind <;> decide

/-- What begins as a plain body does still does so without blanks at its ends. -/
theorem Begins.trim {text : List Char} (h : Begins text) : Begins (Text.trim text) := by
  cases h with
  | code kind =>
    rw [Text.trim_eq_self (Text.isTrim_of_forall (isBlank_of_mem_code kind))]
    exact .code kind
  | tagged kind payload =>
    have hne : kind.code.toList ≠ [] := by cases kind <;> decide
    obtain ⟨rest, hprefix, htrim⟩ := Text.exists_trim_append (isBlank_of_mem_code kind) hne (' ' :: payload)
    rw [Message.tagged, htrim]
    rcases List.prefix_cons_iff.1 hprefix with rfl | ⟨payload', rfl, -⟩
    · rw [List.append_nil]
      exact .code kind
    · exact .tagged kind payload'

/-- Base64 does not begin as a plain body does. -/
theorem not_begins_of_decode {text : List Char} {bs : Bytes} (h : Base64.decode (Utf8.encode text) = .ok bs) :
    ¬ Begins text := by
  obtain ⟨hquads, hsymbols⟩ := Base64.decode_eq_ok h
  intro hb
  cases hb with
  | code kind =>
    rw [length_encode_code] at hquads
    cases hquads
  | tagged kind payload =>
    have hspace : (32 : UInt8) ∈ Utf8.encode (Message.tagged kind payload) := by
      rw [Utf8.encode, List.mem_flatMap]
      exact ⟨' ', by simp [Message.tagged], by decide⟩
    obtain hpad | ⟨n, hvalue⟩ := hsymbols 32 hspace
    · cases hpad
    · cases hvalue

theorem readBase64_of_begins {text : List Char} (h : Begins text) : ∃ fault, readBase64 text = .error fault := by
  unfold readBase64
  split
  · rename_i bs hd
    exact absurd h.trim (not_begins_of_decode hd)
  · exact ⟨_, rfl⟩

end Message

namespace Envelope

/-- **Plain and sealed bodies are not mistaken for each other.** The frame of a plain message, whatever is in it, is not read
as a sealed one, and the frame of a sealed message is not read as a plain one. -/
theorem never_mistaken (sender : Endpoint) :
    (∀ m : Message, (∀ ciphertext, m ≠ .sealed ciphertext) → ∃ fault, ofSealedFrame (frame ⟨sender, m⟩) = .error fault) ∧
      ∀ ciphertext, ∃ fault, ofFrame (frame ⟨sender, .sealed ciphertext⟩) = .error fault := by
  refine ⟨fun m hm => ?_, fun ciphertext => ?_⟩
  · obtain ⟨fault, hread⟩ := Message.readBase64_of_begins (Message.begins_bodyChars hm)
    refine ⟨fault, ?_⟩
    simp only [ofSealedFrame, frame, Message.bodyBytes, Message.textOf, Utf8.decode_encode, hread, bind, Except.bind]
  · rcases hread : Message.ofBody (Message.bodyBytes (.sealed ciphertext)) with fault | m
    · refine ⟨fault, ?_⟩
      simp only [ofFrame, frame, hread, bind, Except.bind]
    · rw [Message.ofBody_bodyBytes_eq] at hread
      exact absurd (Message.begins_of_ofBodyChars hread) (Message.not_begins_of_decode (Base64.decode_octets ciphertext))

/-- An acknowledgement of blanks alone, and an empty ciphertext. -/
theorem never_mistaken_blank :
    (∃ fault, ofSealedFrame (frame ⟨⟨.loopback, 1⟩, .ack " \n\t "⟩) = .error fault) ∧
      ∃ fault, ofFrame (frame ⟨⟨.loopback, 1⟩, .sealed []⟩) = .error fault := by
  obtain ⟨hplain, hsealed⟩ := never_mistaken ⟨.loopback, 1⟩
  exact ⟨hplain (.ack " \n\t ") nofun, hsealed []⟩

end Envelope
end Parley
