import Parley.Proofs.Message.RoundTrip

/-!
# Messages inside operations

An operation in front of a message adds 41 octets to its body (`length_bodyBytes_queue`): the code, the id and what
separates them. A list of adverts inside an operation is read back without the adverts that are empty
(`ofBody_queue_roomList`). What is read has the kind that its code says (`kind?_of_readPayload`).
-/

namespace Parley.Message

/-! ## Lengths -/

theorem isAscii_hyphenated (id : OperationId) : ∀ c ∈ id.hyphenated, c.toNat < 0x80 :=
  OperationId.forall_mem_hyphenated (by decide) (by decide) id

theorem length_encode_tagged (kind : Kind) (payload : List Char) :
    (Utf8.encode (tagged kind payload)).length = (Utf8.encode payload).length + 4 := by
  have hcode : (Utf8.encode (kind.code.toList ++ [' '])).length = 4 := by cases kind <;> decide
  have htag : tagged kind payload = kind.code.toList ++ [' '] ++ payload := by simp [tagged]
  rw [htag, Utf8.length_encode_append, hcode, Nat.add_comm]

theorem length_bodyBytes_process (id : OperationId) : (bodyBytes (.process id)).length = 40 := by
  rw [bodyBytes, bodyChars, length_encode_tagged, Utf8.length_encode_of_ascii (isAscii_hyphenated id),
    OperationId.length_hyphenated]

/-- What an operation adds to the message inside it. -/
theorem length_bodyBytes_queue (id : OperationId) (inner : Message) :
    (bodyBytes (.queue id inner)).length = inner.bodyBytes.length + 41 := by
  have hbreak : id.hyphenated ++ '\n' :: inner.bodyChars = id.hyphenated ++ ['\n'] ++ inner.bodyChars := by simp
  have hline : (Utf8.encode ['\n']).length = 1 := by decide
  rw [bodyBytes, bodyChars, length_encode_tagged, hbreak, Utf8.length_encode_append, Utf8.length_encode_append, hline,
    Utf8.length_encode_of_ascii (isAscii_hyphenated id), OperationId.length_hyphenated, ← bodyBytes]
  omega

theorem length_bodyBytes_hostRoom (payload : Bytes) :
    (bodyBytes (.hostRoom payload)).length = 4 * ((payload.length + 2) / 3) + 4 := by
  rw [bodyBytes, bodyChars, length_encode_tagged]
  exact congrArg (· + 4) (Base64.length_octets payload)

/-! ## Reading -/

theorem isWireValid_queue {id : OperationId} {inner : Message} (h : inner.isWireValid = true)
    (hq : inner.kind? ≠ some .queue) : (queue id inner).isWireValid = true := by
  simp [isWireValid, h, hq]

theorem ofBody_bodyBytes_eq (m : Message) : ofBody m.bodyBytes = ofBodyChars m.bodyChars := ofBody_encode m.bodyChars

/-- The adverts of a list that are not empty reach the other end. -/
theorem ofBody_queue_roomList (id : OperationId) (entries : List Bytes) :
    ofBody (bodyBytes (.queue id (.roomList entries))) = .ok (.queue id (.roomList (entries.filter fun e => !e.isEmpty))) := by
  have hinner : ofInnerChars (bodyChars (.roomList entries)) = .ok (.roomList (entries.filter fun e => !e.isEmpty)) := by
    rw [ofInnerChars_eq, bodyChars, readWith_tagged, readPayload, readAdverts_eq_filter]
    rfl
  rw [ofBody_bodyBytes_eq, ofBodyChars_eq, bodyChars, readWith_tagged, readPayload]
  exact readQueued_append id rfl (by decide) hinner

/-! ## What has been read -/

theorem exists_of_map_eq_ok {α β : Type} {g : α → β} {x : Except Fault α} {y : β} (h : g <$> x = .ok y) :
    ∃ a, x = .ok a ∧ g a = y := by
  cases x with
  | error e => cases h
  | ok a =>
    cases h
    exact ⟨a, rfl, rfl⟩

theorem readUpdate_eq_ok {text : List Char} {m : Message} (h : readUpdate text = .ok m) :
    ∃ token payload, m = .hostUpdated token payload ∧ token.toList ≠ [] ∧ ' ' ∉ token.toList := by
  unfold readUpdate at h
  split at h
  · contradiction
  · rename_i token advert hcut
    split at h
    · contradiction
    · rename_i hne
      have hspace := Text.not_mem_of_cutAt hcut
      rcases hread : readBase64 advert with e | payload <;>
        simp only [hread, bind, Except.bind, pure, Except.pure, reduceCtorEq, Except.ok.injEq] at h
      exact ⟨String.ofList token, payload, h.symm, by simpa using hne, by simpa using hspace⟩

theorem readQueued_eq_ok {readInner : List Char → Except Fault Message} {text : List Char} {m : Message}
    (h : readQueued readInner text = .ok m) : ∃ id inner body, m = .queue id inner ∧ readInner body = .ok inner := by
  unfold readQueued at h
  split at h
  · contradiction
  · split at h
    · contradiction
    · obtain ⟨id, -, h⟩ := Text.exists_of_bind_eq_ok h
      obtain ⟨inner, hinner, h⟩ := Text.exists_of_bind_eq_ok h
      cases h
      exact ⟨id, inner, _, rfl, hinner⟩

/-- What is read has the kind that its code says. -/
theorem kind?_of_readPayload {readInner : List Char → Except Fault Message} {kind : Kind} {text : List Char} {m : Message}
    (h : readPayload readInner kind text = .ok m) : m.kind? = some kind := by
  cases kind <;> dsimp only [readPayload] at h
  case hello | userInfo | yourInfo | deadUser | roomList | hostRoom | rankOrder | process =>
    obtain ⟨a, -, rfl⟩ := exists_of_map_eq_ok h
    rfl
  case ack | bye | requestRoomList | leaderVote | leader =>
    cases h
    rfl
  case chat =>
    unfold readChat at h
    dsimp only at h
    split at h
    · cases h
      rfl
    · contradiction
  case queue =>
    obtain ⟨id, inner, body, rfl, -⟩ := readQueued_eq_ok h
    rfl
  case hostUpdated =>
    obtain ⟨token, payload, rfl, -⟩ := readUpdate_eq_ok h
    rfl

end Parley.Message
