import Parley.Message.Reader
import Parley.Proofs.Base64
import Parley.Proofs.Identity
import Parley.Proofs.OperationId

/-!
# Reading back messages

A message that can travel as plain text reads back from its body (`ofBody_bodyBytes`), whatever its texts, adverts, times
and ids are. Each payload comes apart at the separators that its pieces do not hold: blanks for identities, line feeds for
lists and for a queued operation, the first space for a line of chat and for an updated advert.

A message inside a queued operation is none itself, so the reader goes one level deep: messages that are no operations
read back with any reader for what is inside (`readWith_bodyChars`), and then operations do.
-/

namespace Parley.Message

/-! ## Fields -/

theorem isBlank_of_mem_base64 (bs : Bytes) : ∀ c ∈ Base64.encode bs, Text.isBlank c = false :=
  Base64.forall_mem_encode (by decide) (by decide) bs

theorem readBase64_encode (bs : Bytes) : readBase64 (Base64.encode bs) = .ok bs := by
  have ht := Text.trim_eq_self (Text.isTrim_of_forall (isBlank_of_mem_base64 bs))
  have hd : Base64.decode (Utf8.encode (Base64.encode bs)) = .ok bs := Base64.decode_octets bs
  rw [readBase64, ht, hd]

theorem isBlank_of_mem_id (id : OperationId) : ∀ c ∈ id.hyphenated, Text.isBlank c = false :=
  OperationId.forall_mem_hyphenated (by decide) (by decide) id

theorem readId_hyphenated (id : OperationId) : readId id.hyphenated = .ok id := by
  have ht := Text.trim_eq_self (Text.isTrim_of_forall (isBlank_of_mem_id id))
  rw [readId, ht, OperationId.ofChars?_hyphenated]

theorem readChat_digits (timestamp : UInt64) (text : String) :
    readChat (Decimal.digits timestamp.toNat ++ ' ' :: text.toList) = .ok (.chat timestamp text) := by
  have hspace : ' ' ∉ Decimal.digits timestamp.toNat :=
    fun h => absurd (Decimal.isDigit_of_mem_digits h) (by decide)
  have hstamp : Decimal.signed? UInt64.size (Decimal.digits timestamp.toNat) = some timestamp.toNat :=
    Decimal.signed?_digits timestamp.toNat_lt
  rw [readChat, Text.cutAt_append hspace]
  simp only [Option.getD_some, hstamp]
  simp

theorem readUpdate_append {token : String} (hne : token.toList ≠ []) (hspace : ' ' ∉ token.toList) (payload : Bytes) :
    readUpdate (token.toList ++ ' ' :: Base64.encode payload) = .ok (.hostUpdated token payload) := by
  rw [readUpdate, Text.cutAt_append hspace]
  simp [hne, readBase64_encode, bind, Except.bind, pure, Except.pure]

/-- Adverts that are empty do not read back. -/
theorem readAdverts_eq_filter (entries : List Bytes) :
    (Text.contentLines (Text.join ['\n'] (entries.map Base64.encode))).mapM readBase64 =
      .ok (entries.filter fun e => !e.isEmpty) := by
  have hlines : ∀ l ∈ entries.map Base64.encode, '\n' ∉ l ∧ Text.IsTrim l := by
    intro l hl
    obtain ⟨e, -, rfl⟩ := List.mem_map.1 hl
    refine ⟨fun hb => ?_, Text.isTrim_of_forall (isBlank_of_mem_base64 e)⟩
    exact absurd (isBlank_of_mem_base64 e _ hb) (by decide)
  have hempty : (fun l : List Char => !l.isEmpty) ∘ Base64.encode = fun e => !e.isEmpty := by
    funext e
    rw [Function.comp_apply, Bool.eq_iff_iff]
    simp [Base64.encode_eq_nil]
  rw [Text.contentLines_join_eq_filter hlines, List.filter_map, hempty]
  exact Text.mapM_map_of_forall fun e _ => readBase64_encode e

theorem readAdverts {entries : List Bytes} (h : ∀ e ∈ entries, e ≠ []) :
    (Text.contentLines (Text.join ['\n'] (entries.map Base64.encode))).mapM readBase64 = .ok entries := by
  rw [readAdverts_eq_filter, List.filter_eq_self.2]
  exact fun e he => by simp [h e he]

theorem readUsers (kind : Kind) {users : List Identity} (h : ∀ u ∈ users, Identity.isValidName u.name = true) :
    (Text.contentLines (Text.join ['\n'] (users.map Identity.wireChars))).mapM (Identity.ofWire kind) = .ok users := by
  have hlines : ∀ l ∈ users.map Identity.wireChars, Text.IsLine l := by
    intro l hl
    obtain ⟨u, hu, rfl⟩ := List.mem_map.1 hl
    exact Identity.isLine_wireChars (h u hu)
  rw [Text.contentLines_join hlines]
  exact Text.mapM_map_of_forall fun u hu => Identity.ofWire_wireChars kind (h u hu)

/-! ## Codes -/

theorem splitBytes_code (kind : Kind) (rest : List Char) :
    Text.splitBytes 3 (kind.code.toList ++ rest) = some (kind.code.toList, rest) := by
  have hsize : (Utf8.encode kind.code.toList).length = 3 := by cases kind <;> decide
  rw [← hsize]
  exact Text.splitBytes_append kind.code.toList rest

theorem readTag_tagged (kind : Kind) (payload : List Char) : readTag (tagged kind payload) = .ok (kind, payload) := by
  simp [readTag, splitCode, tagged, splitBytes_code, Kind.ofCode?_code]

theorem readTag_code (kind : Kind) : readTag kind.code.toList = .ok (kind, []) := by
  have h := splitBytes_code kind []
  rw [List.append_nil] at h
  simp [readTag, splitCode, h, Kind.ofCode?_code]

/-- The body of a message of a kind begins with its code. -/
theorem bodyChars_eq_code_append {m : Message} {kind : Kind} (h : m.kind? = some kind) :
    ∃ rest, m.bodyChars = kind.code.toList ++ rest := by
  cases m <;> simp only [kind?, Option.some.injEq, reduceCtorEq] at h <;> subst h
  all_goals exact ⟨_, rfl⟩

theorem code_injective {j k : Kind} (h : j.code.toList = k.code.toList) : j = k := by
  have hc := Kind.ofCode?_code j
  rw [String.toList_inj.1 h, Kind.ofCode?_code k] at hc
  exact (Option.some.inj hc).symm

/-! ## Messages -/

/-- Reads a body. The body inside a queued operation is read by `readInner`. -/
def readWith (readInner : List Char → Except Fault Message) (text : List Char) : Except Fault Message := do
  let (kind, payload) ← readTag text
  readPayload readInner kind payload

theorem ofInnerChars_eq : ofInnerChars = readWith fun _ => .error (.malformed .queue .nestedOperation) := rfl

theorem ofBodyChars_eq : ofBodyChars = readWith ofInnerChars := rfl

theorem readWith_tagged (readInner : List Char → Except Fault Message) (kind : Kind) (payload : List Char) :
    readWith readInner (tagged kind payload) = readPayload readInner kind payload := by
  rw [readWith, readTag_tagged]
  rfl

theorem readWith_code (readInner : List Char → Except Fault Message) (kind : Kind) :
    readWith readInner kind.code.toList = readPayload readInner kind [] := by
  rw [readWith, readTag_code]
  rfl

/-- A message that is no operation reads back. -/
theorem readWith_bodyChars {m : Message} (h : m.isWireValid = true) (hq : m.kind? ≠ some .queue)
    (readInner : List Char → Except Fault Message) : readWith readInner m.bodyChars = .ok m := by
  cases m with
  | hello u | userInfo u | yourInfo u | deadUser u =>
    rw [bodyChars, readWith_tagged, readPayload, Identity.ofWire_wireChars _ h]
    rfl
  | chat timestamp text => rw [bodyChars, readWith_tagged, readPayload, readChat_digits]
  | ack info => rw [bodyChars, readWith_tagged, readPayload, String.ofList_toList]
  | bye | requestRoomList | leaderVote | leader =>
    rw [bodyChars, readWith_code]
    rfl
  | roomList entries =>
    have he : ∀ e ∈ entries, e ≠ [] := by simpa [isWireValid] using h
    rw [bodyChars, readWith_tagged, readPayload, readAdverts he]
    rfl
  | hostRoom payload =>
    rw [bodyChars, readWith_tagged, readPayload, readBase64_encode]
    rfl
  | rankOrder users =>
    have hu : ∀ u ∈ users, Identity.isValidName u.name = true := by simpa [isWireValid] using h
    rw [bodyChars, readWith_tagged, readPayload, readUsers _ hu]
    rfl
  | process id =>
    rw [bodyChars, readWith_tagged, readPayload, readId_hyphenated]
    rfl
  | queue id inner => exact absurd rfl hq
  | hostUpdated token payload =>
    have ht : token.toList ≠ [] ∧ ' ' ∉ token.toList := by simpa [isWireValid] using h
    rw [bodyChars, readWith_tagged, readPayload, readUpdate_append ht.1 ht.2]
  | sealed ciphertext => simp [isWireValid] at h

/-- A queued operation is read if what is in it is and is no operation. -/
theorem readQueued_append (id : OperationId) {inner found : Message} {kind : Kind} (hk : inner.kind? = some kind)
    (hq : kind ≠ .queue) {readInner : List Char → Except Fault Message} (h : readInner inner.bodyChars = .ok found) :
    readQueued readInner (id.hyphenated ++ '\n' :: inner.bodyChars) = .ok (.queue id found) := by
  have hbreak : '\n' ∉ id.hyphenated := fun hb => absurd (isBlank_of_mem_id id _ hb) (by decide)
  obtain ⟨rest, hr⟩ := bodyChars_eq_code_append hk
  have hcode : (Text.splitBytes 3 inner.bodyChars).map Prod.fst ≠ some Kind.queue.code.toList := by
    rw [hr, splitBytes_code, Option.map_some]
    exact fun hc => hq (code_injective (Option.some.inj hc))
  rw [readQueued, Text.cutAt_append hbreak]
  dsimp only
  rw [if_neg hcode, readId_hyphenated, h]
  rfl

theorem ofBodyChars_bodyChars {m : Message} (h : m.isWireValid = true) : ofBodyChars m.bodyChars = .ok m := by
  by_cases hq : m.kind? = some .queue
  · cases m <;> simp only [kind?, Option.some.injEq, reduceCtorEq] at hq
    rename_i id inner
    simp only [isWireValid, Bool.and_eq_true, bne_iff_ne, ne_eq] at h
    obtain ⟨hq, hv⟩ := h
    obtain ⟨kind, hk⟩ : ∃ kind, inner.kind? = some kind := by
      cases inner <;> simp [kind?, isWireValid] at hv ⊢
    have hne : kind ≠ .queue := fun e => hq (e ▸ hk)
    have hinner : ofInnerChars inner.bodyChars = .ok inner := by
      rw [ofInnerChars_eq]
      exact readWith_bodyChars hv hq _
    rw [ofBodyChars_eq, bodyChars, readWith_tagged, readPayload]
    exact readQueued_append id hk hne hinner
  · rw [ofBodyChars_eq]
    exact readWith_bodyChars h hq ofInnerChars

/-- The body of a message is read off the octets of its text. -/
theorem ofBody_encode (text : List Char) : ofBody (Utf8.encode text) = ofBodyChars text := by
  rw [ofBody, textOf, Utf8.decode_encode]
  rfl

/-- **Messages read back.** A message that can travel as plain text is what its body says. -/
theorem ofBody_bodyBytes {m : Message} (h : m.isWireValid = true) : ofBody m.bodyBytes = .ok m := by
  rw [ofBody, textOf, bodyBytes, Utf8.decode_encode]
  exact ofBodyChars_bodyChars h

/-- A queued operation that holds a token with a line feed. -/
theorem ofBody_bodyBytes_queue :
    ofBody (bodyBytes (.queue .nil (.hostUpdated "a\nb" [0, 255]))) = .ok (.queue .nil (.hostUpdated "a\nb" [0, 255])) :=
  ofBody_bodyBytes (by decide)

end Parley.Message
