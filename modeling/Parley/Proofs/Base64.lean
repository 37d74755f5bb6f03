import Parley.Base64
import Parley.Proofs.Text.Blank
import Parley.Proofs.Text.Utf8

/-!
# Reading back Base64

What `Base64.encode` writes, `Base64.decode` reads (`decode_octets`). Every symbol is an octet that the reader takes for
the same six bits (`digit_octet`), and three octets are the four times six bits that they are cut into (`triple_cut`).
-/

namespace Parley.Base64

/-- The octet of a symbol. -/
def octet (n : Nat) : UInt8 := UInt8.ofNat (symbol n).toNat

/-! ## Symbols -/

theorem value?_octet {n : Nat} (h : n < 64) : value? (octet n) = some n := by
  revert n
  decide

theorem octet_ne_pad {n : Nat} (h : n < 64) : octet n ≠ pad := by
  revert n
  decide

theorem digit_octet {n : Nat} (h : n < 64) (offset : Nat) : digit offset (octet n) = .ok n := by
  rw [digit, value?_octet h]

/-! ## Quads -/

/-- Three octets hold the four times six bits that they are cut into. -/
theorem triple_cut (a b c : UInt8) :
    triple (a.toNat / 4) (a.toNat % 4 * 16 + b.toNat / 16) (b.toNat % 16 * 4 + c.toNat / 64) (c.toNat % 64) =
      [a, b, c] := by
  have ha := a.toNat_lt
  have hb := b.toNat_lt
  have hc := c.toNat_lt
  have hofNat : ∀ (x : UInt8) n, n = x.toNat → UInt8.ofNat n = x := fun x n h => h ▸ UInt8.ofNat_toNat
  rw [triple, hofNat a _ (by omega), hofNat b _ (by omega), hofNat c _ (by omega)]

section Last

variable {w x y z : Nat} (start : Nat)

theorem scanLast_octet {n : Nat} (h : n < 64) (pos : Nat) (rest : Bytes) {symbols : List (UInt8 × Nat)} {pads : Nat}
    (hr : scanLast start (pos + 1) none rest = .ok (symbols, pads)) :
    scanLast start pos none (octet n :: rest) = .ok ((octet n, n) :: symbols, pads) := by
  rw [scanLast, if_neg (octet_ne_pad h), digit_octet h]
  dsimp only [bind, Except.bind]
  rw [hr]
  rfl

theorem decodeLast_one (hw : w < 64) (hx : x < 64) (h : x % 16 = 0) :
    decodeLast start [octet w, octet x, pad, pad] = .ok ((triple w x 0 0).take 1) := by
  have hs : scanLast start 0 none [octet w, octet x, pad, pad] = .ok ([(octet w, w), (octet x, x)], 2) :=
    scanLast_octet start hw 0 _ (scanLast_octet start hx 1 _ rfl)
  simp [decodeLast, hs, bind, Except.bind, h]

theorem decodeLast_two (hw : w < 64) (hx : x < 64) (hy : y < 64) (h : y % 4 = 0) :
    decodeLast start [octet w, octet x, octet y, pad] = .ok ((triple w x y 0).take 2) := by
  have hs : scanLast start 0 none [octet w, octet x, octet y, pad] =
      .ok ([(octet w, w), (octet x, x), (octet y, y)], 1) :=
    scanLast_octet start hw 0 _ (scanLast_octet start hx 1 _ (scanLast_octet start hy 2 _ rfl))
  simp [decodeLast, hs, bind, Except.bind, h]

theorem decodeLast_three (hw : w < 64) (hx : x < 64) (hy : y < 64) (hz : z < 64) :
    decodeLast start [octet w, octet x, octet y, octet z] = .ok (triple w x y z) := by
  have hs : scanLast start 0 none [octet w, octet x, octet y, octet z] =
      .ok ([(octet w, w), (octet x, x), (octet y, y), (octet z, z)], 0) :=
    scanLast_octet start hw 0 _ (scanLast_octet start hx 1 _ (scanLast_octet start hy 2 _
      (scanLast_octet start hz 3 _ rfl)))
  simp [decodeLast, hs, bind, Except.bind]

/-- A quad that is not the last one. -/
theorem decodeFrom_quad (hw : w < 64) (hx : x < 64) (hy : y < 64) (hz : z < 64) {text bs : Bytes} (hne : text ≠ [])
    (h : decodeFrom (start + 4) text = .ok bs) :
    decodeFrom start (octet w :: octet x :: octet y :: octet z :: text) = .ok (triple w x y z ++ bs) := by
  obtain ⟨e, rest, rfl⟩ := List.exists_cons_of_ne_nil hne
  rw [decodeFrom, digit_octet hw, digit_octet hx, digit_octet hy, digit_octet hz]
  dsimp only [bind, Except.bind]
  rw [h]
  rfl

end Last

/-! ## Texts -/

theorem encode_eq_nil {bs : Bytes} : encode bs = [] ↔ bs = [] := by
  fun_cases encode bs <;> simp

/-- A text consists of pads and of the symbols of six-bit values. -/
theorem forall_mem_encode {p : Char → Prop} (hpad : p '=') (hp : ∀ n, n < 64 → p (symbol n)) (bs : Bytes) :
    ∀ c ∈ encode bs, p c := by
  have hs : ∀ n, p (symbol n) := by
    intro n
    by_cases h : n < 63
    · exact hp n (by omega)
    · have he : symbol n = symbol 63 := by
        unfold symbol
        rw [if_neg (by omega), if_neg (by omega), if_neg (by omega), if_neg (by omega)]
        rfl
      exact he ▸ hp 63 (by omega)
  fun_induction encode bs with
  | case1 => simp
  | case2 a => simp [hs, hpad]
  | case3 a b => simp [hs, hpad]
  | case4 a b c rest ih => simpa [hs] using ih

theorem toNat_lt_of_mem_encode (bs : Bytes) : ∀ c ∈ encode bs, c.toNat < 0x80 :=
  forall_mem_encode (by decide) (by decide) bs

/-- The octets of a text. -/
def octets (bs : Bytes) : Bytes := Utf8.encode (encode bs)

theorem octets_eq (bs : Bytes) : octets bs = (encode bs).map fun c => UInt8.ofNat c.toNat :=
  Utf8.encode_of_ascii (toNat_lt_of_mem_encode bs)

theorem decodeFrom_octets (start : Nat) (bs : Bytes) : decodeFrom start (octets bs) = .ok bs := by
  rw [octets_eq]
  fun_induction encode bs generalizing start with
  | case1 => rfl
  | case2 a =>
    have ha := a.toNat_lt
    refine (decodeLast_one start (w := a.toNat / 4) (x := a.toNat % 4 * 16) (by omega) (by omega) (by omega)).trans ?_
    have ht := congrArg (List.take 1) (triple_cut a 0 0)
    exact congrArg Except.ok ht
  | case3 a b =>
    have ha := a.toNat_lt
    have hb := b.toNat_lt
    refine (decodeLast_two start (w := a.toNat / 4) (x := a.toNat % 4 * 16 + b.toNat / 16) (y := b.toNat % 16 * 4)
      (by omega) (by omega) (by omega) (by omega)).trans ?_
    have ht := congrArg (List.take 2) (triple_cut a b 0)
    exact congrArg Except.ok ht
  | case4 a b c rest ih =>
    have ha := a.toNat_lt
    have hb := b.toNat_lt
    have hc := c.toNat_lt
    have ht := triple_cut a b c
    by_cases hr : rest = []
    · subst hr
      refine (decodeLast_three start (w := a.toNat / 4) (x := a.toNat % 4 * 16 + b.toNat / 16)
        (y := b.toNat % 16 * 4 + c.toNat / 64) (z := c.toNat % 64) (by omega) (by omega) (by omega) (by omega)).trans ?_
      exact congrArg Except.ok ht
    · refine (decodeFrom_quad start (w := a.toNat / 4) (x := a.toNat % 4 * 16 + b.toNat / 16)
        (y := b.toNat % 16 * 4 + c.toNat / 64) (z := c.toNat % 64) (by omega) (by omega) (by omega) (by omega)
        (by simpa [encode_eq_nil] using hr) (ih (start + 4))).trans ?_
      rw [ht]
      rfl

/-- Every three octets take four characters, and so do those left over. -/
theorem length_encode (bs : Bytes) : (encode bs).length = 4 * ((bs.length + 2) / 3) := by
  fun_induction encode bs with
  | case1 => rfl
  | case2 a => simp
  | case3 a b => simp
  | case4 a b c rest ih =>
    simp only [List.length_cons, ih]
    omega

theorem length_octets (bs : Bytes) : (octets bs).length = 4 * ((bs.length + 2) / 3) := by
  rw [octets_eq, List.length_map, length_encode]

/-- What is written reads back. -/
theorem decode_octets (bs : Bytes) : decode (octets bs) = .ok bs := by
  have hlen := length_octets bs
  rw [decode, strayLast?, if_neg (by omega)]
  exact decodeFrom_octets 0 bs

/-! ## What has been read -/

/-- What a Base64 text consists of. -/
def IsSymbolOrPad (b : UInt8) : Prop := b = pad ∨ ∃ n, value? b = some n

theorem exists_value_of_digit {offset n : Nat} {b : UInt8} (h : digit offset b = .ok n) : value? b = some n := by
  unfold digit at h
  split at h
  · rename_i hv
    rw [hv, Except.ok.inj h]
  · cases h

/-- A last quad that has been read consists of symbols and pads. -/
theorem scanLast_eq_ok {start pos : Nat} {firstPad : Option Nat} {quad : Bytes} {symbols : List (UInt8 × Nat)} {pads : Nat}
    (h : scanLast start pos firstPad quad = .ok (symbols, pads)) :
    symbols.length + pads = quad.length ∧ ∀ b ∈ quad, IsSymbolOrPad b := by
  induction quad generalizing pos firstPad symbols pads with
  | nil =>
    cases h
    exact ⟨rfl, nofun⟩
  | cons b rest ih =>
    rw [List.forall_mem_cons, List.length_cons]
    unfold scanLast at h
    split at h
    · rename_i hb
      split at h
      · cases h
      · obtain ⟨⟨values, n⟩, hr, h⟩ := Text.exists_of_bind_eq_ok h
        cases h
        obtain ⟨hlen, hmem⟩ := ih hr
        exact ⟨congrArg (· + 1) hlen, .inl hb, hmem⟩
    · split at h
      · cases h
      · obtain ⟨n, hn, h⟩ := Text.exists_of_bind_eq_ok h
        obtain ⟨⟨values, n'⟩, hr, h⟩ := Text.exists_of_bind_eq_ok h
        cases h
        obtain ⟨hlen, hmem⟩ := ih hr
        refine ⟨?_, .inr ⟨n, exists_value_of_digit hn⟩, hmem⟩
        rw [List.length_cons, Nat.add_right_comm, hlen]

/-- A last quad that is not empty holds an octet at least. -/
theorem ne_nil_of_decodeLast {start : Nat} {quad bs : Bytes} (h : decodeLast start quad = .ok bs) (hne : quad ≠ [])
    (hlen : quad.length ≤ 4) : bs ≠ [] := by
  unfold decodeLast at h
  split at h
  · contradiction
  obtain ⟨⟨symbols, pads⟩, hs, h⟩ := Text.exists_of_bind_eq_ok h
  obtain ⟨hsymbols, -⟩ := scanLast_eq_ok hs
  dsimp only at h
  split at h
  · cases h
  rename_i htwo
  split at h
  · cases h
  rcases symbols with _ | ⟨p, _ | ⟨q, _ | ⟨r, _ | ⟨t, _ | ⟨v, more⟩⟩⟩⟩⟩
  · simp at htwo
  · simp at htwo
  · dsimp only at h
    split at h <;> cases h
    simp [triple]
  · dsimp only at h
    split at h <;> cases h
    simp [triple]
  · cases h
    simp [triple]
  · simp only [List.length_cons] at hsymbols
    omega

/-- Only the empty text stands for no octets. -/
theorem ne_nil_of_decode {text bs : Bytes} (h : decode text = .ok bs) (hne : text ≠ []) : bs ≠ [] := by
  unfold decode at h
  split at h
  · cases h
  unfold decodeFrom at h
  split at h
  · obtain ⟨w, -, h⟩ := Text.exists_of_bind_eq_ok h
    obtain ⟨x, -, h⟩ := Text.exists_of_bind_eq_ok h
    obtain ⟨y, -, h⟩ := Text.exists_of_bind_eq_ok h
    obtain ⟨z, -, h⟩ := Text.exists_of_bind_eq_ok h
    obtain ⟨more, -, h⟩ := Text.exists_of_bind_eq_ok h
    cases h
    simp [triple]
  · rename_i hlong
    refine ne_nil_of_decodeLast h hne ?_
    rcases text with _ | ⟨a, _ | ⟨b, _ | ⟨c, _ | ⟨d, _ | ⟨e, rest⟩⟩⟩⟩⟩
    iterate 5 simp
    exact (hlong a b c d e rest rfl).elim

theorem decodeLast_eq_ok {start : Nat} {quad bs : Bytes} (h : decodeLast start quad = .ok bs) :
    quad.length % 4 = 0 ∧ ∀ b ∈ quad, IsSymbolOrPad b := by
  unfold decodeLast at h
  split at h
  · exact ⟨rfl, nofun⟩
  · obtain ⟨⟨symbols, pads⟩, hs, h⟩ := Text.exists_of_bind_eq_ok h
    obtain ⟨hlen, hmem⟩ := scanLast_eq_ok hs
    dsimp only at h
    split at h
    · cases h
    · split at h
      · cases h
      · rename_i hquad
        exact ⟨hlen ▸ Decidable.not_not.1 hquad, hmem⟩

/-- A text that has been read consists of symbols and pads, four by four. -/
theorem decodeFrom_eq_ok {start : Nat} {text bs : Bytes} (h : decodeFrom start text = .ok bs) :
    text.length % 4 = 0 ∧ ∀ b ∈ text, IsSymbolOrPad b := by
  fun_induction decodeFrom start text generalizing bs with
  | case1 start a b c d e rest ih =>
    obtain ⟨w, hw, h⟩ := Text.exists_of_bind_eq_ok h
    obtain ⟨x, hx, h⟩ := Text.exists_of_bind_eq_ok h
    obtain ⟨y, hy, h⟩ := Text.exists_of_bind_eq_ok h
    obtain ⟨z, hz, h⟩ := Text.exists_of_bind_eq_ok h
    obtain ⟨more, hmore, -⟩ := Text.exists_of_bind_eq_ok h
    obtain ⟨hlen, hmem⟩ := ih hmore
    simp only [List.length_cons, List.forall_mem_cons] at hlen hmem ⊢
    refine ⟨by omega, ?_⟩
    exact ⟨.inr ⟨w, exists_value_of_digit hw⟩, .inr ⟨x, exists_value_of_digit hx⟩, .inr ⟨y, exists_value_of_digit hy⟩,
      .inr ⟨z, exists_value_of_digit hz⟩, hmem⟩
  | case2 start quad hshort => exact decodeLast_eq_ok h

theorem decode_eq_ok {text bs : Bytes} (h : decode text = .ok bs) :
    text.length % 4 = 0 ∧ ∀ b ∈ text, IsSymbolOrPad b := by
  unfold decode at h
  split at h
  · cases h
  · exact decodeFrom_eq_ok h

end Parley.Base64
