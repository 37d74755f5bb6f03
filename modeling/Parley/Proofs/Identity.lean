import Parley.Identity
import Parley.Proofs.Text.Blank

/-!
# Reading back identities

An identity with a valid name reads back from its three fields (`Identity.ofWire_wireChars`): the name holds no blank, and
address and port are numerals, which do not hold any either.
-/

namespace Parley

/-! ## Numerals -/

namespace Decimal

theorem isDigit_of_mem_digits {n : Nat} {c : Char} (h : c ∈ digits n) : c.isDigit = true :=
  Nat.isDigit_of_mem_toDigits (by decide) (by decide) h

theorem digits_ne_nil (n : Nat) : digits n ≠ [] := Nat.toDigits_ne_nil

theorem isBlank_of_isDigit {c : Char} (h : c.isDigit = true) : Text.isBlank c = false := by
  simp only [Char.isDigit, Bool.and_eq_true, decide_eq_true_eq, ge_iff_le, UInt32.le_iff_toNat_le] at h
  have hn : 48 ≤ c.toNat ∧ c.toNat ≤ 57 := h
  rw [Bool.eq_false_iff]
  intro hb
  simp only [Text.isBlank, Bool.or_eq_true, Bool.and_eq_true, decide_eq_true_eq, beq_iff_eq] at hb
  omega

theorem bounded?_digits {n bound : Nat} (h : n < bound) : bounded? bound (digits n) = some n := by
  rw [bounded?, value?_digits, Option.filter_some, if_pos (decide_eq_true h)]

theorem signed?_digits {n bound : Nat} (h : n < bound) : signed? bound (digits n) = some n := by
  unfold signed?
  split
  · rename_i cs he
    have hplus : '+' ∈ digits n := he ▸ List.mem_cons_self
    exact absurd (isDigit_of_mem_digits hplus) (by decide)
  · exact bounded?_digits h

end Decimal

/-! ## Addresses -/

namespace Ipv4

/-- The numeral of an octet is short and has no leading zero. -/
theorem digits_octet (n : Nat) (h : n < 256) :
    (Decimal.digits n).length ≤ 3 ∧ ((Decimal.digits n).length ≤ 1 ∨ (Decimal.digits n).head? ≠ some '0') := by
  revert n
  decide +kernel

/-- Text that does not go on with a digit. -/
def Ends (rest : List Char) : Prop := ∀ c, rest.head? = some c → c.isDigit = false

theorem readOctet_digits (a : UInt8) {rest : List Char} (h : Ends rest) :
    readOctet (Decimal.digits a.toNat ++ rest) = some (a, rest) := by
  have hd : ∀ c ∈ Decimal.digits a.toNat, c.isDigit = true := fun c hc => Decimal.isDigit_of_mem_digits hc
  have hrest : rest.takeWhile Char.isDigit = [] ∧ rest.dropWhile Char.isDigit = rest := by
    cases rest with
    | nil => exact ⟨rfl, rfl⟩
    | cons c cs => simp [h c rfl]
  have ha := digits_octet a.toNat a.toNat_lt
  unfold readOctet
  simp only [List.takeWhile_append_of_pos hd, List.dropWhile_append_of_pos hd, hrest, List.append_nil]
  rw [if_pos ha, Decimal.bounded?_digits a.toNat_lt, Option.map_some, UInt8.ofNat_toNat]

theorem ends_dot (cs : List Char) : Ends ('.' :: cs) := by
  intro c hc
  obtain rfl : '.' = c := by simpa using hc
  rfl

theorem read_chars (ip : Ipv4) {rest : List Char} (h : Ends rest) : read (ip.chars ++ rest) = some (ip, rest) := by
  simp only [chars, read, List.append_assoc, List.cons_append, readOctet_digits _ (ends_dot _), readOctet_digits _ h,
    afterChar, if_true, Option.bind_eq_bind, Option.bind_some, Option.pure_def]

/-- The dotted form reads back. -/
theorem ofChars?_chars (ip : Ipv4) : ofChars? ip.chars = some ip := by
  have hnil : Ends [] := fun c hc => by simp at hc
  have h := read_chars ip hnil
  rw [List.append_nil] at h
  rw [ofChars?, h]

theorem isBlank_of_mem_chars {ip : Ipv4} {c : Char} (h : c ∈ ip.chars) : Text.isBlank c = false := by
  have hd (n : Nat) (hc : c ∈ Decimal.digits n) : Text.isBlank c = false :=
    Decimal.isBlank_of_isDigit (Decimal.isDigit_of_mem_digits hc)
  simp only [chars, List.append_assoc, List.cons_append, List.mem_append, List.mem_cons] at h
  rcases h with h | rfl | h | rfl | h | rfl | h
  · exact hd _ h
  · rfl
  · exact hd _ h
  · rfl
  · exact hd _ h
  · rfl
  · exact hd _ h

end Ipv4

/-! ## Identities -/

namespace Identity

variable {u : Identity}

theorem isBlank_of_mem_name (h : isValidName u.name = true) {c : Char} (hc : c ∈ u.name.toList) :
    Text.isBlank c = false := by
  simp only [isValidName, Bool.and_eq_true, Bool.not_eq_true', List.any_eq_false] at h
  simpa using h.2 c hc

theorem name_ne_nil (h : isValidName u.name = true) : u.name.toList ≠ [] := by
  simp only [isValidName, Bool.and_eq_true, Bool.not_eq_true', List.isEmpty_eq_false_iff] at h
  exact h.1

theorem words_wireChars (h : isValidName u.name = true) :
    Text.words u.wireChars = [u.name.toList, u.addr.ip.chars, Decimal.digits u.addr.port.toNat] := by
  have hip : ∀ c ∈ u.addr.ip.chars, Text.isBlank c = false := fun _ hc => Ipv4.isBlank_of_mem_chars hc
  have hne : u.addr.ip.chars ≠ [] := by simp [Ipv4.chars]
  have hport : ∀ c ∈ Decimal.digits u.addr.port.toNat, Text.isBlank c = false :=
    fun _ hc => Decimal.isBlank_of_isDigit (Decimal.isDigit_of_mem_digits hc)
  rw [wireChars, List.append_assoc, List.cons_append,
    Text.words_append (fun _ hc => isBlank_of_mem_name h hc) (name_ne_nil h), Text.words_append hip hne,
    Text.words_of_forall hport (Decimal.digits_ne_nil _)]

/-- An identity with a valid name reads back, whatever kind of message it stands in. -/
theorem ofWire_wireChars (kind : Kind) (h : isValidName u.name = true) : ofWire kind u.wireChars = .ok u := by
  have hport : Decimal.signed? 65536 (Decimal.digits u.addr.port.toNat) = some u.addr.port.toNat :=
    Decimal.signed?_digits u.addr.port.toNat_lt
  simp only [ofWire, words_wireChars h, Ipv4.ofChars?_chars, hport]
  simp

/-- The fields of an identity with a valid name stand on one line. -/
theorem isLine_wireChars (h : isValidName u.name = true) : Text.IsLine u.wireChars := by
  have hport : ∀ c ∈ Decimal.digits u.addr.port.toNat, Text.isBlank c = false :=
    fun _ hc => Decimal.isBlank_of_isDigit (Decimal.isDigit_of_mem_digits hc)
  refine ⟨?_, ?_, ?_⟩
  · intro hb
    simp only [wireChars, List.append_assoc, List.cons_append, List.mem_append, List.mem_cons] at hb
    rcases hb with hb | hb | hb | hb | hb
    · exact absurd (isBlank_of_mem_name h hb) (by decide)
    · exact absurd hb (by decide)
    · exact absurd (Ipv4.isBlank_of_mem_chars hb) (by decide)
    · exact absurd hb (by decide)
    · exact absurd (hport _ hb) (by decide)
  · have ht := Text.isTrim_append (fun _ hc => isBlank_of_mem_name h hc) (name_ne_nil h) hport (Decimal.digits_ne_nil _)
      (' ' :: u.addr.ip.chars ++ [' '])
    simpa [wireChars] using ht
  · simp [wireChars]

end Identity
end Parley
