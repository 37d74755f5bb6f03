import Mathlib.Algebra.Group.Nat.Defs
import Mathlib.Data.List.Induction
import Parley.OperationId
import Parley.Proofs.Text.Blank

/-!
# Reading back operation ids

The groups of digits of an operation id read back (`ofChars?_hyphenated`): digits of a number in a base are read back up
to the power of the base that their width allows (`Digits.value_fixed`), and 32 hexadecimal digits allow 128 bits.
-/

namespace Parley

/-! ## Digits -/

namespace Digits

theorem value_fixed (b w n : Nat) : value b (fixed b w n) = n % b ^ w := by
  induction w generalizing n with
  | zero => simp [fixed, value, Nat.mod_one]
  | succ w ih =>
    rw [fixed, value_append_singleton, ih, Nat.pow_succ', Nat.mod_mul, Nat.mul_comm b, Nat.add_comm]

theorem lt_of_mem_fixed {b w n d : Nat} (hb : 0 < b) (h : d ∈ fixed b w n) : d < b := by
  induction w generalizing n with
  | zero => simp [fixed] at h
  | succ w ih =>
    rw [fixed, List.mem_append, List.mem_singleton] at h
    rcases h with h | rfl
    · exact ih h
    · exact Nat.mod_lt n hb

/-- Digits are those of the number that they stand for. -/
theorem fixed_value {b : Nat} {ds : List Nat} (h : ∀ d ∈ ds, d < b) : fixed b ds.length (value b ds) = ds := by
  induction ds using List.reverseRecOn with
  | nil => rfl
  | append_singleton ds d ih =>
    have hd : d < b := h d (by simp)
    have hdiv : (value b ds * b + d) / b = value b ds := by
      rw [Nat.mul_comm, Nat.mul_add_div (Nat.zero_lt_of_lt hd), Nat.div_eq_of_lt hd, Nat.add_zero]
    have hmod : (value b ds * b + d) % b = d := by
      rw [Nat.mul_comm, Nat.mul_add_mod, Nat.mod_eq_of_lt hd]
    rw [List.length_append, List.length_singleton, value_append_singleton, fixed, hdiv, hmod,
      ih fun e he => h e (List.mem_append_left _ he)]

end Digits

namespace OperationId

theorem hexValue?_hexDigit {n : Nat} (h : n < 16) : Bytes.hexValue? (Bytes.hexDigit n) = some n := by
  revert n
  decide

theorem length_simple (id : OperationId) : id.simple.length = 32 := by simp [simple]

theorem ofDigits?_simple (id : OperationId) : ofDigits? id.simple = some id := by
  have hdigits : id.simple.mapM Bytes.hexValue? = some (Digits.fixed 16 32 id.value.toNat) :=
    Text.mapM_map_of_forall fun n h => hexValue?_hexDigit (Digits.lt_of_mem_fixed (by decide) h)
  have hlt : id.value.toNat % 16 ^ 32 = id.value.toNat := Nat.mod_eq_of_lt id.value.isLt
  rw [ofDigits?, if_pos id.length_simple, hdigits, Option.map_some, Digits.value_fixed, hlt]
  simp [ofNat]

/-! ## Groups -/

theorem ofGroups?_append {a b c d e : List Char} (ha : a.length = 8) (hb : b.length = 4) (hc : c.length = 4)
    (hd : d.length = 4) (he : e.length = 12) :
    ofGroups? (a ++ '-' :: b ++ '-' :: c ++ '-' :: d ++ '-' :: e) = ofDigits? (a ++ b ++ c ++ d ++ e) := by
  simp [ofGroups?, List.drop_append, List.drop_of_length_le, ha, hb, hc, hd, he]

theorem length_hyphenated (id : OperationId) : id.hyphenated.length = 36 := by
  simp [hyphenated, length_simple]

/-- The groups of an id read back. -/
theorem ofChars?_hyphenated (id : OperationId) : ofChars? id.hyphenated = some id := by
  have hlen := id.length_simple
  have hsplit : id.simple.take 8 ++ (id.simple.drop 8).take 4 ++ (id.simple.drop 12).take 4 ++
      (id.simple.drop 16).take 4 ++ id.simple.drop 20 = id.simple := by
    have h (k : Nat) : (id.simple.drop k).take 4 ++ id.simple.drop (k + 4) = id.simple.drop k := by
      rw [← List.drop_drop, List.take_append_drop]
    simp only [List.append_assoc, h, List.take_append_drop]
  rw [ofChars?, if_neg (by simp [length_hyphenated]), if_pos id.length_hyphenated, hyphenated, ofGroups?_append, hsplit,
    ofDigits?_simple]
  all_goals simp [hlen]

/-- An id consists of hexadecimal digits and hyphens. -/
theorem forall_mem_hyphenated {p : Char → Prop} (hdash : p '-') (hp : ∀ n, n < 16 → p (Bytes.hexDigit n))
    (id : OperationId) : ∀ c ∈ id.hyphenated, p c := by
  have hs : ∀ c ∈ id.simple, p c := by
    intro c hc
    obtain ⟨n, hn, rfl⟩ := List.mem_map.1 hc
    exact hp n (Digits.lt_of_mem_fixed (by decide) hn)
  have htake : ∀ k j, ∀ c ∈ (id.simple.drop k).take j, p c :=
    fun k j c hc => hs c (List.mem_of_mem_drop (List.mem_of_mem_take hc))
  intro c hc
  simp only [hyphenated, List.append_assoc, List.cons_append, List.mem_append, List.mem_cons] at hc
  rcases hc with hc | rfl | hc | rfl | hc | rfl | hc | rfl | hc
  · exact hs c (List.mem_of_mem_take hc)
  · exact hdash
  · exact htake 8 4 c hc
  · exact hdash
  · exact htake 12 4 c hc
  · exact hdash
  · exact htake 16 4 c hc
  · exact hdash
  · exact hs c (List.mem_of_mem_drop hc)

end OperationId
end Parley
