import Parley.Cipher.Aes
import Parley.Proofs.Cipher.Chaining

/-!
# Decrypting blocks

`Aes.decrypt` undoes `Aes.encrypt` under every schedule (`decrypt_encrypt`), because each step of a round has an inverse:

* substitutions undo each other on all 256 octets (`unsub_sub`), and shifts of rows by their layout (`unshift_shift`);
* mixing is linear in sums of octets (`mix_xor`, `unmix_xor`), and a column is the sum of four with one octet each; these
  are turns of a single one, and it reads back because doubling is linear as well (`unmix_mix_w`, `unmix_mix`);
* adding a key twice changes nothing (`Block.xor_cancel`).
-/

namespace Parley

/-! ## Sums -/

theorem xor_left_cancel (a b : UInt8) : a ^^^ (a ^^^ b) = b := by
  rw [← UInt8.xor_assoc, UInt8.xor_self, UInt8.zero_xor]

theorem xor_left_comm (a b c : UInt8) : a ^^^ (b ^^^ c) = b ^^^ (a ^^^ c) := by
  rw [← UInt8.xor_assoc, ← UInt8.xor_assoc, UInt8.xor_comm a b]

namespace Aes

/-! ## Substituting and shifting -/

/-- The octets of a table as the digits of one number, the first one lowest. -/
def packed : List UInt8 → Nat
  | [] => 0
  | b :: bs => b.toNat + 256 * packed bs

theorem packed_shiftRight (bs : List UInt8) (n : Nat) : packed bs >>> (8 * n) % 256 = (bs.getD n 0).toNat := by
  induction bs generalizing n with
  | nil => simp [packed]
  | cons b bs ih =>
    have hb := b.toNat_lt
    cases n with
    | zero =>
      show packed (b :: bs) % 256 = b.toNat
      rw [packed]
      omega
    | succ n =>
      have hrest : packed (b :: bs) >>> 8 = packed bs := by
        rw [packed]
        omega
      rw [Nat.mul_succ, Nat.add_comm, Nat.shiftRight_add, hrest]
      exact ih n

theorem toNat_sub (b : UInt8) : (sub b).toNat = packed substitution.toList >>> (8 * b.toNat) % 256 := by
  rw [packed_shiftRight]
  simp [sub]

theorem toNat_unsub (b : UInt8) : (unsub b).toNat = packed inverseSubstitution.toList >>> (8 * b.toNat) % 256 := by
  rw [packed_shiftRight]
  simp [unsub]

-- A digit of a number is found by one shift, an entry of a list only by walking there.
theorem inverse_packed : ∀ n < 256,
    packed inverseSubstitution.toList >>> (8 * (packed substitution.toList >>> (8 * n) % 256)) % 256 = n := by
  decide +kernel

theorem unsub_sub (b : UInt8) : unsub (sub b) = b := by
  rw [← UInt8.toNat_inj, toNat_unsub, toNat_sub]
  exact inverse_packed b.toNat b.toNat_lt

theorem unsub_sub_column (a : Column) : (a.map sub).map unsub = a := by
  simp only [Column.map, unsub_sub]

theorem unshift_shift (s : Block) : unshift (shift s) = s := rfl

theorem unscramble_scramble (s : Block) : unscramble (scramble s) = s := by
  rw [unscramble, scramble, unshift_shift]
  simp only [Block.mapColumns, unsub_sub_column]

/-! ## Mixing -/

/-- What doubling adds for the bit that it shifts out. -/
def carry (b : UInt8) : UInt8 := if b < 0x80 then 0 else 0x1b

theorem twice_eq (b : UInt8) : twice b = b <<< 1 ^^^ carry b := by
  unfold twice carry
  split
  · rw [UInt8.xor_zero]
  · rfl

theorem lt_iff_msb (b : UInt8) : b < 0x80 ↔ b.toBitVec.msb = false := by
  rw [BitVec.msb_eq_false_iff_two_mul_lt, UInt8.lt_iff_toNat_lt]
  change b.toNat < 128 ↔ 2 * b.toNat < 2 ^ 8
  omega

theorem carry_xor (a b : UInt8) : carry (a ^^^ b) = carry a ^^^ carry b := by
  have hmsb : (a ^^^ b).toBitVec.msb = (a.toBitVec.msb ^^ b.toBitVec.msb) := by
    rw [UInt8.toBitVec_xor, BitVec.msb_xor]
  simp only [carry, lt_iff_msb, hmsb]
  cases a.toBitVec.msb <;> cases b.toBitVec.msb <;> rfl

theorem shiftLeft_xor (a b : UInt8) : (a ^^^ b) <<< 1 = a <<< 1 ^^^ b <<< 1 := UInt8.shiftLeft_xor ..

/-- Doubling is linear. -/
theorem twice_xor (a b : UInt8) : twice (a ^^^ b) = twice a ^^^ twice b := by
  rw [twice_eq, twice_eq, twice_eq, carry_xor, shiftLeft_xor]
  ac_rfl

theorem twice_zero : twice 0 = 0 := rfl

theorem thrice_xor (a b : UInt8) : thrice (a ^^^ b) = thrice a ^^^ thrice b := by
  simp only [thrice, twice_xor]
  ac_rfl

theorem times9_xor (a b : UInt8) : times9 (a ^^^ b) = times9 a ^^^ times9 b := by
  simp only [times9, twice_xor]
  ac_rfl

theorem times11_xor (a b : UInt8) : times11 (a ^^^ b) = times11 a ^^^ times11 b := by
  simp only [times11, twice_xor]
  ac_rfl

theorem times13_xor (a b : UInt8) : times13 (a ^^^ b) = times13 a ^^^ times13 b := by
  simp only [times13, twice_xor]
  ac_rfl

theorem times14_xor (a b : UInt8) : times14 (a ^^^ b) = times14 a ^^^ times14 b := by
  simp only [times14, twice_xor]
  ac_rfl

theorem mix_xor (a b : Column) : mix (a.xor b) = (mix a).xor (mix b) := by
  simp only [mix, Column.xor, twice_xor, thrice_xor, Column.mk.injEq]
  refine ⟨?_, ?_, ?_, ?_⟩ <;> ac_rfl

theorem unmix_xor (a b : Column) : unmix (a.xor b) = (unmix a).xor (unmix b) := by
  simp only [unmix, Column.xor, times9_xor, times11_xor, times13_xor, times14_xor, Column.mk.injEq]
  refine ⟨?_, ?_, ?_, ?_⟩ <;> ac_rfl

/-- A column is the sum of its four octets, each in its place. -/
theorem column_eq_sum (w x y z : UInt8) :
    (⟨w, x, y, z⟩ : Column) =
      (((⟨w, 0, 0, 0⟩ : Column).xor ⟨0, x, 0, 0⟩).xor ⟨0, 0, y, 0⟩).xor ⟨0, 0, 0, z⟩ := by
  simp only [Column.xor, UInt8.xor_zero, UInt8.zero_xor]

/-- All multiples of a single octet cancel in pairs, but for the octet itself. -/
theorem unmix_mix_w (w : UInt8) : unmix (mix ⟨w, 0, 0, 0⟩) = ⟨w, 0, 0, 0⟩ := by
  simp only [mix, unmix, times9, times11, times13, times14, thrice, twice_xor, twice_zero, UInt8.xor_zero, UInt8.zero_xor,
    UInt8.xor_assoc, UInt8.xor_comm, xor_left_comm, UInt8.xor_self, xor_left_cancel]

/-- A column turned by one octet. -/
def turned (a : Column) : Column := ⟨a.z, a.w, a.x, a.y⟩

theorem mix_turned (a : Column) : mix (turned a) = turned (mix a) := by
  simp only [mix, turned, Column.mk.injEq]
  refine ⟨?_, ?_, ?_, ?_⟩ <;> ac_rfl

theorem unmix_turned (a : Column) : unmix (turned a) = turned (unmix a) := by
  simp only [unmix, turned, Column.mk.injEq]
  refine ⟨?_, ?_, ?_, ?_⟩ <;> ac_rfl

/-- What reads back also does when it is turned. -/
theorem unmix_mix_turned (a : Column) (h : unmix (mix a) = a) : unmix (mix (turned a)) = turned a := by
  rw [mix_turned, unmix_turned, h]

theorem unmix_mix_x (x : UInt8) : unmix (mix ⟨0, x, 0, 0⟩) = ⟨0, x, 0, 0⟩ :=
  unmix_mix_turned ⟨x, 0, 0, 0⟩ (unmix_mix_w x)

theorem unmix_mix_y (y : UInt8) : unmix (mix ⟨0, 0, y, 0⟩) = ⟨0, 0, y, 0⟩ :=
  unmix_mix_turned ⟨0, y, 0, 0⟩ (unmix_mix_x y)

theorem unmix_mix_z (z : UInt8) : unmix (mix ⟨0, 0, 0, z⟩) = ⟨0, 0, 0, z⟩ :=
  unmix_mix_turned ⟨0, 0, z, 0⟩ (unmix_mix_y z)

theorem unmix_mix (a : Column) : unmix (mix a) = a := by
  obtain ⟨w, x, y, z⟩ := a
  rw [column_eq_sum]
  simp only [mix_xor, unmix_xor, unmix_mix_w, unmix_mix_x, unmix_mix_y, unmix_mix_z]

/-! ## Rounds -/

theorem unround_round (s k : Block) : unround k (round s k) = s := by
  rw [unround, round, Block.xor_cancel]
  simp only [Block.mapColumns, unmix_mix]
  exact unscramble_scramble s

/-- The rounds are undone in the opposite order. -/
theorem foldr_unround_foldl_round (ks : List Block) (s : Block) :
    ks.foldr unround (ks.foldl round s) = s := by
  induction ks generalizing s with
  | nil => rfl
  | cons k ks ih => rw [List.foldl_cons, List.foldr_cons, ih, unround_round]

/-- **A block reads back** under the schedule it was encrypted with. -/
theorem decrypt_encrypt (ks : Schedule) (s : Block) : decrypt ks (encrypt ks s) = s := by
  rw [decrypt, encrypt, Block.xor_cancel, unscramble_scramble, foldr_unround_foldl_round, Block.xor_cancel]

end Aes
end Parley
