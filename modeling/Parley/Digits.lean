/-!
# Fixed-width positional notation

`Digits.fixed b w n` writes the `w` lowest digits of `n` in base `b`, most significant first, and `Digits.value b ds`
reads digits back. Frame headers are written in base 256 and operation ids in base 16.

* `length_fixed`: a fixed-width numeral has exactly its width;
* `value_append_singleton`: a digit more at the end is a number `b` times as large and the digit.
-/

namespace Parley.Digits

/-- The number written by the digits `ds` in base `b`, most significant digit first. -/
def value (b : Nat) (ds : List Nat) : Nat := ds.foldl (fun n d => n * b + d) 0

/-- The `w` lowest digits of `n` in base `b`, most significant first. -/
def fixed (b : Nat) : Nat → Nat → List Nat
  | 0, _ => []
  | w + 1, n => fixed b w (n / b) ++ [n % b]

@[simp] theorem length_fixed (b w n : Nat) : (fixed b w n).length = w := by
  induction w generalizing n with
  | zero => rfl
  | succ w ih => simp [fixed, ih]

theorem value_append_singleton (b : Nat) (ds : List Nat) (d : Nat) : value b (ds ++ [d]) = value b ds * b + d := by
  simp [value]

end Parley.Digits
