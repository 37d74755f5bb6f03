import Parley.Bytes

/-!
# Blocks of sixteen octets

A block is four columns of four octets. `Block.ofBytes` cuts a byte string into blocks and `Block.join` puts them
together again.
-/

namespace Parley

/-- Four octets. -/
structure Column where
  w : UInt8
  x : UInt8
  y : UInt8
  z : UInt8
  deriving DecidableEq, Repr

/-- The sum of two columns, octet by octet and without carries. -/
def Column.xor (a b : Column) : Column := ⟨a.w ^^^ b.w, a.x ^^^ b.x, a.y ^^^ b.y, a.z ^^^ b.z⟩

/-- Applies a function to every octet. -/
def Column.map (f : UInt8 → UInt8) (a : Column) : Column := ⟨f a.w, f a.x, f a.y, f a.z⟩

/-- The octets of a column. -/
def Column.bytes (a : Column) : Bytes := [a.w, a.x, a.y, a.z]

/-- Sixteen octets, column by column. -/
structure Block where
  a : Column
  b : Column
  c : Column
  d : Column
  deriving DecidableEq, Repr

namespace Block

/-- The size of a block. -/
def size : Nat := 16

/-- The sum of two blocks, octet by octet and without carries. -/
def xor (s t : Block) : Block := ⟨s.a.xor t.a, s.b.xor t.b, s.c.xor t.c, s.d.xor t.d⟩

/-- Applies a function to every column. -/
def mapColumns (f : Column → Column) (s : Block) : Block := ⟨f s.a, f s.b, f s.c, f s.d⟩

/-- The octets of a block. -/
def bytes (s : Block) : Bytes := s.a.bytes ++ s.b.bytes ++ s.c.bytes ++ s.d.bytes

/-- The blocks of a byte string. Octets after the last whole block are dropped. -/
def ofBytes : Bytes → List Block
  | a :: b :: c :: d :: e :: f :: g :: h :: i :: j :: k :: l :: m :: n :: o :: p :: rest =>
    ⟨⟨a, b, c, d⟩, ⟨e, f, g, h⟩, ⟨i, j, k, l⟩, ⟨m, n, o, p⟩⟩ :: ofBytes rest
  | _ => []

/-- The octets of blocks, one after the other. -/
def join (bs : List Block) : Bytes := bs.flatMap bytes

@[simp] theorem length_bytes (s : Block) : s.bytes.length = 16 := rfl

/-- A block is cut off the front of its octets. -/
theorem ofBytes_bytes_append (s : Block) (rest : Bytes) : ofBytes (s.bytes ++ rest) = s :: ofBytes rest := rfl

/-- Cutting undoes joining. -/
theorem ofBytes_join (bs : List Block) : ofBytes (join bs) = bs := by
  induction bs with
  | nil => rfl
  | cons s bs ih => rw [join, List.flatMap_cons, ofBytes_bytes_append]; exact congrArg _ ih

end Block
end Parley
