import Parley.Bytes
import Parley.Digits

/-!
# Operation ids

A directory operation is named by a 128-bit number, in the notation of UUIDs: 32 hexadecimal digits, plain (`simple`) or
in groups of 8, 4, 4, 4 and 12 with hyphens between them (`hyphenated`). Read are digits of either case, and around the
grouped form also braces or the label `urn:uuid:`, in letters of either case.
-/

namespace Parley

/-- The name of a directory operation. -/
structure OperationId where
  value : BitVec 128
  deriving DecidableEq, Repr

namespace OperationId

/-- The id zero. -/
def nil : OperationId := ⟨0⟩

/-- The id with the given number, less what does not fit in 128 bits. -/
def ofNat (n : Nat) : OperationId := ⟨BitVec.ofNat 128 n⟩

instance : LT OperationId := ⟨fun a b => a.value < b.value⟩

instance : DecidableLT OperationId := fun a b => inferInstanceAs (Decidable (a.value < b.value))

/-- The 32 lower-case hexadecimal digits. -/
def simple (id : OperationId) : List Char := (Digits.fixed 16 32 id.value.toNat).map Bytes.hexDigit

/-- The digits in groups of 8, 4, 4, 4 and 12. -/
def hyphenated (id : OperationId) : List Char :=
  let ds := id.simple
  ds.take 8 ++ '-' :: (ds.drop 8).take 4 ++ '-' :: (ds.drop 12).take 4 ++ '-' :: (ds.drop 16).take 4 ++
    '-' :: ds.drop 20

/-- The digits in groups. -/
def render (id : OperationId) : String := String.ofList id.hyphenated

instance : ToString OperationId := ⟨render⟩

/-- The id of 32 hexadecimal digits. -/
def ofDigits? (cs : List Char) : Option OperationId :=
  if cs.length = 32 then (cs.mapM Bytes.hexValue?).map fun ds => ofNat (Digits.value 16 ds) else none

/-- The id of digits in groups. -/
def ofGroups? (cs : List Char) : Option OperationId :=
  if cs.length = 36 ∧ cs[8]? = some '-' ∧ cs[13]? = some '-' ∧ cs[18]? = some '-' ∧ cs[23]? = some '-' then
    ofDigits? (cs.take 8 ++ (cs.drop 9).take 4 ++ (cs.drop 14).take 4 ++ (cs.drop 19).take 4 ++ cs.drop 24)
  else none

/-- The label that may stand in front of the groups. -/
def label : List Char := "urn:uuid:".toList

/-- The id that a text stands for. -/
def ofChars? (cs : List Char) : Option OperationId :=
  if cs.length = 32 then ofDigits? cs
  else if cs.length = 36 then ofGroups? cs
  else if cs.length = 38 ∧ cs.head? = some '\x7b' ∧ cs.getLast? = some '\x7d' then ofGroups? (cs.drop 1).dropLast
  else if cs.length = 45 ∧ (cs.take 9).map Char.toLower = label then ofGroups? (cs.drop 9)
  else none

end OperationId
end Parley
