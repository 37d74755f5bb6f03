/-!
# Documents

Settings are stored in documents: records, lists, texts, numbers. A reader of a document either gets a value or refuses
(`none`). A record may be written as a list of the values of its fields, in order.
-/

namespace Parley

/-- A document. -/
inductive Document where
  | null
  | flag (b : Bool)
  | number (n : Int)
  /-- A number that is no integer. -/
  | fraction
  | text (s : String)
  | list (items : List Document)
  | record (fields : List (String × Document))
  deriving Inhabited

namespace Document

/-- The value of a field. -/
def field? (fields : List (String × Document)) (name : String) : Option Document :=
  (fields.find? fun f => f.1 = name).map Prod.snd

/-- The values of the named fields, in this order. Further fields are passed over. -/
def fields? (names : List String) : Document → Option (List Document)
  | record fields => names.mapM (field? fields)
  | list items => if items.length = names.length then some items else none
  | _ => none

/-- Like `fields?`, but further fields are refused. -/
def onlyFields? (names : List String) (d : Document) : Option (List Document) :=
  match d with
  | record fields => if fields.all (fun f => names.contains f.1) then d.fields? names else none
  | d => d.fields? names

/-- A number from zero up to a bound. -/
def nat? (bound : Nat) : Document → Option Nat
  | number n => if 0 ≤ n ∧ n < bound then some n.toNat else none
  | _ => none

/-- A text. -/
def text? : Document → Option String
  | text s => some s
  | _ => none

/-- A list. -/
def list? : Document → Option (List Document)
  | list items => some items
  | _ => none

end Document
end Parley
