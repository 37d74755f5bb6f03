/-!
# Finite maps in key order

A finite map is kept as a list of keys and values, the keys in increasing order. Two maps of the same contents are then
the same list, and walking through a map needs no choice of order.

* `get?_insert_self`, `get?_insert_of_ne`: what looking up finds after an insertion;
* `get?_erase_self`, `get?_erase_of_ne`: and after a removal.
-/

namespace Parley

/-- A finite map, as keys and values in key order. -/
structure SortedMap (κ α : Type) where
  entries : List (κ × α)
  deriving DecidableEq, Repr

namespace SortedMap

variable {κ α : Type}

/-- The map without keys. -/
def empty : SortedMap κ α := ⟨[]⟩

/-- The keys, in order. -/
def keys (m : SortedMap κ α) : List κ := m.entries.map Prod.fst

/-- The values, in the order of their keys. -/
def values (m : SortedMap κ α) : List α := m.entries.map Prod.snd

/-- The number of keys. -/
def size (m : SortedMap κ α) : Nat := m.entries.length

variable [DecidableEq κ]

/-- The value at a key. -/
def get? (m : SortedMap κ α) (k : κ) : Option α := (m.entries.find? fun e => e.1 = k).map Prod.snd

/-- Whether a key has a value. -/
def contains (m : SortedMap κ α) (k : κ) : Bool := (m.get? k).isSome

/-- Removes a key. -/
def erase (m : SortedMap κ α) (k : κ) : SortedMap κ α := ⟨m.entries.filter fun e => e.1 ≠ k⟩

variable [LT κ] [DecidableLT κ]

/-- Puts an entry in its place, instead of the one with the same key if there is one. -/
def insertEntry (k : κ) (a : α) : List (κ × α) → List (κ × α)
  | [] => [(k, a)]
  | (j, b) :: es =>
    if k = j then (k, a) :: es
    else if k < j then (k, a) :: (j, b) :: es
    else (j, b) :: insertEntry k a es

/-- Gives a key a value, instead of the one that it had. -/
def insert (m : SortedMap κ α) (k : κ) (a : α) : SortedMap κ α := ⟨insertEntry k a m.entries⟩

/-! ## Looking up after a change -/

theorem get?_insert_self (m : SortedMap κ α) (k : κ) (a : α) : (m.insert k a).get? k = some a := by
  obtain ⟨es⟩ := m
  simp only [get?, insert]
  induction es with
  | nil => simp [insertEntry]
  | cons e es ih =>
    obtain ⟨j, b⟩ := e
    simp only [insertEntry]
    split
    · simp
    · rename_i h
      split
      · simp
      · rw [List.find?_cons_of_neg (by simpa using fun h' => h h'.symm)]
        exact ih

theorem get?_insert_of_ne (m : SortedMap κ α) {k j : κ} (a : α) (h : j ≠ k) :
    (m.insert k a).get? j = m.get? j := by
  obtain ⟨es⟩ := m
  simp only [get?, insert]
  induction es with
  | nil => simp [insertEntry, Ne.symm h]
  | cons e es ih =>
    obtain ⟨i, b⟩ := e
    simp only [insertEntry]
    split
    · rename_i hki
      subst hki
      rw [List.find?_cons_of_neg (by simpa using Ne.symm h), List.find?_cons_of_neg (by simpa using Ne.symm h)]
    · split
      · rw [List.find?_cons_of_neg (by simpa using Ne.symm h)]
      · by_cases hij : i = j
        · rw [List.find?_cons_of_pos (by simpa using hij), List.find?_cons_of_pos (by simpa using hij)]
        · rw [List.find?_cons_of_neg (by simpa using hij), List.find?_cons_of_neg (by simpa using hij)]
          exact ih

omit [LT κ] [DecidableLT κ] in
theorem get?_erase_self (m : SortedMap κ α) (k : κ) : (m.erase k).get? k = none := by
  simp [get?, erase, List.find?_filter]

omit [LT κ] [DecidableLT κ] in
theorem get?_erase_of_ne (m : SortedMap κ α) {k j : κ} (h : j ≠ k) : (m.erase k).get? j = m.get? j := by
  simp only [get?, erase, List.find?_filter]
  congr 1
  apply congrArg (fun p => List.find? p m.entries)
  funext e
  by_cases hj : e.1 = j <;> simp [hj, h]

end SortedMap
end Parley
