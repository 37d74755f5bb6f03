import Parley.Address.Ipv4
import Parley.Bytes

/-!
# IPv6 addresses

Eight groups of sixteen bits. In text, one run of zero groups may be left out (`::`), and the last two groups may be
written as an IPv4 address. `Ipv6.chars` leaves out the first of the longest runs of at least two zero groups, and
writes an IPv4-mapped address with its dotted form.
-/

namespace Parley

/-- An IPv6 address, as its eight groups. -/
structure Ipv6 where
  groups : Vector UInt16 8
  deriving DecidableEq, Repr

namespace Ipv6

/-- A group of one to four hexadecimal digits, and the rest of the text. -/
def readGroup (cs : List Char) : Option (Nat × List Char) :=
  let ds := cs.takeWhile (fun c => (Bytes.hexValue? c).isSome)
  if ds.length = 0 ∨ ds.length > 4 then none
  else some ((ds.filterMap Bytes.hexValue?).foldl (fun n d => n * 16 + d) 0, cs.drop ds.length)

/-- The text after the colon in front of every group but the first one. -/
def afterSeparator (first : Bool) (cs : List Char) : Option (List Char) :=
  if first then some cs else Ipv4.afterChar ':' cs

/-- Groups at the head of a text, at most `room` of them: the groups, whether the last two were written as an IPv4
address, and the rest of the text. -/
def readGroups : (room : Nat) → (first : Bool) → List Char → List Nat × Bool × List Char
  | 0, _, cs => ([], false, cs)
  | room + 1, first, cs =>
    let dotted := if room = 0 then none else (afterSeparator first cs).bind Ipv4.read
    match dotted with
    | some (ip, rest) =>
      ([ip.a.toNat * 256 + ip.b.toNat, ip.c.toNat * 256 + ip.d.toNat], true, rest)
    | none =>
      match (afterSeparator first cs).bind readGroup with
      | some (g, rest) =>
        let (gs, v4, rest) := readGroups room false rest
        (g :: gs, v4, rest)
      | none => ([], false, cs)

/-- An address of eight groups, given from the left and from the right of a run of zeros. -/
def ofParts (left right : List Nat) : Ipv6 :=
  let gs := left ++ List.replicate (8 - left.length - right.length) 0 ++ right
  ⟨Vector.ofFn fun i : Fin 8 => UInt16.ofNat (gs.getD i 0)⟩

/-- An address at the head of a text, and the rest of the text. -/
def read (cs : List Char) : Option (Ipv6 × List Char) :=
  match readGroups 8 true cs with
  | (left, v4, rest) =>
    if left.length = 8 then some (ofParts left [], rest)
    else if v4 then none
    else
      match rest with
      | ':' :: ':' :: rest =>
        match readGroups (7 - left.length) true rest with
        | (right, _, rest) => some (ofParts left right, rest)
      | _ => none

/-- Where the first of the longest runs of zero groups starts, and how long it is. -/
def longestZeroRun (gs : List UInt16) : Nat × Nat :=
  let step := fun (s : Nat × Nat × Nat × Nat) (g : UInt16) =>
    match s with
    | (i, run, start, best) =>
      if g = 0 then
        if run + 1 > best then (i + 1, run + 1, i - run, run + 1) else (i + 1, run + 1, start, best)
      else (i + 1, 0, start, best)
  match gs.foldl step (0, 0, 0, 0) with
  | (_, _, start, best) => (start, best)

/-- Groups in lower-case hexadecimal with colons between them. -/
def groupChars : List UInt16 → List Char
  | [] => []
  | [g] => Nat.toDigits 16 g.toNat
  | g :: h :: gs => Nat.toDigits 16 g.toNat ++ ':' :: groupChars (h :: gs)

/-- The IPv4 address inside an IPv4-mapped address. -/
def mapped? (ip : Ipv6) : Option Ipv4 :=
  match ip.groups.toList with
  | [0, 0, 0, 0, 0, 0xFFFF, g, h] =>
    some ⟨UInt8.ofNat (g.toNat / 256), UInt8.ofNat g.toNat, UInt8.ofNat (h.toNat / 256), UInt8.ofNat h.toNat⟩
  | _ => none

/-- The written form. -/
def chars (ip : Ipv6) : List Char :=
  match ip.mapped? with
  | some v4 => "::ffff:".toList ++ v4.chars
  | none =>
    let gs := ip.groups.toList
    match longestZeroRun gs with
    | (start, n) =>
      if n > 1 then groupChars (gs.take start) ++ [':', ':'] ++ groupChars (gs.drop (start + n))
      else groupChars gs

end Ipv6
end Parley
