import Mathlib.Data.List.Basic
import Parley.Proofs.Cipher.RoomKey

/-!
# Adverts

A host seals its identity for the directory to keep, and whoever has the room key opens the advert and finds the host
(`RoomKey.openAdvert_sealAdvert`). Of the adverts that the directory lists a member has use for those that its key opens and
that are not its own; they lead to the hosts that it can join (`RoomKey.hosts`).
-/

namespace Parley.RoomKey

variable (k : RoomKey) {u : Identity} {own : Endpoint}

/-- The host that an advert leads to, if the key opens the advert and the host listens elsewhere than at an endpoint. -/
def host? (own : Endpoint) (advert : Bytes) : Option Identity :=
  match k.openAdvert advert with
  | .ok u => if u.addr = own then none else some u
  | .error _ => none

/-- The hosts that adverts lead to, in the order of the adverts. -/
def hosts (own : Endpoint) (adverts : List Bytes) : List Identity := adverts.filterMap (k.host? own)

/-- The hosts are what is left of the adverts that the key opens. -/
theorem hosts_eq (own : Endpoint) (adverts : List Bytes) :
    k.hosts own adverts = (adverts.filterMap fun e => (k.openAdvert e).toOption).filter fun u => u.addr ≠ own := by
  rw [hosts, List.filter_filterMap]
  refine List.filterMap_congr fun advert _ => ?_
  unfold host?
  cases k.openAdvert advert with
  | error f => rfl
  | ok u => by_cases h : u.addr = own <;> simp [Except.toOption, Option.filter, h]

/-- The advert of a host whose name can travel leads to the host. -/
theorem openAdvert_sealAdvert (h : Identity.isValidName u.name = true) : k.openAdvert (k.sealAdvert u) = .ok u := by
  have htext : Message.textOf (Utf8.encode u.wireChars) = .ok u.wireChars := by
    rw [Message.textOf, Utf8.decode_encode]
  simp only [openAdvert, sealAdvert, decrypt_encrypt, htext, ofPlain, Identity.ofWire_wireChars .hostRoom h, bind,
    Except.bind]

theorem host?_sealAdvert (h : Identity.isValidName u.name = true) (hne : u.addr ≠ own) :
    k.host? own (k.sealAdvert u) = some u := by
  rw [host?, openAdvert_sealAdvert k h]
  exact if_neg hne

/-- A member does not join its own room. -/
theorem host?_sealAdvert_self (h : Identity.isValidName u.name = true) : k.host? u.addr (k.sealAdvert u) = none := by
  rw [host?, openAdvert_sealAdvert k h]
  exact if_pos rfl

end Parley.RoomKey
