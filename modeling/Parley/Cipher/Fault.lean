import Parley.Message.Fault

/-!
# What can go wrong with sealed messages
-/

namespace Parley.Cipher

/-- Why something cannot be sealed or unsealed. -/
inductive Fault where
  /-- The ciphertext is empty or no whole number of blocks. -/
  | blockSize (length : Nat)
  /-- What was decrypted does not end in a filling: most often the key is another one. -/
  | padding
  /-- A plain message, with the given label, cannot be opened. -/
  | notSealed (label : String)
  /-- A sealed message cannot be sealed again. -/
  | alreadySealed
  /-- What was decrypted is no message. -/
  | message (fault : Message.Fault)
  deriving DecidableEq, Repr

/-- The wording of a fault. -/
def Fault.text : Fault → String
  | .blockSize n => s!"ciphertext of {n} bytes is not a whole number of blocks"
  | .padding => "decryption failed: invalid padding"
  | .notSealed label => s!"expected an encrypted message, got {label}"
  | .alreadySealed => "message is already encrypted"
  | .message f => f.message

end Parley.Cipher
