import Parley.Directory.Fault
import Parley.Member.Basic

/-!
# Faults of all layers

A `Fault` is a fault of any layer. Wherever it comes from, its wording is that of the layer.
-/

namespace Parley

/-- A fault of any layer. -/
inductive Fault where
  /-- Bytes on the wire are wrong. -/
  | message (fault : Message.Fault)
  /-- A message cannot be sealed or opened. -/
  | cipher (fault : Cipher.Fault)
  /-- A connection fails. -/
  | link (fault : Link.Fault)
  /-- A member refuses a command. -/
  | member (fault : Member.Fault)
  /-- The directory cannot answer. -/
  | directory (fault : Directory.Fault)
  deriving DecidableEq, Repr

/-- The wording of a fault. -/
def Fault.text : Fault → String
  | .message f => f.message
  | .cipher f => f.text
  | .link f => f.text
  | .member f => f.text
  | .directory f => f.text

end Parley
