import Segmentor.General.Fallible
import Segmentor.General.CheckedArithmetic

/-!
# Errors

The errors of the program, with the texts a caller sees, and the results of
its fallible functions.
-/

namespace Segmentor

inductive Error
  | invalidRange (offset length sourceLen : ℕ)
  | invalidMedia (message : String)
  | configuration (message : String)
  | unsupported (message : String)
  | notFound (message : String)
  | upstream (message : String)
  | locationRejected (message : String)
  | upstreamUnavailable (message : String)
  deriving DecidableEq, Repr

abbrev Result (α : Type) : Type := Except Error α

/-- `invalid_media`: most errors of the parsers. -/
def invalidMedia (message : String) : Error :=
  .invalidMedia message

end Segmentor
