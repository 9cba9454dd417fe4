import Mathlib.Data.Int.Notation
import Mathlib.Tactic.Common

/-!
# JSON values and instants

The proxy stores and forwards client data without looking into it: payloads, results and error
details are JSON values. Instants are JavaScript `Date` values, in milliseconds.
-/

namespace LongRequestProxy

/-- A JSON value; a number is `mantissa * 10 ^ exponent`. -/
inductive Json : Type
  | null
  | bool (b : Bool)
  | num (mantissa exponent : ℤ)
  | str (s : String)
  | arr (elems : List Json)
  | obj (fields : List (String × Json))
  deriving Inhabited

/-- The value is `null`. -/
def Json.isNull : Json → Bool
  | null => true
  | _ => false

/-- An instant in milliseconds, as `Date.getTime` returns it. -/
abbrev Timestamp : Type := ℤ

/-- `new Date(t.getTime() + seconds * 1000)`. -/
def Timestamp.addSeconds (t : Timestamp) (seconds : ℤ) : Timestamp := t + seconds * 1000

end LongRequestProxy
