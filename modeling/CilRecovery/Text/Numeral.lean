/-!
Numerals: digits up to base 16, unsigned numbers in a base with a limit, and hexadecimal text
of a fixed least width.
-/
namespace CilRecovery.Text

/-- The value of a digit in base 16, whichever its case. -/
def digitValue? (c : Char) : Option Nat :=
  if '0' ≤ c ∧ c ≤ '9' then some (c.toNat - '0'.toNat)
  else if 'a' ≤ c ∧ c ≤ 'f' then some (c.toNat - 'a'.toNat + 10)
  else if 'A' ≤ c ∧ c ≤ 'F' then some (c.toNat - 'A'.toNat + 10)
  else none

/-- The value of a run of digits below `base`, after the digits already read. -/
def digitsValue? (base : Nat) : (sofar : Nat) → List Char → Option Nat
  | sofar, [] => some sofar
  | sofar, c :: rest =>
    match digitValue? c with
    | some d => if d < base then digitsValue? base (sofar * base + d) rest else none
    | none => none

/-- Drops one leading plus sign. -/
def dropPlus : List Char → List Char
  | '+' :: rest => rest
  | text => text

/-- An unsigned number below `limit`: one plus sign may stand before at least one digit. -/
def parseNat? (base limit : Nat) (text : List Char) : Option Nat :=
  let digits := dropPlus text
  if digits.isEmpty then none
  else
    match digitsValue? base 0 digits with
    | some n => if n < limit then some n else none
    | none => none

/-- Hexadecimal digits in lower case, with zeros in front up to `width` digits. -/
def hex (width n : Nat) : String :=
  let digits := Nat.toDigits 16 n
  String.ofList (List.replicate (width - digits.length) '0' ++ digits)

end CilRecovery.Text
