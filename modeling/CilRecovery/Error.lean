import CilRecovery.Metadata.Token

/-!
The causes of failure, their coarse kinds and their wording. Only a bootstrap failure ends a
whole run; all others are charged to the method at hand.
-/
namespace CilRecovery

/-- Why an operation failed. -/
inductive Error where
  /-- The inputs of a run do not fit together. -/
  | bootstrap (reason : String)
  /-- A code that the catalog lacks stands in an instruction stream. -/
  | streamDesync (offset code : Nat)
  /-- A layer of encryption cannot be removed. -/
  | crypto (reason : String)
  /-- An operand names nothing that can be referred to. -/
  | resolution (reason : String)
  /-- Data that breaks its own format. -/
  | malformed (reason : String)
  /-- Data that ends too soon. -/
  | outOfBounds
  | notSupported (reason : String)
  /-- A fault of the stream under a reader. -/
  | io (reason : String)
  | missingBody (token : Token)
  | recursionLimit (limit : Nat)
  | lockError
  deriving DecidableEq, Repr, Inhabited

/-- The coarse kind of a failure, for reports. -/
inductive FailureKind where
  | bootstrap
  | streamDesync
  | crypto
  | resolution
  | format
  deriving DecidableEq, Repr

namespace FailureKind

def name : FailureKind → String
  | bootstrap => "Bootstrap"
  | streamDesync => "StreamDesync"
  | crypto => "Crypto"
  | resolution => "Resolution"
  | format => "Format"

end FailureKind

namespace Error

def kind : Error → FailureKind
  | bootstrap _ => .bootstrap
  | streamDesync _ _ => .streamDesync
  | crypto _ => .crypto
  | resolution _ | missingBody _ | recursionLimit _ => .resolution
  | malformed _ | outOfBounds | notSupported _ | io _ | lockError => .format

/-- A fatal error ends the whole run. -/
def isFatal : Error → Bool
  | bootstrap _ => true
  | _ => false

def message : Error → String
  | bootstrap reason => "Bootstrap failure - " ++ reason
  | streamDesync offset code =>
    "Stream desynchronized at virtual offset 0x" ++ Text.hex 0 offset ++
      " - unknown opcode code 0x" ++ Text.hex 4 code
  | crypto reason => "Crypto failure - " ++ reason
  | resolution reason => "Resolution failure - " ++ reason
  | malformed reason => "Malformed - " ++ reason
  | outOfBounds => "Out of Bound read would have occurred!"
  | notSupported reason => "Not supported - " ++ reason
  | io reason => reason
  | missingBody token => "No method body for " ++ token.render
  | recursionLimit limit => "Reach the maximum recursion level allowed - " ++ toString limit
  | lockError => "Failed to lock target"

end Error

/-- Reads a token from text, blanks around it allowed. -/
def Token.parse (text : String) : Except Error Token :=
  let trimmed := Text.trim text.toList
  match Token.ofChars? trimmed with
  | some token => .ok token
  | none => .error (.malformed ("Invalid metadata token - '" ++ String.ofList trimmed ++ "'"))

end CilRecovery
