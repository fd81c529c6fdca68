import CilRecovery.Bytes
import CilRecovery.Error

/-!
Byte permutations. Numbers of two, four and eight bytes are written with their bytes permuted;
a profile has one permutation for each width.
-/
namespace CilRecovery

/-- A list in brackets. -/
def renderNats (numbers : List Nat) : String :=
  "[" ++ String.intercalate ", " (numbers.map toString) ++ "]"

/-- A permutation of the bytes of a number: byte `i` of the stream is byte `order[i]` of the
number, the least significant being byte zero. -/
structure Permutation where
  order : List Nat
  isPerm : order.Perm (List.range order.length)
  deriving DecidableEq

namespace Permutation

/-- The widths that numbers are permuted at. -/
def widths : List Nat := [2, 4, 8]

/-- Accepts the arrangements of `0 .. width - 1` for the three widths. -/
def ofOrder (order : List Nat) : Except Error Permutation :=
  if order.length ∉ widths then
    .error (.bootstrap ("Unsupported primitive width " ++ toString order.length))
  else if valid : order.Perm (List.range order.length) then .ok ⟨order, valid⟩
  else .error (.bootstrap (renderNats order ++ " is not a byte permutation"))

/-- The permutation that changes nothing, of at most eight bytes. -/
def identity (width : Nat) : Permutation :=
  ⟨List.range (min width 8), by simp⟩

def width (permutation : Permutation) : Nat := permutation.order.length

def isIdentity (permutation : Permutation) : Bool :=
  permutation.order == List.range permutation.width

/-- The eight bytes of a number, least significant first, from the bytes in the stream. -/
def unscramble (permutation : Permutation) (stream : Bytes) : Bytes :=
  (List.range 8).map fun place =>
    (stream.take permutation.width).getD (permutation.order.idxOf place) 0

/-- The bytes in the stream from those of a number. -/
def scramble (permutation : Permutation) (bytes : Bytes) : Bytes :=
  permutation.order.map fun place => bytes.getD place 0

/-- The number that bytes in the stream stand for. -/
def decode (permutation : Permutation) (stream : Bytes) : Nat :=
  (permutation.unscramble stream).toNat

/-- The bytes in the stream that stand for a number. -/
def encode (permutation : Permutation) (n : Nat) : Bytes :=
  permutation.scramble (Bytes.ofNat permutation.width n)

def render (permutation : Permutation) : String :=
  "Permutation" ++ renderNats permutation.order

end Permutation

/-- The widths of numbers in a stream. -/
inductive Width where
  | two
  | four
  | eight
  deriving DecidableEq, Repr

def Width.bytes : Width → Nat
  | two => 2
  | four => 4
  | eight => 8

/-- One permutation for each width. -/
structure Profile where
  two : Permutation
  four : Permutation
  eight : Permutation
  width_two : two.width = 2
  width_four : four.width = 4
  width_eight : eight.width = 8
  deriving DecidableEq

namespace Profile

def wrongWidth (expected : Nat) (permutation : Permutation) : Error :=
  .bootstrap ("Expected a " ++ toString expected ++ "-byte permutation, got " ++ permutation.render)

/-- Puts three permutations together, in the order of their widths. -/
def ofPermutations (two four eight : Permutation) : Except Error Profile :=
  if h2 : two.width = 2 then
    if h4 : four.width = 4 then
      if h8 : eight.width = 8 then .ok ⟨two, four, eight, h2, h4, h8⟩
      else .error (wrongWidth 8 eight)
    else .error (wrongWidth 4 four)
  else .error (wrongWidth 2 two)

def ofOrders (two four eight : List Nat) : Except Error Profile := do
  let two ← Permutation.ofOrder two
  let four ← Permutation.ofOrder four
  let eight ← Permutation.ofOrder eight
  ofPermutations two four eight

def identity : Profile :=
  ⟨.identity 2, .identity 4, .identity 8, rfl, rfl, rfl⟩

instance : Inhabited Profile := ⟨identity⟩

def get (profile : Profile) : Width → Permutation
  | .two => profile.two
  | .four => profile.four
  | .eight => profile.eight

@[simp]
theorem width_get (profile : Profile) (width : Width) :
    (profile.get width).width = width.bytes := by
  cases width <;>
    simp [get, Width.bytes, profile.width_two, profile.width_four, profile.width_eight]

end Profile

/-- The two uses of profiles: headers, tables and records, or instructions. -/
inductive ProfileKind where
  | general
  | instruction
  deriving DecidableEq, Repr

def ProfileKind.name : ProfileKind → String
  | general => "General"
  | instruction => "Instruction"

/-- The profile for each use. -/
structure Profiles where
  general : Profile := .identity
  instruction : Profile := .identity
  deriving DecidableEq, Inhabited

def Profiles.get (profiles : Profiles) : ProfileKind → Profile
  | .general => profiles.general
  | .instruction => profiles.instruction

end CilRecovery
