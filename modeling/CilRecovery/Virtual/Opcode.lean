import CilRecovery.Cil.OpCode
import CilRecovery.Error

/-!
Virtual opcodes: their operand types and what they stand for.
-/
namespace CilRecovery

namespace InlineOperand

/-- The operand types in the order of their virtual codes. -/
def all : List InlineOperand :=
  [inlineBrTarget, inlineField, inlineI, inlineI8, inlineMethod, inlineNone, inlineR, inlineSig,
    inlineString, inlineSwitch, inlineTok, inlineType, inlineVar, shortInlineBrTarget,
    shortInlineI, shortInlineR, shortInlineVar]

/-- The number of an operand type in a handler table. -/
def virtualCode (operand : InlineOperand) : Nat := all.idxOf operand

def ofVirtualCode (code : Nat) : Except Error InlineOperand :=
  match all[code]? with
  | some operand => .ok operand
  | none => .error (.bootstrap ("Unknown virtual operand type " ++ toString code))

/-- The width in bytes in a virtual instruction stream, where also short branch targets take four
bytes. -/
def virtualWidth? : InlineOperand → Option Nat
  | shortInlineBrTarget => some 4
  | operand => operand.size?

/-- Whether the short form of an opcode goes with the operand type. -/
def isShort : InlineOperand → Bool
  | shortInlineBrTarget | shortInlineVar | shortInlineI => true
  | _ => false

end InlineOperand

namespace OpCode

/-- The opcodes with a long and a short form. -/
def forms : List (OpCode × OpCode) :=
  [(.br, .brS), (.brfalse, .brfalseS), (.brtrue, .brtrueS), (.beq, .beqS), (.bge, .bgeS),
    (.bgt, .bgtS), (.ble, .bleS), (.blt, .bltS), (.bneUn, .bneUnS), (.bgeUn, .bgeUnS),
    (.bgtUn, .bgtUnS), (.bleUn, .bleUnS), (.bltUn, .bltUnS), (.leave, .leaveS), (.ldloc, .ldlocS),
    (.stloc, .stlocS), (.ldloca, .ldlocaS), (.ldarg, .ldargS), (.starg, .stargS),
    (.ldarga, .ldargaS), (.ldcI4, .ldcI4S)]

/-- The form of an opcode that goes with a virtual operand type. -/
def formFor (op : OpCode) (operand : InlineOperand) : OpCode :=
  match forms.find? fun pair => pair.1 == op || pair.2 == op with
  | some (long, short) => if operand.isShort then short else long
  | none => op

end OpCode

/-- Virtual opcodes without a CIL opcode of their own. -/
inductive Special where
  /-- A call whose operand packs flags with a position. -/
  | packedCall
  /-- The start of a range under the chain cipher. -/
  | chainBoundary
  | noEffect
  deriving DecidableEq, Repr

def Special.name : Special → String
  | packedCall => "EazCall"
  | chainBoundary => "ChainBoundary"
  | noEffect => "NoEffect"

/-- What a virtual opcode stands for. -/
inductive OpcodeKind where
  | cil (opcode : OpCode)
  | special (role : Special)
  | unidentified
  deriving DecidableEq, Repr

namespace OpcodeKind

def render : OpcodeKind → String
  | cil opcode => opcode.mnemonic
  | special role => "<" ++ role.name ++ ">"
  | unidentified => "<unidentified>"

/-- Reads a kind as it is rendered. -/
def parse? (text : String) : Option OpcodeKind :=
  let odd := unidentified ::
    [Special.packedCall, Special.chainBoundary, Special.noEffect].map special
  match odd.find? fun kind => kind.render == text with
  | some kind => some kind
  | none => (OpCode.ofMnemonic? text).map cil

end OpcodeKind

/-- A virtual opcode. -/
structure VirtualOpcode where
  code : UInt32
  operand : InlineOperand
  kind : OpcodeKind
  handler : Token
  deriving DecidableEq, Repr

namespace VirtualOpcode

def isIdentified (opcode : VirtualOpcode) : Bool := opcode.kind != .unidentified

def opcode? (opcode : VirtualOpcode) : Option OpCode :=
  match opcode.kind with
  | .cil op => some op
  | _ => none

def special? (opcode : VirtualOpcode) : Option Special :=
  match opcode.kind with
  | .special role => some role
  | _ => none

end VirtualOpcode

end CilRecovery
