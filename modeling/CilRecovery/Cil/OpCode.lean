/-!
The CIL instruction set: for each opcode its encoding, mnemonic, inline operand and effect on
control flow.
-/
namespace CilRecovery

/-- What follows an opcode in a method body. -/
inductive InlineOperand where
  | inlineBrTarget
  | inlineField
  | inlineI
  | inlineI8
  | inlineMethod
  | inlineNone
  | inlineR
  | inlineSig
  | inlineString
  | inlineSwitch
  | inlineTok
  | inlineType
  | inlineVar
  | shortInlineBrTarget
  | shortInlineI
  | shortInlineR
  | shortInlineVar
  deriving DecidableEq, Repr

namespace InlineOperand

def name : InlineOperand → String
  | inlineBrTarget => "InlineBrTarget"
  | inlineField => "InlineField"
  | inlineI => "InlineI"
  | inlineI8 => "InlineI8"
  | inlineMethod => "InlineMethod"
  | inlineNone => "InlineNone"
  | inlineR => "InlineR"
  | inlineSig => "InlineSig"
  | inlineString => "InlineString"
  | inlineSwitch => "InlineSwitch"
  | inlineTok => "InlineTok"
  | inlineType => "InlineType"
  | inlineVar => "InlineVar"
  | shortInlineBrTarget => "ShortInlineBrTarget"
  | shortInlineI => "ShortInlineI"
  | shortInlineR => "ShortInlineR"
  | shortInlineVar => "ShortInlineVar"

/-- The width in bytes; a jump table has none of its own. -/
def size? : InlineOperand → Option Nat
  | inlineNone => some 0
  | shortInlineBrTarget | shortInlineI | shortInlineVar => some 1
  | inlineVar => some 2
  | inlineBrTarget | inlineField | inlineI | inlineMethod | inlineSig | inlineString | inlineTok
  | inlineType | shortInlineR => some 4
  | inlineI8 | inlineR => some 8
  | inlineSwitch => none

/-- Whether the operand refers to metadata. -/
def isReference : InlineOperand → Bool
  | inlineField | inlineMethod | inlineSig | inlineString | inlineTok | inlineType => true
  | _ => false

end InlineOperand

/-- How an instruction affects control flow. -/
inductive Flow where
  | sequential
  | conditionalBranch
  | unconditionalBranch
  | call
  | ret
  | switch
  | raise
  | endFinally
  | leave
  deriving DecidableEq, Repr

def Flow.name : Flow → String
  | sequential => "Sequential"
  | conditionalBranch => "ConditionalBranch"
  | unconditionalBranch => "UnconditionalBranch"
  | call => "Call"
  | ret => "Return"
  | switch => "Switch"
  | raise => "Throw"
  | endFinally => "EndFinally"
  | leave => "Leave"

/-- A CIL opcode. -/
inductive OpCode where
  | nop | breakpoint | ldarg0 | ldarg1 | ldarg2 | ldarg3 | ldloc0 | ldloc1 | ldloc2 | ldloc3
  | stloc0 | stloc1 | stloc2 | stloc3 | ldargS | ldargaS | stargS | ldlocS | ldlocaS | stlocS
  | ldnull | ldcI4M1 | ldcI40 | ldcI41 | ldcI42 | ldcI43 | ldcI44 | ldcI45 | ldcI46 | ldcI47
  | ldcI48 | ldcI4S | ldcI4 | ldcI8 | ldcR4 | ldcR8 | dup | pop | jmp | call | calli | ret | brS
  | brfalseS | brtrueS | beqS | bgeS | bgtS | bleS | bltS | bneUnS | bgeUnS | bgtUnS | bleUnS
  | bltUnS | br | brfalse | brtrue | beq | bge | bgt | ble | blt | bneUn | bgeUn | bgtUn | bleUn
  | bltUn | switch | ldindI1 | ldindU1 | ldindI2 | ldindU2 | ldindI4 | ldindU4 | ldindI8 | ldindI
  | ldindR4 | ldindR8 | ldindRef | stindRef | stindI1 | stindI2 | stindI4 | stindI8 | stindR4
  | stindR8 | add | sub | mul | div | divUn | rem | remUn | and | or | xor | shl | shr | shrUn
  | neg | not | convI1 | convI2 | convI4 | convI8 | convR4 | convR8 | convU4 | convU8 | callvirt
  | cpobj | ldobj | ldstr | newobj | castclass | isinst | convRUn | unbox | throw | ldfld
  | ldflda | stfld | ldsfld | ldsflda | stsfld | stobj | convOvfI1Un | convOvfI2Un | convOvfI4Un
  | convOvfI8Un | convOvfU1Un | convOvfU2Un | convOvfU4Un | convOvfU8Un | convOvfIUn | convOvfUUn
  | box | newarr | ldlen | ldelema | ldelemI1 | ldelemU1 | ldelemI2 | ldelemU2 | ldelemI4
  | ldelemU4 | ldelemI8 | ldelemI | ldelemR4 | ldelemR8 | ldelemRef | stelemI | stelemI1
  | stelemI2 | stelemI4 | stelemI8 | stelemR4 | stelemR8 | stelemRef | ldelem | stelem | unboxAny
  | convOvfI1 | convOvfU1 | convOvfI2 | convOvfU2 | convOvfI4 | convOvfU4 | convOvfI8 | convOvfU8
  | refanyval | ckfinite | mkrefany | ldtoken | convU2 | convU1 | convI | convOvfI | convOvfU
  | addOvf | addOvfUn | mulOvf | mulOvfUn | subOvf | subOvfUn | endfinally | leave | leaveS
  | stindI | convU | arglist | ceq | cgt | cgtUn | clt | cltUn | ldftn | ldvirtftn | ldarg
  | ldarga | starg | ldloc | ldloca | stloc | localloc | endfilter | unaligned | volatile | tail
  | initobj | constrained | cpblk | initblk | no | rethrow | sizeof | refanytype | readonly
  deriving DecidableEq, Repr

/-- The properties of an opcode. A code above 255 takes two bytes. -/
structure Encoding where
  code : UInt16
  mnemonic : String
  operand : InlineOperand
  flow : Flow

namespace OpCode

/-- The instruction set. -/
def encoding : OpCode → Encoding
  | .nop => ⟨0x00, "nop", .inlineNone, .sequential⟩
  | .breakpoint => ⟨0x01, "break", .inlineNone, .sequential⟩
  | .ldarg0 => ⟨0x02, "ldarg.0", .inlineNone, .sequential⟩
  | .ldarg1 => ⟨0x03, "ldarg.1", .inlineNone, .sequential⟩
  | .ldarg2 => ⟨0x04, "ldarg.2", .inlineNone, .sequential⟩
  | .ldarg3 => ⟨0x05, "ldarg.3", .inlineNone, .sequential⟩
  | .ldloc0 => ⟨0x06, "ldloc.0", .inlineNone, .sequential⟩
  | .ldloc1 => ⟨0x07, "ldloc.1", .inlineNone, .sequential⟩
  | .ldloc2 => ⟨0x08, "ldloc.2", .inlineNone, .sequential⟩
  | .ldloc3 => ⟨0x09, "ldloc.3", .inlineNone, .sequential⟩
  | .stloc0 => ⟨0x0A, "stloc.0", .inlineNone, .sequential⟩
  | .stloc1 => ⟨0x0B, "stloc.1", .inlineNone, .sequential⟩
  | .stloc2 => ⟨0x0C, "stloc.2", .inlineNone, .sequential⟩
  | .stloc3 => ⟨0x0D, "stloc.3", .inlineNone, .sequential⟩
  | .ldargS => ⟨0x0E, "ldarg.s", .shortInlineVar, .sequential⟩
  | .ldargaS => ⟨0x0F, "ldarga.s", .shortInlineVar, .sequential⟩
  | .stargS => ⟨0x10, "starg.s", .shortInlineVar, .sequential⟩
  | .ldlocS => ⟨0x11, "ldloc.s", .shortInlineVar, .sequential⟩
  | .ldlocaS => ⟨0x12, "ldloca.s", .shortInlineVar, .sequential⟩
  | .stlocS => ⟨0x13, "stloc.s", .shortInlineVar, .sequential⟩
  | .ldnull => ⟨0x14, "ldnull", .inlineNone, .sequential⟩
  | .ldcI4M1 => ⟨0x15, "ldc.i4.m1", .inlineNone, .sequential⟩
  | .ldcI40 => ⟨0x16, "ldc.i4.0", .inlineNone, .sequential⟩
  | .ldcI41 => ⟨0x17, "ldc.i4.1", .inlineNone, .sequential⟩
  | .ldcI42 => ⟨0x18, "ldc.i4.2", .inlineNone, .sequential⟩
  | .ldcI43 => ⟨0x19, "ldc.i4.3", .inlineNone, .sequential⟩
  | .ldcI44 => ⟨0x1A, "ldc.i4.4", .inlineNone, .sequential⟩
  | .ldcI45 => ⟨0x1B, "ldc.i4.5", .inlineNone, .sequential⟩
  | .ldcI46 => ⟨0x1C, "ldc.i4.6", .inlineNone, .sequential⟩
  | .ldcI47 => ⟨0x1D, "ldc.i4.7", .inlineNone, .sequential⟩
  | .ldcI48 => ⟨0x1E, "ldc.i4.8", .inlineNone, .sequential⟩
  | .ldcI4S => ⟨0x1F, "ldc.i4.s", .shortInlineI, .sequential⟩
  | .ldcI4 => ⟨0x20, "ldc.i4", .inlineI, .sequential⟩
  | .ldcI8 => ⟨0x21, "ldc.i8", .inlineI8, .sequential⟩
  | .ldcR4 => ⟨0x22, "ldc.r4", .shortInlineR, .sequential⟩
  | .ldcR8 => ⟨0x23, "ldc.r8", .inlineR, .sequential⟩
  | .dup => ⟨0x25, "dup", .inlineNone, .sequential⟩
  | .pop => ⟨0x26, "pop", .inlineNone, .sequential⟩
  | .jmp => ⟨0x27, "jmp", .inlineMethod, .call⟩
  | .call => ⟨0x28, "call", .inlineMethod, .call⟩
  | .calli => ⟨0x29, "calli", .inlineSig, .call⟩
  | .ret => ⟨0x2A, "ret", .inlineNone, .ret⟩
  | .brS => ⟨0x2B, "br.s", .shortInlineBrTarget, .unconditionalBranch⟩
  | .brfalseS => ⟨0x2C, "brfalse.s", .shortInlineBrTarget, .conditionalBranch⟩
  | .brtrueS => ⟨0x2D, "brtrue.s", .shortInlineBrTarget, .conditionalBranch⟩
  | .beqS => ⟨0x2E, "beq.s", .shortInlineBrTarget, .conditionalBranch⟩
  | .bgeS => ⟨0x2F, "bge.s", .shortInlineBrTarget, .conditionalBranch⟩
  | .bgtS => ⟨0x30, "bgt.s", .shortInlineBrTarget, .conditionalBranch⟩
  | .bleS => ⟨0x31, "ble.s", .shortInlineBrTarget, .conditionalBranch⟩
  | .bltS => ⟨0x32, "blt.s", .shortInlineBrTarget, .conditionalBranch⟩
  | .bneUnS => ⟨0x33, "bne.un.s", .shortInlineBrTarget, .conditionalBranch⟩
  | .bgeUnS => ⟨0x34, "bge.un.s", .shortInlineBrTarget, .conditionalBranch⟩
  | .bgtUnS => ⟨0x35, "bgt.un.s", .shortInlineBrTarget, .conditionalBranch⟩
  | .bleUnS => ⟨0x36, "ble.un.s", .shortInlineBrTarget, .conditionalBranch⟩
  | .bltUnS => ⟨0x37, "blt.un.s", .shortInlineBrTarget, .conditionalBranch⟩
  | .br => ⟨0x38, "br", .inlineBrTarget, .unconditionalBranch⟩
  | .brfalse => ⟨0x39, "brfalse", .inlineBrTarget, .conditionalBranch⟩
  | .brtrue => ⟨0x3A, "brtrue", .inlineBrTarget, .conditionalBranch⟩
  | .beq => ⟨0x3B, "beq", .inlineBrTarget, .conditionalBranch⟩
  | .bge => ⟨0x3C, "bge", .inlineBrTarget, .conditionalBranch⟩
  | .bgt => ⟨0x3D, "bgt", .inlineBrTarget, .conditionalBranch⟩
  | .ble => ⟨0x3E, "ble", .inlineBrTarget, .conditionalBranch⟩
  | .blt => ⟨0x3F, "blt", .inlineBrTarget, .conditionalBranch⟩
  | .bneUn => ⟨0x40, "bne.un", .inlineBrTarget, .conditionalBranch⟩
  | .bgeUn => ⟨0x41, "bge.un", .inlineBrTarget, .conditionalBranch⟩
  | .bgtUn => ⟨0x42, "bgt.un", .inlineBrTarget, .conditionalBranch⟩
  | .bleUn => ⟨0x43, "ble.un", .inlineBrTarget, .conditionalBranch⟩
  | .bltUn => ⟨0x44, "blt.un", .inlineBrTarget, .conditionalBranch⟩
  | .switch => ⟨0x45, "switch", .inlineSwitch, .switch⟩
  | .ldindI1 => ⟨0x46, "ldind.i1", .inlineNone, .sequential⟩
  | .ldindU1 => ⟨0x47, "ldind.u1", .inlineNone, .sequential⟩
  | .ldindI2 => ⟨0x48, "ldind.i2", .inlineNone, .sequential⟩
  | .ldindU2 => ⟨0x49, "ldind.u2", .inlineNone, .sequential⟩
  | .ldindI4 => ⟨0x4A, "ldind.i4", .inlineNone, .sequential⟩
  | .ldindU4 => ⟨0x4B, "ldind.u4", .inlineNone, .sequential⟩
  | .ldindI8 => ⟨0x4C, "ldind.i8", .inlineNone, .sequential⟩
  | .ldindI => ⟨0x4D, "ldind.i", .inlineNone, .sequential⟩
  | .ldindR4 => ⟨0x4E, "ldind.r4", .inlineNone, .sequential⟩
  | .ldindR8 => ⟨0x4F, "ldind.r8", .inlineNone, .sequential⟩
  | .ldindRef => ⟨0x50, "ldind.ref", .inlineNone, .sequential⟩
  | .stindRef => ⟨0x51, "stind.ref", .inlineNone, .sequential⟩
  | .stindI1 => ⟨0x52, "stind.i1", .inlineNone, .sequential⟩
  | .stindI2 => ⟨0x53, "stind.i2", .inlineNone, .sequential⟩
  | .stindI4 => ⟨0x54, "stind.i4", .inlineNone, .sequential⟩
  | .stindI8 => ⟨0x55, "stind.i8", .inlineNone, .sequential⟩
  | .stindR4 => ⟨0x56, "stind.r4", .inlineNone, .sequential⟩
  | .stindR8 => ⟨0x57, "stind.r8", .inlineNone, .sequential⟩
  | .add => ⟨0x58, "add", .inlineNone, .sequential⟩
  | .sub => ⟨0x59, "sub", .inlineNone, .sequential⟩
  | .mul => ⟨0x5A, "mul", .inlineNone, .sequential⟩
  | .div => ⟨0x5B, "div", .inlineNone, .sequential⟩
  | .divUn => ⟨0x5C, "div.un", .inlineNone, .sequential⟩
  | .rem => ⟨0x5D, "rem", .inlineNone, .sequential⟩
  | .remUn => ⟨0x5E, "rem.un", .inlineNone, .sequential⟩
  | .and => ⟨0x5F, "and", .inlineNone, .sequential⟩
  | .or => ⟨0x60, "or", .inlineNone, .sequential⟩
  | .xor => ⟨0x61, "xor", .inlineNone, .sequential⟩
  | .shl => ⟨0x62, "shl", .inlineNone, .sequential⟩
  | .shr => ⟨0x63, "shr", .inlineNone, .sequential⟩
  | .shrUn => ⟨0x64, "shr.un", .inlineNone, .sequential⟩
  | .neg => ⟨0x65, "neg", .inlineNone, .sequential⟩
  | .not => ⟨0x66, "not", .inlineNone, .sequential⟩
  | .convI1 => ⟨0x67, "conv.i1", .inlineNone, .sequential⟩
  | .convI2 => ⟨0x68, "conv.i2", .inlineNone, .sequential⟩
  | .convI4 => ⟨0x69, "conv.i4", .inlineNone, .sequential⟩
  | .convI8 => ⟨0x6A, "conv.i8", .inlineNone, .sequential⟩
  | .convR4 => ⟨0x6B, "conv.r4", .inlineNone, .sequential⟩
  | .convR8 => ⟨0x6C, "conv.r8", .inlineNone, .sequential⟩
  | .convU4 => ⟨0x6D, "conv.u4", .inlineNone, .sequential⟩
  | .convU8 => ⟨0x6E, "conv.u8", .inlineNone, .sequential⟩
  | .callvirt => ⟨0x6F, "callvirt", .inlineMethod, .call⟩
  | .cpobj => ⟨0x70, "cpobj", .inlineType, .sequential⟩
  | .ldobj => ⟨0x71, "ldobj", .inlineType, .sequential⟩
  | .ldstr => ⟨0x72, "ldstr", .inlineString, .sequential⟩
  | .newobj => ⟨0x73, "newobj", .inlineMethod, .call⟩
  | .castclass => ⟨0x74, "castclass", .inlineType, .sequential⟩
  | .isinst => ⟨0x75, "isinst", .inlineType, .sequential⟩
  | .convRUn => ⟨0x76, "conv.r.un", .inlineNone, .sequential⟩
  | .unbox => ⟨0x79, "unbox", .inlineType, .sequential⟩
  | .throw => ⟨0x7A, "throw", .inlineNone, .raise⟩
  | .ldfld => ⟨0x7B, "ldfld", .inlineField, .sequential⟩
  | .ldflda => ⟨0x7C, "ldflda", .inlineField, .sequential⟩
  | .stfld => ⟨0x7D, "stfld", .inlineField, .sequential⟩
  | .ldsfld => ⟨0x7E, "ldsfld", .inlineField, .sequential⟩
  | .ldsflda => ⟨0x7F, "ldsflda", .inlineField, .sequential⟩
  | .stsfld => ⟨0x80, "stsfld", .inlineField, .sequential⟩
  | .stobj => ⟨0x81, "stobj", .inlineType, .sequential⟩
  | .convOvfI1Un => ⟨0x82, "conv.ovf.i1.un", .inlineNone, .sequential⟩
  | .convOvfI2Un => ⟨0x83, "conv.ovf.i2.un", .inlineNone, .sequential⟩
  | .convOvfI4Un => ⟨0x84, "conv.ovf.i4.un", .inlineNone, .sequential⟩
  | .convOvfI8Un => ⟨0x85, "conv.ovf.i8.un", .inlineNone, .sequential⟩
  | .convOvfU1Un => ⟨0x86, "conv.ovf.u1.un", .inlineNone, .sequential⟩
  | .convOvfU2Un => ⟨0x87, "conv.ovf.u2.un", .inlineNone, .sequential⟩
  | .convOvfU4Un => ⟨0x88, "conv.ovf.u4.un", .inlineNone, .sequential⟩
  | .convOvfU8Un => ⟨0x89, "conv.ovf.u8.un", .inlineNone, .sequential⟩
  | .convOvfIUn => ⟨0x8A, "conv.ovf.i.un", .inlineNone, .sequential⟩
  | .convOvfUUn => ⟨0x8B, "conv.ovf.u.un", .inlineNone, .sequential⟩
  | .box => ⟨0x8C, "box", .inlineType, .sequential⟩
  | .newarr => ⟨0x8D, "newarr", .inlineType, .sequential⟩
  | .ldlen => ⟨0x8E, "ldlen", .inlineNone, .sequential⟩
  | .ldelema => ⟨0x8F, "ldelema", .inlineType, .sequential⟩
  | .ldelemI1 => ⟨0x90, "ldelem.i1", .inlineNone, .sequential⟩
  | .ldelemU1 => ⟨0x91, "ldelem.u1", .inlineNone, .sequential⟩
  | .ldelemI2 => ⟨0x92, "ldelem.i2", .inlineNone, .sequential⟩
  | .ldelemU2 => ⟨0x93, "ldelem.u2", .inlineNone, .sequential⟩
  | .ldelemI4 => ⟨0x94, "ldelem.i4", .inlineNone, .sequential⟩
  | .ldelemU4 => ⟨0x95, "ldelem.u4", .inlineNone, .sequential⟩
  | .ldelemI8 => ⟨0x96, "ldelem.i8", .inlineNone, .sequential⟩
  | .ldelemI => ⟨0x97, "ldelem.i", .inlineNone, .sequential⟩
  | .ldelemR4 => ⟨0x98, "ldelem.r4", .inlineNone, .sequential⟩
  | .ldelemR8 => ⟨0x99, "ldelem.r8", .inlineNone, .sequential⟩
  | .ldelemRef => ⟨0x9A, "ldelem.ref", .inlineNone, .sequential⟩
  | .stelemI => ⟨0x9B, "stelem.i", .inlineNone, .sequential⟩
  | .stelemI1 => ⟨0x9C, "stelem.i1", .inlineNone, .sequential⟩
  | .stelemI2 => ⟨0x9D, "stelem.i2", .inlineNone, .sequential⟩
  | .stelemI4 => ⟨0x9E, "stelem.i4", .inlineNone, .sequential⟩
  | .stelemI8 => ⟨0x9F, "stelem.i8", .inlineNone, .sequential⟩
  | .stelemR4 => ⟨0xA0, "stelem.r4", .inlineNone, .sequential⟩
  | .stelemR8 => ⟨0xA1, "stelem.r8", .inlineNone, .sequential⟩
  | .stelemRef => ⟨0xA2, "stelem.ref", .inlineNone, .sequential⟩
  | .ldelem => ⟨0xA3, "ldelem", .inlineType, .sequential⟩
  | .stelem => ⟨0xA4, "stelem", .inlineType, .sequential⟩
  | .unboxAny => ⟨0xA5, "unbox.any", .inlineType, .sequential⟩
  | .convOvfI1 => ⟨0xB3, "conv.ovf.i1", .inlineNone, .sequential⟩
  | .convOvfU1 => ⟨0xB4, "conv.ovf.u1", .inlineNone, .sequential⟩
  | .convOvfI2 => ⟨0xB5, "conv.ovf.i2", .inlineNone, .sequential⟩
  | .convOvfU2 => ⟨0xB6, "conv.ovf.u2", .inlineNone, .sequential⟩
  | .convOvfI4 => ⟨0xB7, "conv.ovf.i4", .inlineNone, .sequential⟩
  | .convOvfU4 => ⟨0xB8, "conv.ovf.u4", .inlineNone, .sequential⟩
  | .convOvfI8 => ⟨0xB9, "conv.ovf.i8", .inlineNone, .sequential⟩
  | .convOvfU8 => ⟨0xBA, "conv.ovf.u8", .inlineNone, .sequential⟩
  | .refanyval => ⟨0xC2, "refanyval", .inlineType, .sequential⟩
  | .ckfinite => ⟨0xC3, "ckfinite", .inlineNone, .sequential⟩
  | .mkrefany => ⟨0xC6, "mkrefany", .inlineType, .sequential⟩
  | .ldtoken => ⟨0xD0, "ldtoken", .inlineTok, .sequential⟩
  | .convU2 => ⟨0xD1, "conv.u2", .inlineNone, .sequential⟩
  | .convU1 => ⟨0xD2, "conv.u1", .inlineNone, .sequential⟩
  | .convI => ⟨0xD3, "conv.i", .inlineNone, .sequential⟩
  | .convOvfI => ⟨0xD4, "conv.ovf.i", .inlineNone, .sequential⟩
  | .convOvfU => ⟨0xD5, "conv.ovf.u", .inlineNone, .sequential⟩
  | .addOvf => ⟨0xD6, "add.ovf", .inlineNone, .sequential⟩
  | .addOvfUn => ⟨0xD7, "add.ovf.un", .inlineNone, .sequential⟩
  | .mulOvf => ⟨0xD8, "mul.ovf", .inlineNone, .sequential⟩
  | .mulOvfUn => ⟨0xD9, "mul.ovf.un", .inlineNone, .sequential⟩
  | .subOvf => ⟨0xDA, "sub.ovf", .inlineNone, .sequential⟩
  | .subOvfUn => ⟨0xDB, "sub.ovf.un", .inlineNone, .sequential⟩
  | .endfinally => ⟨0xDC, "endfinally", .inlineNone, .endFinally⟩
  | .leave => ⟨0xDD, "leave", .inlineBrTarget, .leave⟩
  | .leaveS => ⟨0xDE, "leave.s", .shortInlineBrTarget, .leave⟩
  | .stindI => ⟨0xDF, "stind.i", .inlineNone, .sequential⟩
  | .convU => ⟨0xE0, "conv.u", .inlineNone, .sequential⟩
  | .arglist => ⟨0xFE00, "arglist", .inlineNone, .sequential⟩
  | .ceq => ⟨0xFE01, "ceq", .inlineNone, .sequential⟩
  | .cgt => ⟨0xFE02, "cgt", .inlineNone, .sequential⟩
  | .cgtUn => ⟨0xFE03, "cgt.un", .inlineNone, .sequential⟩
  | .clt => ⟨0xFE04, "clt", .inlineNone, .sequential⟩
  | .cltUn => ⟨0xFE05, "clt.un", .inlineNone, .sequential⟩
  | .ldftn => ⟨0xFE06, "ldftn", .inlineMethod, .sequential⟩
  | .ldvirtftn => ⟨0xFE07, "ldvirtftn", .inlineMethod, .sequential⟩
  | .ldarg => ⟨0xFE09, "ldarg", .inlineVar, .sequential⟩
  | .ldarga => ⟨0xFE0A, "ldarga", .inlineVar, .sequential⟩
  | .starg => ⟨0xFE0B, "starg", .inlineVar, .sequential⟩
  | .ldloc => ⟨0xFE0C, "ldloc", .inlineVar, .sequential⟩
  | .ldloca => ⟨0xFE0D, "ldloca", .inlineVar, .sequential⟩
  | .stloc => ⟨0xFE0E, "stloc", .inlineVar, .sequential⟩
  | .localloc => ⟨0xFE0F, "localloc", .inlineNone, .sequential⟩
  | .endfilter => ⟨0xFE11, "endfilter", .inlineNone, .endFinally⟩
  | .unaligned => ⟨0xFE12, "unaligned.", .shortInlineI, .sequential⟩
  | .volatile => ⟨0xFE13, "volatile.", .inlineNone, .sequential⟩
  | .tail => ⟨0xFE14, "tail.", .inlineNone, .sequential⟩
  | .initobj => ⟨0xFE15, "initobj", .inlineType, .sequential⟩
  | .constrained => ⟨0xFE16, "constrained.", .inlineType, .sequential⟩
  | .cpblk => ⟨0xFE17, "cpblk", .inlineNone, .sequential⟩
  | .initblk => ⟨0xFE18, "initblk", .inlineNone, .sequential⟩
  | .no => ⟨0xFE19, "no.", .shortInlineI, .sequential⟩
  | .rethrow => ⟨0xFE1A, "rethrow", .inlineNone, .raise⟩
  | .sizeof => ⟨0xFE1C, "sizeof", .inlineType, .sequential⟩
  | .refanytype => ⟨0xFE1D, "refanytype", .inlineNone, .sequential⟩
  | .readonly => ⟨0xFE1E, "readonly.", .inlineNone, .sequential⟩

/-- Every opcode, in the order of the encodings. -/
def all : List OpCode :=
  [.nop, .breakpoint, .ldarg0, .ldarg1, .ldarg2, .ldarg3, .ldloc0, .ldloc1, .ldloc2, .ldloc3,
    .stloc0, .stloc1, .stloc2, .stloc3, .ldargS, .ldargaS, .stargS, .ldlocS, .ldlocaS, .stlocS,
    .ldnull, .ldcI4M1, .ldcI40, .ldcI41, .ldcI42, .ldcI43, .ldcI44, .ldcI45, .ldcI46, .ldcI47,
    .ldcI48, .ldcI4S, .ldcI4, .ldcI8, .ldcR4, .ldcR8, .dup, .pop, .jmp, .call, .calli, .ret, .brS,
    .brfalseS, .brtrueS, .beqS, .bgeS, .bgtS, .bleS, .bltS, .bneUnS, .bgeUnS, .bgtUnS, .bleUnS,
    .bltUnS, .br, .brfalse, .brtrue, .beq, .bge, .bgt, .ble, .blt, .bneUn, .bgeUn, .bgtUn, .bleUn,
    .bltUn, .switch, .ldindI1, .ldindU1, .ldindI2, .ldindU2, .ldindI4, .ldindU4, .ldindI8,
    .ldindI, .ldindR4, .ldindR8, .ldindRef, .stindRef, .stindI1, .stindI2, .stindI4, .stindI8,
    .stindR4, .stindR8, .add, .sub, .mul, .div, .divUn, .rem, .remUn, .and, .or, .xor, .shl, .shr,
    .shrUn, .neg, .not, .convI1, .convI2, .convI4, .convI8, .convR4, .convR8, .convU4, .convU8,
    .callvirt, .cpobj, .ldobj, .ldstr, .newobj, .castclass, .isinst, .convRUn, .unbox, .throw,
    .ldfld, .ldflda, .stfld, .ldsfld, .ldsflda, .stsfld, .stobj, .convOvfI1Un, .convOvfI2Un,
    .convOvfI4Un, .convOvfI8Un, .convOvfU1Un, .convOvfU2Un, .convOvfU4Un, .convOvfU8Un,
    .convOvfIUn, .convOvfUUn, .box, .newarr, .ldlen, .ldelema, .ldelemI1, .ldelemU1, .ldelemI2,
    .ldelemU2, .ldelemI4, .ldelemU4, .ldelemI8, .ldelemI, .ldelemR4, .ldelemR8, .ldelemRef,
    .stelemI, .stelemI1, .stelemI2, .stelemI4, .stelemI8, .stelemR4, .stelemR8, .stelemRef,
    .ldelem, .stelem, .unboxAny, .convOvfI1, .convOvfU1, .convOvfI2, .convOvfU2, .convOvfI4,
    .convOvfU4, .convOvfI8, .convOvfU8, .refanyval, .ckfinite, .mkrefany, .ldtoken, .convU2,
    .convU1, .convI, .convOvfI, .convOvfU, .addOvf, .addOvfUn, .mulOvf, .mulOvfUn, .subOvf,
    .subOvfUn, .endfinally, .leave, .leaveS, .stindI, .convU, .arglist, .ceq, .cgt, .cgtUn, .clt,
    .cltUn, .ldftn, .ldvirtftn, .ldarg, .ldarga, .starg, .ldloc, .ldloca, .stloc, .localloc,
    .endfilter, .unaligned, .volatile, .tail, .initobj, .constrained, .cpblk, .initblk, .no,
    .rethrow, .sizeof, .refanytype, .readonly]

def code (op : OpCode) : UInt16 := op.encoding.code

def mnemonic (op : OpCode) : String := op.encoding.mnemonic

def operand (op : OpCode) : InlineOperand := op.encoding.operand

def flow (op : OpCode) : Flow := op.encoding.flow

/-- The opcode with a code, if any has it. -/
def ofCode? (code : UInt16) : Option OpCode :=
  all.find? fun op => op.code == code

/-- The opcode with a mnemonic, if any has it. -/
def ofMnemonic? (text : String) : Option OpCode :=
  all.find? fun op => op.mnemonic == text

/-- The number that a short form of `ldc.i4` pushes. -/
def implicitI4? : OpCode → Option Int32
  | .ldcI4M1 => some (-1)
  | .ldcI40 => some 0
  | .ldcI41 => some 1
  | .ldcI42 => some 2
  | .ldcI43 => some 3
  | .ldcI44 => some 4
  | .ldcI45 => some 5
  | .ldcI46 => some 6
  | .ldcI47 => some 7
  | .ldcI48 => some 8
  | _ => none

/-- The slot that a short form of a local or argument access names. -/
def implicitIndex? : OpCode → Option Nat
  | .ldarg0 | .ldloc0 | .stloc0 => some 0
  | .ldarg1 | .ldloc1 | .stloc1 => some 1
  | .ldarg2 | .ldloc2 | .stloc2 => some 2
  | .ldarg3 | .ldloc3 | .stloc3 => some 3
  | _ => none

def isLoadLocal : OpCode → Bool
  | .ldloc0 | .ldloc1 | .ldloc2 | .ldloc3 | .ldlocS | .ldloc => true
  | _ => false

def isStoreLocal : OpCode → Bool
  | .stloc0 | .stloc1 | .stloc2 | .stloc3 | .stlocS | .stloc => true
  | _ => false

def isLoadArg : OpCode → Bool
  | .ldarg0 | .ldarg1 | .ldarg2 | .ldarg3 | .ldargS | .ldarg => true
  | _ => false

def isStoreArg : OpCode → Bool
  | .stargS | .starg => true
  | _ => false

def isLoadConstI4 (op : OpCode) : Bool :=
  op.implicitI4?.isSome ||
    match op with
    | .ldcI4S | .ldcI4 => true
    | _ => false

def isCall : OpCode → Bool
  | .call | .callvirt => true
  | _ => false

def isBranchTrue : OpCode → Bool
  | .brtrue | .brtrueS => true
  | _ => false

def isBranchFalse : OpCode → Bool
  | .brfalse | .brfalseS => true
  | _ => false

def isUnconditionalBranch : OpCode → Bool
  | .br | .brS => true
  | _ => false

/-- Whether the opcode converts a number, as all mnemonics in `conv.` do. -/
def isConversion (op : OpCode) : Bool := op.mnemonic.startsWith "conv."

/-- Whether a slot operand counts arguments rather than locals. -/
def indexesArguments : OpCode → Bool
  | .ldarg | .ldargS | .ldarga | .ldargaS | .starg | .stargS => true
  | _ => false

/-- Whether the operand is a branch target or a jump table. -/
def isBranch (op : OpCode) : Bool :=
  match op.operand with
  | .inlineBrTarget | .shortInlineBrTarget | .inlineSwitch => true
  | _ => false

end OpCode

end CilRecovery
