import CilRecovery.Metadata.TypeName
import CilRecovery.Recovery.Header
import CilRecovery.Resolver.Record
import CilRecovery.Proofs.Outcome

/-!
The errors that parsing and reading may end in. Parsing a name only finds it malformed, and
reading never ends in an error that only a whole run or a decoder may report.
-/
namespace CilRecovery

namespace Error

def IsMalformed (e : Error) : Prop := ∃ reason, e = malformed reason

/-- An error that may be charged to one method and says nothing of its code. -/
def Ordinary (e : Error) : Prop := e.kind ≠ .bootstrap ∧ e.kind ≠ .streamDesync

instance (e : Error) : Decidable e.Ordinary := inferInstanceAs (Decidable (_ ∧ _))

theorem IsMalformed.ordinary {e : Error} (is : e.IsMalformed) : e.Ordinary := by
  obtain ⟨reason, rfl⟩ := is
  constructor <;> simp [kind]

end Error

namespace TypeName

open Error (IsMalformed)

theorem suffix_onlyFails (text : List Char) : OnlyFails IsMalformed (suffix text) := by
  fun_induction suffix text with
  | case1 => exact .ok []
  | case2 rest ih => exact .map ih _
  | case3 rest _ ih => exact .map ih _
  | case4 => exact .error ⟨_, rfl⟩
  | case5 _ _ _ _ _ _ _ _ ih => exact .map ih _
  | case6 => exact .error ⟨_, rfl⟩
  | case7 _ _ _ _ _ _ ih => exact ih
  | case8 => exact .error ⟨_, rfl⟩

theorem outline_onlyFails (part : List Char) : OnlyFails IsMalformed (outline part) := by
  simp only [outline]
  split
  · exact .error ⟨_, rfl⟩
  · split
    · exact .error ⟨_, rfl⟩
    · split
      · split
        · exact .error ⟨_, rfl⟩
        · split
          · exact .ok _
          · exact .ok _
      · exact .ok _

/-- The modifiers of an outline, too, are only ever malformed. -/
theorem modifiers_onlyFails {part : List Char} {parsed : Outline}
    (outlined : outline part = .ok parsed) : OnlyFails IsMalformed parsed.modifiers := by
  simp only [outline] at outlined
  split at outlined
  · cases outlined
  · split at outlined
    · cases outlined
    · split at outlined
      · split at outlined
        · cases outlined
        · split at outlined
          · cases outlined
            exact suffix_onlyFails _
          · cases outlined
            exact suffix_onlyFails _
      · cases outlined
        exact suffix_onlyFails _

theorem parseVersion_onlyFails (text : List Char) : OnlyFails IsMalformed (parseVersion text) := by
  have components (left : Nat) (parts : List (List Char)) : OnlyFails IsMalformed
      (parseVersion.go text (.malformed ("Invalid version '" ++ String.ofList text ++ "'")) left
        parts) := by
    induction parts generalizing left with
    | nil => cases left <;> exact .ok []
    | cons part rest ih =>
      cases left with
      | zero => exact .error ⟨_, rfl⟩
      | succ left =>
        rw [parseVersion.go]
        split
        · exact .error ⟨_, rfl⟩
        · exact .map (ih left) _
  exact .bind (components 4 (splitDots text)) fun _ => .ok _

theorem parseKeyToken_onlyFails (text : List Char) : OnlyFails IsMalformed (parseKeyToken text) := by
  simp only [parseKeyToken]
  split
  · exact .error ⟨_, rfl⟩
  · split
    · exact .ok _
    · exact .error ⟨_, rfl⟩

theorem addComponent_onlyFails (identity : AssemblyIdentity) (part : List Char) :
    OnlyFails IsMalformed (addComponent identity part) := by
  simp only [addComponent]
  split
  · exact .error ⟨_, rfl⟩
  · split
    · exact .bind (parseVersion_onlyFails _) fun _ => .ok _
    · exact .ok _
    · split
      · exact .ok _
      · exact .bind (parseKeyToken_onlyFails _) fun _ => .ok _
    · exact .ok _

theorem parseAssembly_onlyFails (parts : List (List Char)) :
    OnlyFails IsMalformed (parseAssembly parts) := by
  rw [parseAssembly]
  split
  · split
    · exact .error ⟨_, rfl⟩
    · exact .foldlM addComponent_onlyFails _
  · exact .error ⟨_, rfl⟩

/-- A text that is no type name is malformed. -/
theorem parse_onlyFails (text : List Char) : OnlyFails IsMalformed (parse text) := by
  induction length : text.length using Nat.strongRecOn generalizing text with
  | ind bound ih =>
    subst length
    rw [parse]
    split
    · exact .error ⟨_, rfl⟩
    · rename_i part assembly parts
      split
      · rename_i e outlined
        exact .error (outline_onlyFails part e outlined)
      · rename_i parsed outlined
        have args (arg : List Char) (member : arg ∈ parsed.args) :
            OnlyFails IsMalformed (parse arg) := by
          have shorter := length_lt_of_mem_args outlined member
          have whole : part.length ≤ text.length := length_le_of_mem_split (by simp [parts])
          exact ih arg.length (by omega) arg rfl
        refine .bind (.mapM fun arg _ => args arg.val arg.property) fun _ => ?_
        refine .bind (modifiers_onlyFails outlined) fun _ => ?_
        split
        · exact .bind (.ok none) fun _ => .ok _
        · exact .bind (.map (parseAssembly_onlyFails assembly) some) fun _ => .ok _

end TypeName

instance isPreorder_true : IsPreorder σ (fun _ _ => True) where
  refl _ := trivial
  trans _ _ _ _ _ := trivial

namespace Reader

/-- A reading operation that fails with ordinary errors only. -/
abbrev Tame (operation : ReadM α) : Prop :=
  Always (fun _ _ => True) Error.Ordinary operation

theorem Tame.result {operation : ReadM α} (tame : Tame operation) (reader : Reader) :
    OnlyFails Error.Ordinary (Reader.result operation reader) := (tame reader).2

theorem tame_onView (operation : Stream.ViewM α) : Tame (onView operation) := by
  intro reader
  refine ⟨trivial, ?_⟩
  rw [onView, run_get_bind]
  generalize operation.run.run reader.view = outcome
  obtain ⟨result, view⟩ := outcome
  cases result with
  | ok value => exact .ok value
  | error fault =>
    apply OnlyFails.error
    cases fault <;> constructor <;> simp [ofFault, Error.kind]

theorem tame_seek (position : Nat) : Tame (seek position) :=
  .bind (tame_onView _) fun _ => .pure _

theorem tame_skip (count : Nat) : Tame (skip count) := by
  unfold skip
  split
  · exact .throw (by decide)
  · exact .bind (tame_onView _) fun _ => .pure _

/-- Reading operations that are put together from reads of bytes. By themselves they only find data
malformed. -/
inductive Composed : {α : Type} → ReadM α → Prop
  | bytes (count : Nat) : Composed (bytes count)
  | pure {α : Type} (value : α) : Composed (Pure.pure value)
  | throw {α : Type} {e : Error} (is : e.IsMalformed) :
    Composed (MonadExcept.throw e : ReadM α)
  | get_bind {α : Type} {next : Reader → ReadM α} (later : ∀ reader, Composed (next reader)) :
    Composed (get >>= next)
  | bind {α β : Type} {first : ReadM α} {next : α → ReadM β} (now : Composed first)
    (later : ∀ value, Composed (next value)) : Composed (first >>= next)

namespace Composed

theorem tame {operation : ReadM α} (composed : Composed operation) : Tame operation := by
  induction composed with
  | bytes count => exact tame_onView _
  | pure value => exact .pure value
  | throw is => exact .throw is.ordinary
  | get_bind _ ih => exact fun reader => .get_bind (ih reader reader)
  | bind _ _ now later => exact .bind now later

theorem malformed (reason : String) :
    Composed (MonadExcept.throw (.malformed reason) : ReadM α) := .throw ⟨reason, rfl⟩

theorem repeated {element : ReadM α} (each : Composed element) (count : Nat) :
    Composed (repeated element count) := by
  induction count with
  | zero => exact .pure []
  | succ count ih => exact .bind each fun _ => .bind ih fun _ => .pure _

theorem number (width : Width) : Composed (number width) :=
  .bind (.bytes _) fun _ => .get_bind fun _ => .pure _

theorem u8 : Composed u8 := .bind (.bytes 1) fun _ => .pure _

theorem i8 : Composed i8 := .bind u8 fun _ => .pure _

theorem bool : Composed bool := .bind u8 fun _ => .pure _

theorem u16 : Composed u16 := .bind (number .two) fun _ => .pure _

theorem i16 : Composed i16 := .bind u16 fun _ => .pure _

theorem u32 : Composed u32 := .bind (number .four) fun _ => .pure _

theorem i32 : Composed i32 := .bind u32 fun _ => .pure _

theorem u64 : Composed u64 := .bind (number .eight) fun _ => .pure _

theorem i64 : Composed i64 := .bind u64 fun _ => .pure _

theorem decimal : Composed decimal :=
  .bind i32 fun _ => .bind i32 fun _ => .bind i32 fun _ => .bind i32 fun _ => .pure _

theorem groups (left shift sofar : Nat) : Composed (groups left shift sofar) := by
  induction left generalizing shift sofar with
  | zero => exact malformed _
  | succ left ih =>
    refine .bind u8 fun byte => ?_
    split
    · exact .pure _
    · exact ih _ _

theorem sevenBit : Composed sevenBit := groups 5 0 0

theorem string : Composed string := by
  refine .bind sevenBit fun length => ?_
  split
  · exact malformed _
  · refine .bind (.bytes length) fun bytes => ?_
    split
    · exact .pure _
    · exact malformed _

theorem count : Composed count := by
  refine .bind i32 fun count => ?_
  split
  · exact .pure _
  · exact malformed _

theorem list {element : ReadM α} (each : Composed element) : Composed (list element) :=
  .bind count fun count => repeated each count

end Composed

end Reader

open Reader

namespace MethodHeader

theorem composed_readField (header : MethodHeader) (field : HeaderField) :
    Composed (readField header field) := by
  cases field with
  | locals => exact .bind (.list .i32) fun _ => .pure _
  | parameters =>
    have param : Composed readParam := .bind .i32 fun _ => .bind .bool fun _ => .pure _
    exact .bind (.list param) fun _ => .pure _
  | name => exact .bind .string fun _ => .pure _
  | returnType => exact .bind .i32 fun _ => .pure _
  | declaringType => exact .bind .i32 fun _ => .pure _
  | bindingFlags => exact .bind .u8 fun _ => .pure _

theorem composed_read (layout : HeaderLayout) : Composed (read layout) := by
  have fields (order : List HeaderField) (header : MethodHeader) :
      Composed (readFields header order) := by
    induction order generalizing header with
    | nil => exact .pure header
    | cons field rest ih => exact .bind (composed_readField header field) ih
  exact fields layout.order {}

end MethodHeader

namespace HandlerRecord

theorem composed_readTable : Composed readTable := by
  have range : Composed readRange := .bind .u32 fun _ => .bind .u32 fun _ => .pure _
  have record : Composed read :=
    .bind .u8 fun _ => .bind .i32 fun _ => .bind range fun _ => .bind range fun _ =>
      .bind .u32 fun _ => .pure _
  exact .list record

end HandlerRecord

namespace OperandRecord

theorem composed_readHinted (layout : OperandLayout) {description : ReadM α}
    (described : Composed description) : Composed (readHinted layout description) := by
  have hint : Composed readHint := .bind .u32 fun _ => .pure _
  cases layout with
  | tokenFirst => exact .bind hint fun _ => .bind described fun _ => .pure _
  | descriptionFirst => exact .bind described fun _ => .bind hint fun _ => .pure _

theorem checkParam_onlyFails (isParam : Bool) (index : Int32) (onMethod : Bool) :
    OnlyFails Error.IsMalformed (checkParam isParam index onMethod) := by
  rw [checkParam]
  split
  · exact .ok none
  · split
    · exact .error ⟨_, rfl⟩
    · exact .ok _

theorem composed_readType (layout : OperandLayout) : Composed (readType layout) := by
  refine .bind (composed_readHinted layout (.bind .string fun _ => .bind (.list .i32)
    fun _ => .bind .bool fun _ => .bind .i32 fun _ => .bind .bool fun _ =>
      .pure _)) fun ((name, args, isParam, index, onMethod), hint) => ?_
  have fails := checkParam_onlyFails isParam index onMethod
  dsimp only
  cases checked : checkParam isParam index onMethod with
  | ok param => exact .pure _
  | error e => exact .throw (fails e checked)

theorem composed_readField (layout : OperandLayout) : Composed (readField layout) :=
  .bind (composed_readHinted layout (.bind .i32 fun _ => .bind .string fun _ => .pure _))
    fun _ => .pure _

theorem composed_readMethod (layout : OperandLayout) : Composed (readMethod layout) :=
  .bind (composed_readHinted layout (.bind .i32 fun _ => .bind .string fun _ =>
    .bind .u8 fun _ => .bind .i32 fun _ => .bind (.list .i32) fun _ =>
      .bind (.list .i32) fun _ => .pure _)) fun _ => .pure _

theorem composed_readCall : Composed readCall := by
  refine .bind .u32 fun packed => ?_
  split
  · exact .bind (.list .i32) fun _ => .pure _
  · exact .bind (.pure []) fun _ => .pure _

theorem composed_read (layout : OperandLayout) : Composed (read layout) := by
  refine .bind .u8 fun code => ?_
  have fails : OnlyFails Error.IsMalformed (RecordKind.ofCode code.toNat) := by
    rw [RecordKind.ofCode]
    split
    · exact .ok _
    · exact .error ⟨_, rfl⟩
  split
  · rename_i e unknown
    exact .throw (fails e unknown)
  · exact .bind .u32 fun _ => .pure _
  · exact .bind .string fun _ => .pure _
  · exact .bind composed_readCall fun _ => .pure _
  · exact .bind (composed_readType layout) fun _ => .pure _
  · exact .bind (composed_readField layout) fun _ => .pure _
  · exact .bind (composed_readMethod layout) fun _ => .pure _

end OperandRecord

end CilRecovery
