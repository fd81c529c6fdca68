import CilRecovery.Error
import CilRecovery.Metadata.TypeSig

/-!
Type names as reflection writes them: a namespace, names joined by `+`, generic arguments in
brackets, modifiers, and the assembly behind a comma. A backslash takes the special meaning from
the character after it.
-/
namespace CilRecovery

/-- What is put around an element type. -/
inductive TypeModifier where
  | vector
  | array (rank : Nat)
  | pointer
  | byRef
  deriving DecidableEq, Repr

namespace TypeModifier

def apply (element : TypeSig) : TypeModifier → TypeSig
  | vector => .vector element
  | array rank => .array element rank
  | pointer => .pointer element
  | byRef => .byRef element

end TypeModifier

/-- A type name in its parts. -/
structure TypeName where
  /-- The namespace of the outermost type. -/
  space : String
  /-- The names from the outermost type to the one that is named. -/
  nesting : List String
  args : List TypeName
  /-- The modifiers, the innermost first. -/
  modifiers : List TypeModifier
  assembly : Option AssemblyIdentity

namespace TypeName

/-- The named type without arguments and modifiers. -/
def typeRef (name : TypeName) : TypeRef :=
  let outermost := TypeRef.top .local name.space (name.nesting.headD "")
  let ref := name.nesting.tail.foldl TypeRef.nestedIn outermost
  match name.assembly with
  | some identity => ref.withScope (.assembly identity)
  | none => ref

/-- Puts the modifiers around an element type. -/
def applyModifiers (name : TypeName) (element : TypeSig) : TypeSig :=
  name.modifiers.foldl TypeModifier.apply element

/-- The part up to the first comma outside brackets, and the parts after it. -/
def splitFirst : (depth : Nat) → List Char → List Char × List (List Char)
  | _, [] => ([], [])
  | _, ['\\'] => (['\\'], [])
  | depth, '\\' :: c :: rest =>
    let (first, more) := splitFirst depth rest
    ('\\' :: c :: first, more)
  | depth, c :: rest =>
    if c = ',' ∧ depth = 0 then
      let (first, more) := splitFirst depth rest
      ([], first :: more)
    else
      let inside := if c = '[' then depth + 1 else if c = ']' then depth - 1 else depth
      let (first, more) := splitFirst inside rest
      (c :: first, more)

/-- The parts between commas outside brackets; an empty text has none. -/
def split (text : List Char) : List (List Char) :=
  if text.isEmpty then []
  else
    let (first, more) := splitFirst 0 text
    first :: more

/-- The text up to the bracket that closes a group, and what follows it. -/
def closeGroup? : (depth : Nat) → List Char → Option (List Char × List Char)
  | _, [] => none
  | _, ['\\'] => none
  | depth, '\\' :: c :: rest =>
    (closeGroup? depth rest).map fun (inner, after) => ('\\' :: c :: inner, after)
  | depth, c :: rest =>
    if c = ']' ∧ depth = 0 then some ([], rest)
    else
      let inside := if c = '[' then depth + 1 else if c = ']' then depth - 1 else depth
      (closeGroup? inside rest).map fun (inner, after) => (c :: inner, after)

/-- What a group in brackets is. -/
inductive Group where
  | modifier (modifier : TypeModifier)
  | args (inner : List Char)

def Group.ofInner (inner : List Char) : Group :=
  if inner.isEmpty then .modifier .vector
  else if inner = ['*'] then .modifier (.array 1)
  else if inner.all fun c => c == ',' || Text.isBlank c then
    .modifier (.array (inner.count ',' + 1))
  else .args inner

theorem length_closeGroup? {depth : Nat} {text inner after : List Char}
    (closed : closeGroup? depth text = some (inner, after)) :
    inner.length + after.length < text.length := by
  fun_induction closeGroup? depth text generalizing inner after with
  | case1 => cases closed
  | case2 => cases closed
  | case3 depth c rest ih =>
    obtain ⟨⟨i, a⟩, found, same⟩ := Option.map_eq_some_iff.mp closed
    obtain ⟨rfl, rfl⟩ := Prod.mk.inj same
    have := ih found
    simp only [List.length_cons]
    omega
  | case4 =>
    obtain ⟨rfl, rfl⟩ := Prod.mk.inj (Option.some.inj closed)
    simp
  | case5 =>
    rename_i ih
    obtain ⟨⟨i, a⟩, found, same⟩ := Option.map_eq_some_iff.mp closed
    obtain ⟨rfl, rfl⟩ := Prod.mk.inj same
    have := ih found
    simp only [List.length_cons]
    omega

def unbalanced : Error := .malformed "Unbalanced brackets in type name"

/-- The modifiers after a name and its arguments. -/
def suffix (text : List Char) : Except Error (List TypeModifier) :=
  match text with
  | [] => .ok []
  | c :: rest =>
    if c = '*' then (suffix rest).map (.pointer :: ·)
    else if c = '&' then (suffix rest).map (.byRef :: ·)
    else if c = '[' then
      match _closed : closeGroup? 0 rest with
      | none => .error unbalanced
      | some (inner, after) =>
        match Group.ofInner (Text.trim inner) with
        | .modifier modifier => (suffix after).map (modifier :: ·)
        | .args _ => .error (.malformed "Unexpected bracket group in type name")
    else if Text.isBlank c then suffix rest
    else .error (.malformed ("Unexpected '" ++ c.toString ++ "' in type name"))
termination_by text.length
decreasing_by
  all_goals simp_wf
  have := length_closeGroup? _closed
  omega

/-- Puts an element in front of the first of some lists. -/
def extendFirst (a : α) : List (List α) → List (List α)
  | first :: more => (a :: first) :: more
  | [] => [[a]]

/-- The names joined by `+`, each character with the mark whether it was escaped, and the text
from the first modifier or group on. -/
def scanNames : List Char → List (List (Char × Bool)) × List Char
  | [] => ([[]], [])
  | ['\\'] => ([[]], [])
  | '\\' :: c :: rest =>
    let (names, tail) := scanNames rest
    (extendFirst (c, true) names, tail)
  | c :: rest =>
    if c = '+' then
      let (names, tail) := scanNames rest
      ([] :: names, tail)
    else if c = '[' ∨ c = '*' ∨ c = '&' then ([[]], c :: rest)
    else
      let (names, tail) := scanNames rest
      (extendFirst (c, false) names, tail)

/-- Splits a name at its last dot that is not escaped. -/
def splitSpace (name : List (Char × Bool)) : Option (List Char) × List Char :=
  let last := (name.reverse.takeWhile fun c => c != ('.', false)).reverse
  if last.length = name.length then (none, name.map Prod.fst)
  else (some ((name.take (name.length - last.length - 1)).map Prod.fst), last.map Prod.fst)

/-- The texts of the arguments in a group, without brackets of their own. -/
def argTexts (inner : List Char) : List (List Char) :=
  (split inner).map fun arg =>
    let trimmed := Text.trim arg
    if trimmed.head? = some '[' ∧ trimmed.getLast? = some ']' then trimmed.tail.dropLast
    else trimmed

/-- A name of which the arguments are still text. What comes after them may be in error. -/
structure Outline where
  space : String
  nesting : List String
  args : List (List Char)
  modifiers : Except Error (List TypeModifier)

/-- The part of a name before the assembly. -/
def outline (part : List Char) : Except Error Outline :=
  let text := Text.trim part
  let (names, tail) := scanNames text
  if names.any List.isEmpty then
    .error (.malformed ("Invalid type name '" ++ String.ofList text ++ "'"))
  else
    let (space, outermost) := splitSpace (names.headD [])
    if outermost.isEmpty then .error (.malformed "Type name ends with a namespace separator")
    else
      let base : Outline :=
        { space := String.ofList (space.getD [])
          nesting := (outermost :: names.tail.map (·.map Prod.fst)).map String.ofList
          args := []
          modifiers := suffix tail }
      match tail with
      | '[' :: rest =>
        match closeGroup? 0 rest with
        | none => .error unbalanced
        | some (inner, after) =>
          match Group.ofInner (Text.trim inner) with
          | .modifier _ => .ok base
          | .args inner => .ok { base with args := argTexts inner, modifiers := suffix after }
      | _ => .ok base

/-- The parts between dots. -/
def splitDots : List Char → List (List Char)
  | [] => [[]]
  | c :: rest =>
    if c = '.' then [] :: splitDots rest else extendFirst c (splitDots rest)

/-- A version of up to four components. -/
def parseVersion (text : List Char) : Except Error Version := do
  let invalid : Error := .malformed ("Invalid version '" ++ String.ofList text ++ "'")
  let components ← go invalid 4 (splitDots text)
  let component (index : Nat) : UInt16 := UInt16.ofNat (components.getD index 0)
  return ⟨component 0, component 1, component 2, component 3⟩
where
  /-- Reads at most `left` components. -/
  go (invalid : Error) : (left : Nat) → List (List Char) → Except Error (List Nat)
    | _, [] => .ok []
    | 0, _ :: _ =>
      .error (.malformed ("Version '" ++ String.ofList text ++ "' has too many components"))
    | left + 1, part :: rest =>
      match Text.parseNat? 10 0x10000 part with
      | none => .error invalid
      | some n => (go invalid left rest).map (n :: ·)

/-- Bytes from pairs of hexadecimal digits. -/
def bytesOfPairs? : List Char → Option Bytes
  | [] => some []
  | [_] => none
  | a :: b :: rest => do
    let n ← Text.parseNat? 16 256 [a, b]
    let more ← bytesOfPairs? rest
    return UInt8.ofNat n :: more

/-- A public key token in hexadecimal digits. -/
def parseKeyToken (text : List Char) : Except Error Bytes :=
  let shown := String.ofList text
  if shown.utf8ByteSize % 2 ≠ 0 then
    .error (.malformed ("Odd-length public key token '" ++ shown ++ "'"))
  else
    match bytesOfPairs? text with
    | some bytes => .ok bytes
    | none => .error (.malformed ("Invalid public key token '" ++ shown ++ "'"))

/-- Whether a text is a word, whatever the case of its ASCII letters. -/
def isWord (word : String) (text : List Char) : Bool :=
  text.map Char.toLower == word.toList

/-- Adds one component of an assembly name. Components with other keys are ignored. -/
def addComponent (identity : AssemblyIdentity) (part : List Char) :
    Except Error AssemblyIdentity := do
  let key := part.takeWhile (· != '=')
  if key.length = part.length then
    throw (.malformed ("Invalid assembly name component '" ++ String.ofList part ++ "'"))
  let value := Text.trim (part.drop (key.length + 1))
  match String.ofList (Text.trim key) with
  | "Version" => return { identity with version := some (← parseVersion value) }
  | "Culture" =>
    let culture := if isWord "neutral" value then none else some (String.ofList value)
    return { identity with culture }
  | "PublicKeyToken" =>
    if isWord "null" value then return { identity with publicKeyToken := none }
    else return { identity with publicKeyToken := some (← parseKeyToken value) }
  | _ => return identity

/-- An assembly name: the simple name and its components. -/
def parseAssembly (parts : List (List Char)) : Except Error AssemblyIdentity :=
  match parts.map Text.trim with
  | simple :: components =>
    if simple.isEmpty then .error (.malformed "Empty assembly name")
    else components.foldlM addComponent { name := String.ofList simple }
  | [] => .error (.malformed "Empty assembly name")

theorem length_trim_le (text : List Char) : (Text.trim text).length ≤ text.length := by
  have dropped (l : List Char) : (l.dropWhile Text.isBlank).length ≤ l.length :=
    (List.dropWhile_sublist _).length_le
  simp only [Text.trim, Text.trimEnd, Text.trimStart, List.length_reverse]
  have outer := dropped (text.dropWhile Text.isBlank).reverse
  have inner := dropped text
  simp only [List.length_reverse] at outer
  omega

theorem length_splitFirst_le (depth : Nat) (text : List Char) :
    (splitFirst depth text).1.length ≤ text.length ∧
      ∀ part ∈ (splitFirst depth text).2, part.length ≤ text.length := by
  fun_induction splitFirst depth text <;> grind

theorem length_le_of_mem_split {text part : List Char} (member : part ∈ split text) :
    part.length ≤ text.length := by
  have bound := length_splitFirst_le 0 text
  unfold split at member
  grind

theorem length_le_of_mem_argTexts {inner arg : List Char} (member : arg ∈ argTexts inner) :
    arg.length ≤ inner.length := by
  obtain ⟨part, found, rfl⟩ := List.mem_map.mp member
  have bound := length_le_of_mem_split found
  have trimmed := length_trim_le part
  dsimp only
  split
  · simp only [List.length_dropLast, List.length_tail]
    omega
  · omega

theorem length_scanNames_le (text : List Char) : (scanNames text).2.length ≤ text.length := by
  fun_induction scanNames text <;> grind

/-- An argument is shorter than the name it belongs to. -/
theorem length_lt_of_mem_args {part : List Char} {parsed : Outline} {arg : List Char}
    (outlined : outline part = .ok parsed) (member : arg ∈ parsed.args) :
    arg.length < part.length := by
  have trimmed := length_trim_le part
  have scanned := length_scanNames_le (Text.trim part)
  simp only [outline] at outlined
  split at outlined
  · cases outlined
  · split at outlined
    · cases outlined
    · split at outlined
      · rename_i rest tail
        split at outlined
        · cases outlined
        · rename_i inner after closed
          have shorter := length_closeGroup? closed
          rw [tail, List.length_cons] at scanned
          split at outlined
          · cases outlined
            simp at member
          · rename_i text group
            cases outlined
            have bound := length_le_of_mem_argTexts member
            have kept : text = Text.trim inner := by
              unfold Group.ofInner at group
              grind
            have := length_trim_le inner
            grind
      · cases outlined
        simp at member

/-- Reads a type name. -/
def parse (text : List Char) : Except Error TypeName :=
  match _parts : split text with
  | [] => .error (.malformed "Empty type name")
  | part :: assembly =>
    match _outlined : outline part with
    | .error e => .error e
    | .ok parsed => do
      let args ← parsed.args.attach.mapM fun arg => parse arg.val
      let modifiers ← parsed.modifiers
      let assembly ← if assembly.isEmpty then pure none else (parseAssembly assembly).map some
      return ⟨parsed.space, parsed.nesting, args, modifiers, assembly⟩
termination_by text.length
decreasing_by
  have shorter := length_lt_of_mem_args _outlined arg.property
  have bound : part.length ≤ text.length := length_le_of_mem_split (by simp [_parts])
  omega

end TypeName

end CilRecovery
