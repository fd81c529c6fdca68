import CilRecovery.Proofs.Faults
import CilRecovery.Proofs.Slices

/-!
Type names read by places in their text. The scanners work with places, the arguments and the
assembly are cut out of the text, and each argument is read as a text of its own. Every place that
this comes to is one of the text and every count one that can be taken down, a byte place is always
a boundary between characters, and an argument is shorter than its name. So the reading of a text
comes to an end: to a name, or to the error that the text is malformed.
-/
namespace CilRecovery.TypeName.Checked

/-- A result with no fault. -/
def faultless (result : Except Error α) : Except Stop α := result.mapError .error

/-! ### Groups and modifiers -/

/-- Reads the arguments in a group, without brackets of their own. -/
def readArgs (nested : List Char → Except Stop TypeName) (inner : List Char) :
    Except Stop (List TypeName) := do
  let parts ← split inner
  parts.mapM fun part => do
    let arg ← trim part
    if arg.head? = some '[' ∧ arg.getLast? = some ']' then do
      let last ← decrement arg.length
      let text ← slice arg 1 last
      nested text
    else nested arg

/-- Goes on through the groups and modifiers of a text from a place. Only the first group may hold
arguments. -/
def groupsFrom (nested : List Char → Except Stop TypeName) (text : List Char) (place : Nat)
    (first : Bool) (args : List TypeName) (modifiers : List TypeModifier) :
    Except Stop (List TypeName × List TypeModifier) :=
  if _inside : place < text.length then do
    let c ← element text place
    if c = '*' then groupsFrom nested text (place + 1) false args (modifiers ++ [.pointer])
    else if c = '&' then groupsFrom nested text (place + 1) false args (modifiers ++ [.byRef])
    else if c = '[' then do
      let close ← closing text place
      let group ← slice text (place + 1) close
      let inner ← trim group
      if _advances : place < close + 1 then
        match Group.ofInner inner with
        | .modifier modifier =>
          groupsFrom nested text (close + 1) false args (modifiers ++ [modifier])
        | .args inner =>
          if first ∧ modifiers.isEmpty then do
            let args ← readArgs nested inner
            groupsFrom nested text (close + 1) false args modifiers
          else .error (.error (.malformed "Unexpected bracket group in type name"))
      else .error (.fault .noAdvance)
    else if Text.isBlank c then groupsFrom nested text (place + 1) false args modifiers
    else .error (.error (.malformed ("Unexpected '" ++ c.toString ++ "' in type name")))
  else .ok (args, modifiers)
termination_by text.length - place

/-- Reads the part of a name before the assembly. -/
def readPart (nested : List Char → Except Stop TypeName) (part : List Char) :
    Except Stop TypeName := do
  let text ← trim part
  let scan ← scanFrom text [[]] none 0
  if scan.names.any List.isEmpty then
    .error (.error (.malformed ("Invalid type name '" ++ String.ofList text ++ "'")))
  else do
    let (space, nesting) ← partSpace scan.names scan.dot
    let (args, modifiers) ← groupsFrom nested text scan.place true [] []
    return ⟨String.ofList space, nesting.map String.ofList, args, modifiers, none⟩

/-! ### Assemblies -/

/-- Puts an element in a place. -/
def store (list : List α) (place : Nat) (a : α) : Except Stop (List α) :=
  if place < list.length then .ok (list.set place a) else .error (.fault .outside)

/-- Goes on through the components of a version, `count` of which are read. -/
def versionFrom (text : List Char) (count : Nat) (components : List UInt16) :
    List (List Char) → Except Stop (List UInt16)
  | [] => .ok components
  | part :: rest =>
    if count = 4 then
      .error (.error (.malformed
        ("Version '" ++ String.ofList text ++ "' has too many components")))
    else
      match Text.parseNat? 10 0x10000 part with
      | none => .error (.error (.malformed ("Invalid version '" ++ String.ofList text ++ "'")))
      | some n => do
        let components ← store components count (UInt16.ofNat n)
        versionFrom text (count + 1) components rest

/-- Reads a version into four components, those that are not given being zero. -/
def readVersion (text : List Char) : Except Stop Version := do
  let components ← versionFrom text 0 [0, 0, 0, 0] (splitDots text)
  let major ← element components 0
  let minor ← element components 1
  let build ← element components 2
  let revision ← element components 3
  return ⟨major, minor, build, revision⟩

/-- The text between two byte places, if both are boundaries between characters. -/
def between? (text : List Char) (start stop : Nat) : Option (List Char) := do
  let (front, _) ← (cut stop text).toOption
  let (_, behind) ← (cut start front).toOption
  return behind

/-- Reads a public key token, two bytes of its text for each byte. -/
def readKeyToken (text : List Char) : Except Stop Bytes :=
  let shown := String.ofList text
  if byteLength text % 2 ≠ 0 then
    .error (.error (.malformed ("Odd-length public key token '" ++ shown ++ "'")))
  else
    (List.range' 0 (byteLength text / 2) 2).mapM fun place =>
      match (between? text place (place + 2)).bind (Text.parseNat? 16 256) with
      | some n => .ok (UInt8.ofNat n)
      | none => .error (.error (.malformed ("Invalid public key token '" ++ shown ++ "'")))

/-- Adds one component of an assembly name. -/
def readComponent (identity : AssemblyIdentity) (part : List Char) :
    Except Stop AssemblyIdentity :=
  let key := part.takeWhile (· != '=')
  if key.length = part.length then
    .error (.error (.malformed ("Invalid assembly name component '" ++ String.ofList part ++ "'")))
  else
    let value := Text.trim (part.drop (key.length + 1))
    match String.ofList (Text.trim key) with
    | "Version" => do
      let version ← readVersion value
      return { identity with version := some version }
    | "Culture" =>
      let culture := if isWord "neutral" value then none else some (String.ofList value)
      return { identity with culture }
    | "PublicKeyToken" =>
      if isWord "null" value then return { identity with publicKeyToken := none }
      else do
        let token ← readKeyToken value
        return { identity with publicKeyToken := some token }
    | _ => return identity

/-- Reads an assembly name from its parts. -/
def readIdentity (parts : List (List Char)) : Except Stop AssemblyIdentity := do
  match ← parts.mapM trim with
  | simple :: components =>
    if simple.isEmpty then .error (.error (.malformed "Empty assembly name"))
    else components.foldlM readComponent { name := String.ofList simple }
  | [] => .error (.error (.malformed "Empty assembly name"))

/-! ### Names -/

/-- Reads a text, given what to do with the texts of its arguments. -/
def readWith (nested : List Char → Except Stop TypeName) (text : List Char) :
    Except Stop TypeName := do
  match ← split text with
  | [] => .error (.error (.malformed "Empty type name"))
  | part :: parts =>
    let name ← readPart nested part
    if parts.isEmpty then return name
    else do
      let identity ← readIdentity parts
      return { name with assembly := some identity }

/-- Reads a type name by places in its text. An argument that is no shorter is a fault. -/
def read (text : List Char) : Except Stop TypeName :=
  readWith
    (fun arg =>
      if _shorter : arg.length < text.length then read arg else .error (.fault .notShorter))
    text
termination_by text.length

/-! ### Results without faults -/

section Faultless

theorem faultless_ok (a : α) : faultless (.ok a : Except Error α) = .ok a := rfl

theorem faultless_bind (result : Except Error α) (next : α → Except Error β) :
    faultless (result >>= next) = faultless result >>= fun a => faultless (next a) := by
  cases result <;> rfl

theorem faultless_map (result : Except Error α) (f : α → β) :
    faultless (result.map f) = (faultless result).map f := by
  cases result <;> rfl

theorem faultless_mapM {f : α → Except Error β} {g : α → Except Stop β} {list : List α}
    (each : ∀ a ∈ list, g a = faultless (f a)) : list.mapM g = faultless (list.mapM f) := by
  induction list with
  | nil => rfl
  | cons a rest ih =>
    obtain ⟨now, later⟩ := List.forall_mem_cons.mp each
    rw [List.mapM_cons, List.mapM_cons, now, ih later, faultless_bind]
    simp only [faultless_bind]
    rfl

theorem faultless_foldlM {f : β → α → Except Error β} {g : β → α → Except Stop β}
    (each : ∀ b a, g b a = faultless (f b a)) (list : List α) (start : β) :
    list.foldlM g start = faultless (list.foldlM f start) := by
  induction list generalizing start with
  | nil => rfl
  | cons a rest ih =>
    rw [List.foldlM_cons, List.foldlM_cons, each, faultless_bind]
    simp only [ih]

end Faultless

/-! ### What groups and modifiers come to -/

section Groups

variable {nested : List Char → Except Stop TypeName} {text rest : List Char} {place : Nat}
  {c : Char}

/-- Without its brackets, an argument is what stands between its first and its last place. -/
theorem slice_bracketed {arg : List Char} (opens : arg.head? = some '[')
    (closes : arg.getLast? = some ']') :
    decrement arg.length = .ok (arg.length - 1) ∧
      slice arg 1 (arg.length - 1) = .ok arg.tail.dropLast := by
  obtain ⟨inner, rfl⟩ : ∃ inner, arg = '[' :: (inner ++ [']']) := by
    obtain ⟨rest, rfl⟩ := List.head?_eq_some_iff.mp opens
    obtain ⟨start, same⟩ := List.getLast?_eq_some_iff.mp closes
    cases start with
    | nil => cases same
    | cons d inner =>
      obtain ⟨-, rfl⟩ := List.cons.inj same
      exact ⟨inner, rfl⟩
  have between := slice_append ['['] inner [']']
  refine ⟨by simp [decrement], ?_⟩
  simpa [Nat.add_comm] using between

theorem readArgs_eq (nested : List Char → Except Stop TypeName) (inner : List Char) :
    readArgs nested inner = (argTexts inner).mapM nested := by
  rw [readArgs, split_eq, ok_bind, argTexts, List.mapM_map]
  congr 1
  funext part
  rw [trim_eq, ok_bind]
  simp only [Function.comp_apply]
  split_ifs with bracketed
  · obtain ⟨below, between⟩ := slice_bracketed bracketed.1 bracketed.2
    rw [below, ok_bind, between, ok_bind]
  · rfl

/-- What stands before a place. -/
theorem exists_front (behind : text.drop place = c :: rest) :
    ∃ front, text = front ++ c :: rest ∧ front.length = place := by
  have inside : place < text.length := by
    by_contra outside
    rw [List.drop_eq_nil_of_le (Nat.le_of_not_lt outside)] at behind
    cases behind
  exact ⟨text.take place, by rw [← behind, List.take_append_drop], by simp; omega⟩

theorem groupsFrom_nil (behind : text.drop place = []) (first : Bool) (args : List TypeName)
    (modifiers : List TypeModifier) :
    groupsFrom nested text place first args modifiers = .ok (args, modifiers) := by
  rw [groupsFrom, dif_neg (by simpa using behind)]

/-- The inside of a group that is opened at a place. -/
theorem slice_group {front inner after : List Char}
    (closed : closeGroup? 0 rest = some (inner, after)) :
    slice (front ++ '[' :: rest) (front.length + 1) (front.length + 1 + inner.length) =
      .ok inner := by
  obtain ⟨rfl, _⟩ := of_closeGroup? closed
  have group := slice_append (front ++ ['[']) inner (']' :: after)
  rwa [List.append_assoc, List.singleton_append, List.length_append] at group

/-- A turn through groups and modifiers, by what is there. -/
theorem groupsFrom_cons (behind : text.drop place = c :: rest) (first : Bool)
    (args : List TypeName) (modifiers : List TypeModifier) :
    groupsFrom nested text place first args modifiers =
      if c = '*' then groupsFrom nested text (place + 1) false args (modifiers ++ [.pointer])
      else if c = '&' then groupsFrom nested text (place + 1) false args (modifiers ++ [.byRef])
      else if c = '[' then
        match closeGroup? 0 rest with
        | none => .error (.error unbalanced)
        | some (inner, _) =>
          match Group.ofInner (Text.trim inner) with
          | .modifier modifier =>
            groupsFrom nested text (place + inner.length + 2) false args (modifiers ++ [modifier])
          | .args group =>
            if first ∧ modifiers.isEmpty then do
              let args ← (argTexts group).mapM nested
              groupsFrom nested text (place + inner.length + 2) false args modifiers
            else .error (.error (.malformed "Unexpected bracket group in type name"))
      else if Text.isBlank c then groupsFrom nested text (place + 1) false args modifiers
      else .error (.error (.malformed ("Unexpected '" ++ c.toString ++ "' in type name"))) := by
  obtain ⟨front, rfl, rfl⟩ := exists_front behind
  rw [groupsFrom, dif_pos (by simp), element_append, ok_bind]
  by_cases opens : c = '['
  · subst opens
    rw [if_neg (by decide), if_neg (by decide), if_pos rfl, if_neg (by decide), if_neg (by decide),
      if_pos rfl, closing_append]
    cases closed : closeGroup? 0 rest with
    | none => rfl
    | some group =>
      obtain ⟨inner, after⟩ := group
      have next : front.length + 1 + inner.length + 1 = front.length + inner.length + 2 := by omega
      have advances : front.length < front.length + inner.length + 2 := by omega
      simp only [ok_bind, slice_group closed, trim_eq, readArgs_eq, next]
      rw [dif_pos advances]
  · simp only [if_neg opens]

theorem drop_succ (behind : text.drop place = c :: rest) : text.drop (place + 1) = rest := by
  rw [← List.drop_drop, behind, List.drop_one, List.tail_cons]

/-- What follows a group. -/
theorem drop_group {inner after : List Char} (behind : text.drop place = '[' :: rest)
    (closed : closeGroup? 0 rest = some (inner, after)) :
    text.drop (place + inner.length + 2) = after := by
  obtain ⟨rfl, _⟩ := of_closeGroup? closed
  have group : '[' :: (inner ++ ']' :: after) = ('[' :: (inner ++ [']'])) ++ after := by simp
  have length : inner.length + 2 = ('[' :: (inner ++ [']'])).length := by simp
  rw [Nat.add_assoc, ← List.drop_drop, behind, group, length, List.drop_left]

/-- A modifier that is noted before the others are read. -/
theorem map_append_modifier {read : Except Stop (List TypeModifier)} (args : List TypeName)
    (modifiers : List TypeModifier) (modifier : TypeModifier) :
    (read.map fun more => (args, modifiers ++ [modifier] ++ more)) =
      (read.map (modifier :: ·)).map fun more => (args, modifiers ++ more) := by
  cases read with
  | error => rfl
  | ok more => exact congrArg (fun all => Except.ok (args, all)) (List.append_assoc ..)

/-- Behind the first group, only modifiers are read. -/
theorem groupsFrom_eq (behind : text.drop place = rest) (args : List TypeName)
    (modifiers : List TypeModifier) :
    groupsFrom nested text place false args modifiers =
      (faultless (suffix rest)).map fun more => (args, modifiers ++ more) := by
  fun_induction suffix rest generalizing place modifiers with
  | case1 =>
    rw [groupsFrom_nil behind]
    exact congrArg (fun all => Except.ok (args, all)) (List.append_nil _).symm
  | case2 rest ih =>
    rw [groupsFrom_cons behind, if_pos rfl, ih (drop_succ behind), faultless_map,
      map_append_modifier]
  | case3 rest _ ih =>
    rw [groupsFrom_cons behind, if_neg (by decide), if_pos rfl, ih (drop_succ behind),
      faultless_map, map_append_modifier]
  | case4 rest closed _ _ =>
    rw [groupsFrom_cons behind, if_neg (by decide), if_neg (by decide), if_pos rfl]
    simp only [closed]
    rfl
  | case5 rest inner after closed modifier group _ _ ih =>
    rw [groupsFrom_cons behind, if_neg (by decide), if_neg (by decide), if_pos rfl]
    simp only [closed, group]
    rw [ih (drop_group behind closed), faultless_map, map_append_modifier]
  | case6 rest inner after closed args group _ _ =>
    rw [groupsFrom_cons behind, if_neg (by decide), if_neg (by decide), if_pos rfl]
    simp only [closed, group]
    rfl
  | case7 c rest notPointer notByRef notGroup blank ih =>
    rw [groupsFrom_cons behind, if_neg notPointer, if_neg notByRef, if_neg notGroup, if_pos blank,
      ih (drop_succ behind)]
  | case8 c rest notPointer notByRef notGroup visible =>
    rw [groupsFrom_cons behind, if_neg notPointer, if_neg notByRef, if_neg notGroup,
      if_neg visible]
    rfl

/-- What is behind the names: the texts of arguments, and modifiers. -/
def argsAndModifiers (tail : List Char) :
    Except Error (List (List Char) × Except Error (List TypeModifier)) :=
  match tail with
  | '[' :: rest =>
    match closeGroup? 0 rest with
    | none => .error unbalanced
    | some (inner, after) =>
      match Group.ofInner (Text.trim inner) with
      | .modifier _ => .ok ([], suffix tail)
      | .args inner => .ok (argTexts inner, suffix after)
  | _ => .ok ([], suffix tail)

/-- In the first turn nothing is noted yet, so it differs from the others only in arguments. -/
theorem groupsFrom_first (behind : text.drop place = rest) :
    groupsFrom nested text place true [] [] = do
      let (texts, read) ← faultless (argsAndModifiers rest)
      let args ← texts.mapM nested
      let modifiers ← faultless read
      return (args, modifiers) := by
  have plain (other : argsAndModifiers rest = .ok ([], suffix rest)) :
      groupsFrom nested text place false [] [] = do
        let (texts, read) ← faultless (argsAndModifiers rest)
        let args ← texts.mapM nested
        let modifiers ← faultless read
        return (args, modifiers) := by
    rw [groupsFrom_eq behind, other]
    cases suffix rest <;> rfl
  cases rest with
  | nil =>
    rw [← plain rfl, groupsFrom_nil behind, groupsFrom_nil behind]
  | cons c rest =>
    by_cases opens : c = '['
    · subst opens
      cases closed : closeGroup? 0 rest with
      | none =>
        rw [groupsFrom_cons behind]
        simp only [argsAndModifiers, closed]
        rfl
      | some group =>
        obtain ⟨inner, after⟩ := group
        cases group : Group.ofInner (Text.trim inner) with
        | modifier modifier =>
          have other : argsAndModifiers ('[' :: rest) = .ok ([], suffix ('[' :: rest)) := by
            simp only [argsAndModifiers, closed, group]
          rw [← plain other, groupsFrom_cons behind, groupsFrom_cons behind]
          simp only [closed, group]
        | args texts =>
          rw [groupsFrom_cons behind]
          simp only [argsAndModifiers, closed, group, groupsFrom_eq (drop_group behind closed)]
          rfl
    · have other : argsAndModifiers (c :: rest) = .ok ([], suffix (c :: rest)) := by
        unfold argsAndModifiers
        split
        · rename_i same
          exact absurd (List.cons.inj same).1 opens
        · rfl
      rw [← plain other, groupsFrom_cons behind, groupsFrom_cons behind]
      simp only [if_neg opens]

end Groups

/-! ### What parts come to -/

/-- An outline consists of the path and of what is behind it. -/
theorem outline_eq {part tail : List Char} {first : List (Char × Bool)}
    {more : List (List (Char × Bool))}
    (scanned : scanNames (Text.trim part) = (first :: more, tail)) :
    outline part =
      if (first :: more).any List.isEmpty then
        .error (.malformed ("Invalid type name '" ++ String.ofList (Text.trim part) ++ "'"))
      else if (splitSpace first).2.isEmpty then
        .error (.malformed "Type name ends with a namespace separator")
      else
        (argsAndModifiers tail).map fun (args, modifiers) =>
          { space := String.ofList ((splitSpace first).1.getD [])
            nesting := ((splitSpace first).2 :: more.map (·.map Prod.fst)).map String.ofList
            args, modifiers } := by
  simp only [outline, scanned, List.headD_cons, List.tail_cons]
  split_ifs
  · rfl
  · rfl
  · split
    · rename_i rest
      cases closed : closeGroup? 0 rest with
      | none =>
        simp only [argsAndModifiers, closed]
        rfl
      | some group =>
        obtain ⟨inner, after⟩ := group
        cases group : Group.ofInner (Text.trim inner) <;>
          simp only [argsAndModifiers, closed, group] <;> rfl
    · rename_i other
      rw [argsAndModifiers]
      · rfl
      · exact other

/-- Reading a part outlines it and then reads the arguments. -/
theorem readPart_eq (nested : List Char → Except Stop TypeName) (part : List Char) :
    readPart nested part = do
      let parsed ← faultless (outline part)
      let args ← parsed.args.mapM nested
      let modifiers ← faultless parsed.modifiers
      return ⟨parsed.space, parsed.nesting, args, modifiers, none⟩ := by
  obtain ⟨first, more, place, names, behind, scanned⟩ := exists_scanFrom (Text.trim part)
  have isEmpty : ((first :: more).map (·.map Prod.fst)).any List.isEmpty =
      (first :: more).any List.isEmpty := by
    simp [Function.comp_def]
  rw [readPart, trim_eq, ok_bind, scanned, ok_bind, outline_eq (Prod.ext names rfl)]
  simp only [isEmpty]
  by_cases empty : (first :: more).any List.isEmpty = true
  · rw [if_pos empty, if_pos empty]
    rfl
  · have present : first ≠ [] := by
      rintro rfl
      simp at empty
    rw [if_neg empty, if_neg empty, List.map_cons, partSpace_eq present]
    split_ifs
    · rfl
    · simp only [ok_bind, groupsFrom_first behind, faultless_map, bind_assoc]
      cases argsAndModifiers (scanNames (Text.trim part)).2 <;> rfl

/-! ### What assemblies come to -/

section Assembly

variable {text : List Char} {left count place : Nat}

theorem store_append (list rest : List α) (a b : α) :
    store (list ++ a :: rest) list.length b = .ok (list ++ b :: rest) := by
  simp [store]

/-- The components of a version, the ones that are missing being zero. -/
def padded (left : Nat) (values : List Nat) : List UInt16 :=
  values.map UInt16.ofNat ++ List.replicate (left - values.length) 0

/-- Behind the components that are read there is a place for each that is still allowed. -/
theorem versionFrom_eq (left : Nat) (known : List UInt16) (four : known.length + left = 4)
    (parts : List (List Char)) :
    versionFrom text known.length (known ++ padded left []) parts =
      (faultless (parseVersion.go text
        (.malformed ("Invalid version '" ++ String.ofList text ++ "'")) left parts)).map
          fun more => known ++ padded left more := by
  induction parts generalizing known left with
  | nil => cases left <;> rfl
  | cons part rest ih =>
    cases left with
    | zero =>
      rw [versionFrom, if_pos (by omega)]
      rfl
    | succ left =>
      rw [versionFrom, if_neg (by omega), parseVersion.go]
      cases Text.parseNat? 10 0x10000 part with
      | none => rfl
      | some n =>
        have next := ih left (known ++ [UInt16.ofNat n]) (by simp; omega)
        have stored : store (known ++ padded (left + 1) []) known.length (UInt16.ofNat n) =
            .ok (known ++ [UInt16.ofNat n] ++ padded left []) := by
          have := store_append known (padded left []) 0 (UInt16.ofNat n)
          simpa [padded, List.replicate_succ] using this
        simp only [stored, ok_bind]
        rw [List.length_append, List.length_singleton] at next
        rw [next, faultless_map]
        cases parseVersion.go text _ left rest with
        | error => rfl
        | ok more => simp [faultless, Except.map, Except.mapError, padded]

theorem element_padded (values : List Nat) (inside : place < left) :
    element (padded left values) place = .ok (UInt16.ofNat (values.getD place 0)) := by
  rw [element, padded, List.getD_eq_getElem?_getD]
  by_cases given : place < values.length
  · simp [List.getElem?_append_left, given]
  · have missing : place - values.length < left - values.length := by omega
    have none_ : values[place]? = none := List.getElem?_eq_none (Nat.le_of_not_lt given)
    rw [List.getElem?_append_right (by simpa using given), List.length_map,
      List.getElem?_replicate, if_pos missing, none_]
    rfl

theorem readVersion_eq (text : List Char) : readVersion text = faultless (parseVersion text) := by
  have components : versionFrom text 0 [0, 0, 0, 0] (splitDots text) =
      (faultless (parseVersion.go text
        (.malformed ("Invalid version '" ++ String.ofList text ++ "'")) 4 (splitDots text))).map
          (padded 4) :=
    versionFrom_eq 4 [] rfl (splitDots text)
  rw [readVersion, parseVersion, faultless_bind, components]
  cases parseVersion.go text _ 4 (splitDots text) with
  | error => rfl
  | ok values =>
    change element (padded 4 values) 0 >>= _ = _
    rw [element_padded values (by decide), ok_bind, element_padded values (by decide), ok_bind,
      element_padded values (by decide), ok_bind, element_padded values (by decide), ok_bind]
    rfl

end Assembly

/-! ### What key tokens come to -/

section KeyToken

variable {front text rest : List Char} {a b c : Char}

theorem utf8ByteSize_ofList (text : List Char) :
    (String.ofList text).utf8ByteSize = byteLength text := by
  rw [String.utf8ByteSize, String.toByteArray_ofList, List.utf8Encode, List.size_toByteArray]
  rfl

theorem between?_append (front text : List Char) (count : Nat) :
    between? (front ++ text) (byteLength front) (byteLength front + count) =
      (cut count text).toOption.map Prod.fst := by
  rw [between?, cut_add]
  cases cut count text with
  | error => rfl
  | ok found =>
    simp only [Except.map, Except.toOption, Option.bind_eq_bind, Option.bind_some, cut_append]
    rfl

/-- Only characters of one byte are digits. -/
theorem digitValue?_of_wide (wide : c.utf8Size ≠ 1) : Text.digitValue? c = none := by
  have large : 127 < c.toNat := by
    by_contra small
    exact wide (Char.utf8Size_eq_one_iff.mpr (UInt32.le_iff_toNat_le.mpr (Nat.le_of_not_lt small)))
  have above {d : Char} (small : d.toNat ≤ 127) : ¬ c ≤ d := by
    intro below
    have : c.toNat ≤ d.toNat := below
    omega
  rw [Text.digitValue?, if_neg fun digit => above (by decide) digit.2,
    if_neg fun digit => above (by decide) digit.2, if_neg fun digit => above (by decide) digit.2]

theorem digitsValue?_of_wide {base sofar : Nat} (member : c ∈ text) (wide : c.utf8Size ≠ 1) :
    Text.digitsValue? base sofar text = none := by
  induction text generalizing sofar with
  | nil => cases member
  | cons d rest ih =>
    rw [Text.digitsValue?]
    rcases List.mem_cons.mp member with rfl | later
    · rw [digitValue?_of_wide wide]
    · cases Text.digitValue? d with
      | none => rfl
      | some value =>
        dsimp only
        split_ifs
        · exact ih later
        · rfl

theorem parseNat?_of_wide {base limit : Nat} (member : c ∈ text) (wide : c.utf8Size ≠ 1) :
    Text.parseNat? base limit text = none := by
  have kept : c ∈ Text.dropPlus text := by
    unfold Text.dropPlus
    split
    · rcases List.mem_cons.mp member with rfl | later
      · exact absurd rfl wide
      · exact later
    · exact member
  simp only [Text.parseNat?, digitsValue?_of_wide kept wide]
  split <;> rfl

/-- Two bytes are a number only if they are two characters of one byte each. -/
theorem number_eq (c : Char) (rest : List Char) :
    ((cut 2 (c :: rest)).toOption.map Prod.fst).bind (Text.parseNat? 16 256) =
      rest.head?.bind fun d => Text.parseNat? 16 256 [c, d] := by
  by_cases narrow : c.utf8Size = 1
  · cases rest with
    | nil =>
      rw [cut, if_neg (by omega), narrow]
      rfl
    | cons d rest =>
      rw [cut, if_neg (by omega), narrow, List.head?_cons, Option.bind_some]
      by_cases single : d.utf8Size = 1
      · rw [cut, if_neg (by omega), single, cut]
        rfl
      · have positive : 0 < d.utf8Size := d.utf8Size_pos
        rw [cut, if_pos (by omega), parseNat?_of_wide (by simp) single]
        rfl
  · have none_ (more : List Char) : Text.parseNat? 16 256 (c :: more) = none :=
      parseNat?_of_wide List.mem_cons_self narrow
    have positive : 0 < c.utf8Size := c.utf8Size_pos
    simp only [none_, Option.bind_fun_none]
    rw [cut]
    split_ifs with inside
    · rfl
    · have two : c.utf8Size = 2 := by omega
      rw [two, cut]
      exact none_ []

/-- Pairs of bytes are pairs of digits, or there is one that is no number. -/
theorem mapM_pairs (front text : List Char) (count : Nat) (even : byteLength text = 2 * count)
    (invalid : Error) :
    ((List.range' (byteLength front) count 2).mapM fun place =>
        match (between? (front ++ text) place (place + 2)).bind (Text.parseNat? 16 256) with
        | some n => .ok (UInt8.ofNat n)
        | none => .error (.error invalid) : Except Stop Bytes) =
      match bytesOfPairs? text with
      | some bytes => .ok bytes
      | none => .error (.error invalid) := by
  fun_induction bytesOfPairs? text generalizing front count with
  | case1 =>
    obtain rfl : count = 0 := by
      change 0 = 2 * count at even
      omega
    rfl
  | case2 c =>
    rw [byteLength_cons] at even
    have positive : 0 < c.utf8Size := c.utf8Size_pos
    obtain ⟨more, rfl⟩ : ∃ more, count = more + 1 := ⟨count - 1, by omega⟩
    rw [List.range'_succ, List.mapM_cons, between?_append, number_eq]
    rfl
  | case3 c d rest ih =>
    have first := c.utf8Size_pos
    have second := d.utf8Size_pos
    rw [byteLength_cons, byteLength_cons] at even
    obtain ⟨more, rfl⟩ : ∃ more, count = more + 1 := ⟨count - 1, by omega⟩
    rw [List.range'_succ, List.mapM_cons, between?_append, number_eq, List.head?_cons,
      Option.bind_some]
    cases digits : Text.parseNat? 16 256 [c, d] with
    | none => rfl
    | some n =>
      have narrow {e : Char} (member : e ∈ [c, d]) : e.utf8Size = 1 := by
        by_contra wide
        rw [parseNat?_of_wide member wide] at digits
        cases digits
      have next := ih (front ++ [c, d]) more (by
        rw [narrow (by simp), narrow (by simp)] at even
        omega)
      have behind : byteLength (front ++ [c, d]) = byteLength front + 2 := by
        rw [byteLength_append, byteLength_cons, byteLength_cons, narrow (by simp),
          narrow (by simp)]
        rfl
      rw [behind, List.append_assoc] at next
      simp only [ok_bind]
      rw [show front ++ c :: d :: rest = front ++ ([c, d] ++ rest) from rfl, next]
      cases bytesOfPairs? rest <;> rfl

theorem readKeyToken_eq (text : List Char) :
    readKeyToken text = faultless (parseKeyToken text) := by
  simp only [readKeyToken, parseKeyToken, utf8ByteSize_ofList]
  split_ifs with odd
  · rfl
  · refine (mapM_pairs [] text (byteLength text / 2) (by omega) _).trans ?_
    cases bytesOfPairs? text <;> rfl

end KeyToken

/-! ### What names come to -/

theorem readComponent_eq (identity : AssemblyIdentity) (part : List Char) :
    readComponent identity part = faultless (addComponent identity part) := by
  simp only [readComponent, addComponent]
  by_cases bare : (part.takeWhile (· != '=')).length = part.length
  · rw [if_pos bare, if_pos bare]
    rfl
  · rw [if_neg bare, if_neg bare]
    generalize String.ofList (Text.trim (part.takeWhile (· != '='))) = key
    rw [readVersion_eq, readKeyToken_eq]
    by_cases version : key = "Version"
    · subst version
      cases parseVersion _ <;> rfl
    by_cases culture : key = "Culture"
    · subst culture
      rfl
    by_cases token : key = "PublicKeyToken"
    · subst token
      by_cases null : isWord "null" (Text.trim (part.drop
        ((part.takeWhile (· != '=')).length + 1))) = true
      · simp only [if_pos null]
        rfl
      · simp only [if_neg null]
        cases parseKeyToken _ <;> rfl
    -- A key that is none of these takes the last branch on both sides.
    · simp only []
      rfl

theorem readIdentity_eq (parts : List (List Char)) :
    readIdentity parts = faultless (parseAssembly parts) := by
  have trimmed : parts.mapM trim = .ok (parts.map Text.trim) := by
    rw [funext trim_eq]
    exact List.mapM_pure
  rw [readIdentity, trimmed, ok_bind, parseAssembly]
  cases parts.map Text.trim with
  | nil => rfl
  | cons simple components =>
    dsimp only
    split_ifs
    · rfl
    · exact faultless_foldlM readComponent_eq components _

/-- Reading a text reads its parts one after the other. -/
theorem readWith_eq (nested : List Char → Except Stop TypeName) {text : List Char}
    (present : text ≠ []) :
    readWith nested text = do
      let parsed ← faultless (outline (splitFirst 0 text).1)
      let args ← parsed.args.mapM nested
      let modifiers ← faultless parsed.modifiers
      let assembly ← faultless (readAssembly (splitFirst 0 text).2)
      return ⟨parsed.space, parsed.nesting, args, modifiers, assembly⟩ := by
  have parts : TypeName.split text = (splitFirst 0 text).1 :: (splitFirst 0 text).2 := by
    simp [TypeName.split, present]
  rw [readWith, split_eq, ok_bind, parts]
  dsimp only
  rw [readPart_eq]
  unfold readAssembly
  cases outline (splitFirst 0 text).1 with
  | error => rfl
  | ok parsed =>
    simp only [faultless_ok, ok_bind, bind_assoc, pure_bind]
    split_ifs with bare
    · rfl
    · simp only [readIdentity_eq, faultless_map]
      cases parseAssembly (splitFirst 0 text).2 <;> rfl

/-- A text is read by places as it is piece by piece: no fault occurs. -/
theorem read_eq (text : List Char) : read text = faultless (parse text) := by
  induction length : text.length using Nat.strongRecOn generalizing text with
  | ind bound ih =>
    subst length
    rw [read]
    by_cases present : text = []
    · subst present
      rw [parse]
      rfl
    · rw [readWith_eq _ present, parse_eq present]
      simp only [faultless_bind]
      cases outlined : outline (splitFirst 0 text).1 with
      | error => rfl
      | ok parsed =>
        have args : (parsed.args.mapM fun arg =>
            if _shorter : arg.length < text.length then read arg
            else .error (.fault .notShorter)) = faultless (parsed.args.mapM parse) :=
          faultless_mapM fun arg member => by
            have shorter : arg.length < text.length :=
              Nat.lt_of_lt_of_le (length_lt_of_mem_args outlined member)
                (length_splitFirst_le 0 text).1
            rw [dif_pos shorter]
            exact ih _ shorter arg rfl
        simp only [faultless_ok, ok_bind]
        rw [args]
        rfl

/-- A text is read without a fault: to the name that is read from it piece by piece, or to the error
that it is malformed. -/
theorem read_answers (text : List Char) :
    (∀ fault, read text ≠ .error (.fault fault)) ∧
      ((∃ name, read text = .ok name ∧ parse text = .ok name) ∨
        ∃ reason, read text = .error (.error (.malformed reason)) ∧
          parse text = .error (.malformed reason)) := by
  rw [read_eq]
  cases parsed : parse text with
  | ok name => exact ⟨nofun, .inl ⟨name, rfl, rfl⟩⟩
  | error e =>
    obtain ⟨reason, rfl⟩ := parse_onlyFails text e parsed
    exact ⟨nofun, .inr ⟨reason, rfl, rfl⟩⟩

end CilRecovery.TypeName.Checked
