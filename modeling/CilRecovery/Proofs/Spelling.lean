import CilRecovery.Proofs.Paths

/-!
How type names are written: the path, the arguments each in brackets of its own, the modifiers, and
the assembly behind a comma. Reading a written name gives that name.
-/
namespace CilRecovery

/-- A modifier as it stands behind a name. -/
def TypeModifier.written : TypeModifier → List Char
  | vector => ['[', ']']
  | array rank =>
    '[' :: ((if rank = 1 then ['*'] else List.replicate (rank - 1) ',') ++ [']'])
  | pointer => ['*']
  | byRef => ['&']

namespace TypeName

/-! ### Writing -/

/-- A group of arguments; there is none where there are no arguments. -/
def writtenGroup (args : List (List Char)) : List Char :=
  if args.isEmpty then [] else '[' :: (List.intercalate [','] args ++ [']'])

/-- The assembly behind a name. -/
def writtenAssembly : Option AssemblyIdentity → List Char
  | none => []
  | some identity => ',' :: ' ' :: identity.render.toList

mutual

/-- A type name in full. -/
def written : TypeName → List Char
  | ⟨space, nesting, args, modifiers, assembly⟩ =>
    writtenPath space nesting ++ writtenGroup (writtenArgs args) ++
      modifiers.flatMap TypeModifier.written ++ writtenAssembly assembly

/-- The arguments of a type name, each in brackets. -/
def writtenArgs : List TypeName → List (List Char)
  | [] => []
  | arg :: rest => ('[' :: (written arg ++ [']'])) :: writtenArgs rest

end

theorem writtenArgs_eq (args : List TypeName) :
    writtenArgs args = args.map fun arg => '[' :: (written arg ++ [']']) := by
  induction args with
  | nil => rfl
  | cons arg rest ih => rw [writtenArgs, ih, List.map_cons]

/-- A name that can be told from its text. -/
inductive Spellable : TypeName → Prop
  | intro {space : String} {nesting : List String} {args : List TypeName}
      {modifiers : List TypeModifier} {assembly : Option AssemblyIdentity}
      (named : nesting ≠ [])
      (names : ∀ name ∈ nesting, IsName name)
      (parts : ∀ arg ∈ args, Spellable arg)
      (ranks : ∀ rank, .array rank ∈ modifiers → 1 ≤ rank)
      (identified : ∀ identity ∈ assembly, identity.Spellable) :
      Spellable ⟨space, nesting, args, modifiers, assembly⟩

/-! ### Modifiers -/

section Modifiers

theorem suffix_group {inner after : List Char} {modifier : TypeModifier}
    (nested : Nested true inner)
    (group : Group.ofInner (Text.trim inner) = .modifier modifier) :
    suffix ('[' :: (inner ++ ']' :: after)) = (suffix after).map (modifier :: ·) := by
  rw [suffix, if_neg (by decide), if_neg (by decide), if_pos rfl]
  split
  · rename_i unclosed
    simp [nested.closeGroup?_eq] at unclosed
  · rename_i found closed
    cases (nested.closeGroup?_eq after).symm.trans closed
    rw [group]

theorem nested_rank (rank : Nat) :
    Nested true (if rank = 1 then ['*'] else List.replicate (rank - 1) ',') := by
  split_ifs
  · exact .single (by decide) fun _ => rfl
  · refine .of_flat (fun c member => ?_) fun _ => rfl
    rw [List.eq_of_mem_replicate member]
    decide

theorem nested_modifier (modifier : TypeModifier) : Nested false modifier.written := by
  cases modifier with
  | vector => exact .group .nil .nil
  | array rank => exact .group (nested_rank rank) .nil
  | pointer => exact .single (by decide) (by decide)
  | byRef => exact .single (by decide) (by decide)

theorem endsVisible_modifier (modifier : TypeModifier) : Text.EndsVisible modifier.written := by
  cases modifier with
  | vector => exact ⟨['['], ']', rfl, rfl⟩
  | array rank => exact ⟨'[' :: _, ']', rfl, rfl⟩
  | pointer => exact ⟨[], '*', rfl, rfl⟩
  | byRef => exact ⟨[], '&', rfl, rfl⟩

theorem startsSuffix_modifier (modifier : TypeModifier) (rest : List Char) :
    StartsSuffix (modifier.written ++ rest) := by
  cases modifier with
  | vector => exact ⟨_, _, rfl, .inl rfl⟩
  | array rank => exact ⟨_, _, rfl, .inl rfl⟩
  | pointer => exact ⟨_, _, rfl, .inr (.inl rfl)⟩
  | byRef => exact ⟨_, _, rfl, .inr (.inr rfl)⟩

theorem ofInner_rank {rank : Nat} (positive : 1 ≤ rank) :
    Group.ofInner (Text.trim (if rank = 1 then ['*'] else List.replicate (rank - 1) ',')) =
      .modifier (.array rank) := by
  split_ifs with one
  · rw [one]
    rfl
  · have commas : Text.trim (List.replicate (rank - 1) ',') = List.replicate (rank - 1) ',' :=
      Text.trim_of_visible fun c member => by rw [List.eq_of_mem_replicate member]; rfl
    have some : List.replicate (rank - 1) ',' ≠ [] := by
      rw [Ne, List.replicate_eq_nil_iff]
      omega
    have noStar : List.replicate (rank - 1) ',' ≠ ['*'] := by
      intro same
      have star : '*' ∈ List.replicate (rank - 1) ',' := same ▸ List.mem_singleton_self _
      exact absurd (List.eq_of_mem_replicate star) (by decide)
    rw [commas, Group.ofInner, if_neg (by simpa using some), if_neg noStar, if_pos,
      List.count_replicate_self]
    · rw [Nat.sub_add_cancel positive]
    · simp

theorem suffix_written {modifier : TypeModifier}
    (ranked : ∀ rank, modifier = .array rank → 1 ≤ rank) (after : List Char) :
    suffix (modifier.written ++ after) = (suffix after).map (modifier :: ·) := by
  cases modifier with
  | vector => exact suffix_group .nil rfl
  | array rank =>
    rw [TypeModifier.written, List.cons_append, List.append_assoc]
    exact suffix_group (nested_rank rank) (ofInner_rank (ranked rank rfl))
  | pointer => rw [TypeModifier.written, List.singleton_append, suffix, if_pos rfl]
  | byRef =>
    rw [TypeModifier.written, List.singleton_append, suffix, if_neg (by decide), if_pos rfl]

/-- Modifiers are read back from what is written for them. -/
theorem suffix_flatMap_written {modifiers : List TypeModifier}
    (ranks : ∀ rank, .array rank ∈ modifiers → 1 ≤ rank) :
    suffix (modifiers.flatMap TypeModifier.written) = .ok modifiers := by
  induction modifiers with
  | nil => rw [List.flatMap_nil, suffix]
  | cons modifier rest ih =>
    have now : ∀ rank, modifier = .array rank → 1 ≤ rank := fun rank same =>
      ranks rank (same ▸ List.mem_cons_self)
    rw [List.flatMap_cons, suffix_written now,
      ih fun rank member => ranks rank (List.mem_cons_of_mem _ member)]
    rfl

/-- A group among modifiers that can be read is a modifier. -/
theorem exists_of_suffix_group {rest : List Char} {modifiers : List TypeModifier}
    (read : suffix ('[' :: rest) = .ok modifiers) :
    ∃ inner after modifier, closeGroup? 0 rest = some (inner, after) ∧
      Group.ofInner (Text.trim inner) = .modifier modifier := by
  rw [suffix, if_neg (by decide), if_neg (by decide), if_pos rfl] at read
  split at read
  · cases read
  · rename_i inner after closed
    split at read
    · rename_i modifier group
      exact ⟨inner, after, modifier, closed, group⟩
    · cases read

end Modifiers

/-! ### Outlines -/

section Outlines

variable {part tail : List Char} {first : List (Char × Bool)} {more : List (List (Char × Bool))}
  {space : Option (List Char)} {outermost : List Char}

theorem outline_of_suffix {modifiers : List TypeModifier}
    (scanned : scanNames (Text.trim part) = (first :: more, tail))
    (named : (first :: more).any List.isEmpty = false)
    (spaced : splitSpace first = (space, outermost)) (present : outermost.isEmpty = false)
    (read : suffix tail = .ok modifiers) :
    outline part = .ok
      { space := String.ofList (space.getD [])
        nesting := (outermost :: more.map (·.map Prod.fst)).map String.ofList
        args := []
        modifiers := .ok modifiers } := by
  simp only [outline, scanned, named, spaced, present, read, List.headD_cons, List.tail_cons,
    Bool.false_eq_true, if_false]
  split
  · obtain ⟨inner, after, modifier, closed, group⟩ := exists_of_suffix_group read
    simp only [closed, group]
  · rfl

theorem outline_of_group {rest inner after : List Char}
    (scanned : scanNames (Text.trim part) = (first :: more, '[' :: rest))
    (named : (first :: more).any List.isEmpty = false)
    (spaced : splitSpace first = (space, outermost)) (present : outermost.isEmpty = false)
    (closed : closeGroup? 0 rest = some (inner, after)) {args : List Char}
    (group : Group.ofInner (Text.trim inner) = .args args) :
    outline part = .ok
      { space := String.ofList (space.getD [])
        nesting := (outermost :: more.map (·.map Prod.fst)).map String.ofList
        args := argTexts args
        modifiers := suffix after } := by
  simp only [outline, scanned, named, spaced, present, closed, group, List.headD_cons,
    List.tail_cons]
  rfl

end Outlines

/-! ### Arguments -/

section Arguments

variable {args : List TypeName}

/-- A text in brackets of its own. -/
def bracketed (text : List Char) : List Char := '[' :: (text ++ [']'])

theorem endsVisible_bracketed (text : List Char) : Text.EndsVisible (bracketed text) :=
  ⟨'[' :: text, ']', rfl, rfl⟩

theorem nested_bracketed {text : List Char} (nested : Nested true text) (commas : Bool) :
    Nested commas (bracketed text) :=
  .group nested .nil

theorem intercalate_writtenArgs (arg : TypeName) (rest : List TypeName) :
    List.intercalate [','] (writtenArgs (arg :: rest)) =
      bracketed arg.written ++ (rest.map fun arg => bracketed arg.written).flatMap (',' :: ·) := by
  rw [writtenArgs, intercalate_cons, writtenArgs_eq]
  rfl

theorem nested_writtenArgs (each : ∀ arg ∈ args, Nested true arg.written) :
    Nested true (List.intercalate [','] (writtenArgs args)) := by
  cases args with
  | nil => exact .nil
  | cons arg rest =>
    obtain ⟨now, later⟩ := List.forall_mem_cons.mp each
    rw [intercalate_writtenArgs]
    refine (nested_bracketed now true).append ?_
    clear each
    induction rest with
    | nil => exact .nil
    | cons next rest ih =>
      obtain ⟨now, later⟩ := List.forall_mem_cons.mp later
      exact .plain (by decide) (fun _ => rfl) ((nested_bracketed now true).append (ih later))

/-- The arguments of a group are found again. -/
theorem argTexts_writtenArgs (some : args ≠ []) (each : ∀ arg ∈ args, Nested true arg.written) :
    argTexts (List.intercalate [','] (writtenArgs args)) = args.map written := by
  obtain ⟨arg, rest, rfl⟩ := List.exists_cons_of_ne_nil some
  obtain ⟨now, later⟩ := List.forall_mem_cons.mp each
  have parts : split (List.intercalate [','] (writtenArgs (arg :: rest))) =
      (arg :: rest).map fun arg => bracketed arg.written := by
    rw [intercalate_writtenArgs, split, Nested.splitFirst_parts (nested_bracketed now false)]
    · rfl
    · intro part member
      obtain ⟨next, found, rfl⟩ := List.mem_map.mp member
      exact nested_bracketed (later next found) false
  rw [argTexts, parts, List.map_map]
  apply List.map_congr_left
  intro next _
  have trimmed : Text.trim (bracketed next.written) = bracketed next.written :=
    Text.trim_eq_self (by rintro c ⟨⟩; rfl) (endsVisible_bracketed _)
  have last : (bracketed next.written).getLast? = .some ']' := by
    rw [bracketed, ← List.cons_append, List.getLast?_concat]
  simp only [Function.comp_apply, trimmed, last]
  simp [bracketed]

/-- A group of arguments is none of modifiers. -/
theorem ofInner_writtenArgs (some : args ≠ []) :
    Group.ofInner (Text.trim (List.intercalate [','] (writtenArgs args))) =
      .args (List.intercalate [','] (writtenArgs args)) := by
  obtain ⟨arg, rest, rfl⟩ := List.exists_cons_of_ne_nil some
  rw [intercalate_writtenArgs]
  have ends : Text.EndsVisible (bracketed arg.written ++
      (rest.map fun arg => bracketed arg.written).flatMap (',' :: ·)) := by
    refine (endsVisible_bracketed _).append_flatMap fun part member => ?_
    obtain ⟨next, _, rfl⟩ := List.mem_map.mp member
    exact (endsVisible_bracketed _).append [',']
  rw [Text.trim_eq_self (by rintro c ⟨⟩; rfl) ends]
  simp [Group.ofInner, bracketed, Text.isBlank]

end Arguments

/-- The part of a written name before the assembly. -/
def typeText (name : TypeName) : List Char :=
  writtenPath name.space name.nesting ++
    (writtenGroup (writtenArgs name.args) ++ name.modifiers.flatMap TypeModifier.written)

theorem written_eq (name : TypeName) :
    name.written = name.typeText ++ writtenAssembly name.assembly := by
  obtain ⟨space, nesting, args, modifiers, assembly⟩ := name
  simp [written, typeText]

theorem writtenGroup_writtenArgs {args : List TypeName} (some : args ≠ []) :
    writtenGroup (writtenArgs args) = bracketed (List.intercalate [','] (writtenArgs args)) := by
  obtain ⟨arg, rest, rfl⟩ := List.exists_cons_of_ne_nil some
  rfl

theorem nested_typeText {name : TypeName} (named : name.nesting ≠ [])
    (each : ∀ arg ∈ name.args, Nested true arg.written) : Nested false name.typeText := by
  obtain ⟨first, more, nesting⟩ := List.exists_cons_of_ne_nil named
  have group : Nested false (writtenGroup (writtenArgs name.args)) := by
    by_cases none : name.args = []
    · rw [none]
      exact .nil
    · rw [writtenGroup_writtenArgs none]
      exact nested_bracketed (nested_writtenArgs each) false
  have modifiers (list : List TypeModifier) : Nested false (list.flatMap TypeModifier.written) := by
    induction list with
    | nil => exact .nil
    | cons modifier rest ih => exact (nested_modifier modifier).append ih
  rw [typeText, nesting]
  exact nested_writtenPath.append (group.append (modifiers _))

/-- A written name is outlined as it is, its arguments as they are written. -/
theorem outline_typeText {name : TypeName} (named : name.nesting ≠ [])
    (names : ∀ part ∈ name.nesting, IsName part)
    (each : ∀ arg ∈ name.args, Nested true arg.written)
    (ranks : ∀ rank, .array rank ∈ name.modifiers → 1 ≤ rank) :
    outline name.typeText =
      .ok ⟨name.space, name.nesting, name.args.map written, .ok name.modifiers⟩ := by
  obtain ⟨space, nesting, args, modifiers, assembly⟩ := name
  obtain ⟨first, more, rfl⟩ := List.exists_cons_of_ne_nil named
  have isName : IsName first := names first List.mem_cons_self
  have present : first.toList.isEmpty = false := by simpa using isName.1
  have read : suffix (modifiers.flatMap TypeModifier.written) = .ok modifiers :=
    suffix_flatMap_written ranks
  have last {text : List Char} (ends : Text.EndsVisible text) :
      Text.EndsVisible (text ++ modifiers.flatMap TypeModifier.written) :=
    ends.append_flatMap fun modifier _ => endsVisible_modifier modifier
  by_cases none : args = []
  · subst none
    have starts : modifiers.flatMap TypeModifier.written = [] ∨
        StartsSuffix (modifiers.flatMap TypeModifier.written) := by
      cases modifiers with
      | nil => exact .inl rfl
      | cons modifier rest => exact .inr (startsSuffix_modifier modifier _)
    have outlined := outline_of_suffix
      (scanNames_writtenPath isName (last (endsVisible_writtenPath names)) starts)
      (named_of_names names) (splitSpace_pathMarks space first) present read
    rw [ofList_space, nesting_of_names] at outlined
    exact outlined
  · have grouped : typeText ⟨space, first :: more, args, modifiers, assembly⟩ =
        writtenPath space (first :: more) ++
          '[' :: (List.intercalate [','] (writtenArgs args) ++
            ']' :: modifiers.flatMap TypeModifier.written) := by
      simp [typeText, writtenGroup_writtenArgs none, bracketed]
    have ends : Text.EndsVisible (writtenPath space (first :: more) ++
        '[' :: (List.intercalate [','] (writtenArgs args) ++
          ']' :: modifiers.flatMap TypeModifier.written)) := by
      have := last ((endsVisible_bracketed (List.intercalate [','] (writtenArgs args))).append
        (writtenPath space (first :: more)))
      simpa [bracketed] using this
    have outlined := outline_of_group
      (scanNames_writtenPath isName ends (.inr ⟨_, _, rfl, .inl rfl⟩))
      (named_of_names names) (splitSpace_pathMarks space first) present
      ((nested_writtenArgs each).closeGroup?_eq _) (ofInner_writtenArgs none)
    rw [ofList_space, nesting_of_names, argTexts_writtenArgs none each, read] at outlined
    rw [grouped, outlined]

/-! ### Reading what is written -/

/-- The parts behind the first comma of a written name. -/
def assemblyParts : Option AssemblyIdentity → List (List Char)
  | none => []
  | some identity => identity.components.map (' ' :: ·)

theorem writtenAssembly_eq (assembly : Option AssemblyIdentity) :
    writtenAssembly assembly = (assemblyParts assembly).flatMap (',' :: ·) := by
  cases assembly with
  | none => rfl
  | some identity =>
    rw [writtenAssembly, identity.toList_render, assemblyParts, List.flatMap_map]

theorem nested_assemblyParts {assembly : Option AssemblyIdentity}
    (identified : ∀ identity ∈ assembly, identity.Spellable) {part : List Char}
    (member : part ∈ assemblyParts assembly) : Nested false part := by
  cases assembly with
  | none => cases member
  | some identity =>
    obtain ⟨text, found, rfl⟩ := List.mem_map.mp member
    have plain := AssemblyIdentity.plain_of_mem_components (identified identity rfl) found
    exact .plain (by decide) (by decide) (.of_plain plain)

theorem readAssembly_assemblyParts {assembly : Option AssemblyIdentity}
    (identified : ∀ identity ∈ assembly, identity.Spellable) :
    readAssembly (assemblyParts assembly) = .ok assembly := by
  cases assembly with
  | none => rfl
  | some identity =>
    rw [assemblyParts, readAssembly,
      AssemblyIdentity.parseAssembly_components (identified identity rfl)]
    rfl

theorem mapM_parse_written {args : List TypeName}
    (each : ∀ arg ∈ args, parse arg.written = .ok arg) :
    (args.map written).mapM parse = .ok args := by
  induction args with
  | nil => rfl
  | cons arg rest ih =>
    obtain ⟨now, later⟩ := List.forall_mem_cons.mp each
    rw [List.map_cons, List.mapM_cons, now, ih later]
    rfl

theorem typeText_ne_nil {name : TypeName} (named : name.nesting ≠ [])
    (names : ∀ part ∈ name.nesting, IsName part) : name.typeText ≠ [] := by
  obtain ⟨first, more, nesting⟩ := List.exists_cons_of_ne_nil named
  rw [nesting] at names
  obtain ⟨start, c, ends, _⟩ := endsVisible_writtenPath names
  rw [typeText, nesting, ends]
  simp

namespace Spellable

/-- In a written name every group is closed. -/
theorem nested {name : TypeName} (spellable : Spellable name) : Nested true name.written := by
  induction spellable with
  | @intro space nesting args modifiers assembly named names parts ranks identified ih =>
    rw [written_eq, writtenAssembly_eq]
    refine (nested_typeText named ih).allow.append ?_
    have each : ∀ part ∈ assemblyParts assembly, Nested false part := fun part member =>
      nested_assemblyParts identified member
    revert each
    generalize assemblyParts assembly = behind
    intro each
    induction behind with
    | nil => exact .nil
    | cons part rest ih =>
      obtain ⟨now, later⟩ := List.forall_mem_cons.mp each
      exact .plain (by decide) (fun _ => rfl) (now.allow.append (ih later))

/-- Reading a written name gives that name. -/
theorem parse_written {name : TypeName} (spellable : Spellable name) :
    parse name.written = .ok name := by
  induction spellable with
  | @intro space nesting args modifiers assembly named names parts ranks identified ih =>
    let name : TypeName := ⟨space, nesting, args, modifiers, assembly⟩
    have nested : ∀ arg ∈ args, Nested true arg.written := fun arg member =>
      (parts arg member).nested
    have split : splitFirst 0 name.written = (name.typeText, assemblyParts assembly) := by
      rw [written_eq, writtenAssembly_eq]
      exact Nested.splitFirst_parts (nested_typeText named nested) fun part member =>
        nested_assemblyParts identified member
    have outlined : outline name.typeText = .ok ⟨space, nesting, args.map written, .ok modifiers⟩ :=
      outline_typeText named names nested ranks
    have present : name.written ≠ [] := by
      rw [written_eq]
      exact List.append_ne_nil_of_left_ne_nil (typeText_ne_nil named names) _
    calc parse name.written
        = (do
            let args ← (args.map written).mapM parse
            let assembly ← readAssembly (assemblyParts assembly)
            return ⟨space, nesting, args, modifiers, assembly⟩) := by
          rw [parse_eq present, split]
          change (outline name.typeText >>= _) = _
          rw [outlined]
          rfl
      _ = .ok name := by
          rw [mapM_parse_written ih, readAssembly_assemblyParts identified]
          rfl

end Spellable

namespace Escaped

/-- A name with a blank at the start of its namespace and marks in its names, of an argument with an
assembly of its own. -/
def name : TypeName where
  space := " A.B"
  nesting := ["Out.er", "In+ner"]
  args := [⟨"", ["Key]"], [], [.byRef],
    some { name := "Lib", version := some ⟨1, 2, 3, 4⟩ }⟩]
  modifiers := [.array 1, .vector, .array 3, .pointer]
  assembly := some { name := "Lib", culture := some "x=y", publicKeyToken := some [0xB7, 0x0A] }

/-- The name as it is written. -/
def text : String :=
  "\\ A.B.Out\\.er+In\\+ner[[Key\\]&, Lib, Version=1.2.3.4]][*][][,,]*, Lib, Culture=x=y, " ++
    "PublicKeyToken=b70a"

theorem parse_written_escaped :
    Spellable name ∧ name.written = text.toList ∧ parse text.toList = .ok name := by
  have lib : Text.Plain "Lib".toList :=
    ⟨by decide, by decide, Text.forall_of_all (by decide)⟩
  have key : ∀ arg ∈ name.args, Spellable arg := by
    intro arg member
    rw [List.mem_singleton.mp member]
    refine .intro (by decide) (by decide) (by simp) (by simp) ?_
    rintro _ ⟨⟩
    exact ⟨lib, by simp⟩
  have spellable : Spellable name := by
    refine .intro (by decide) (by decide) key (by simp) ?_
    rintro _ ⟨⟩
    refine ⟨lib, ?_⟩
    rintro _ ⟨⟩
    exact ⟨⟨by decide, by decide, Text.forall_of_all (by decide)⟩, by decide⟩
  have same : name.written = text.toList := by decide +kernel
  exact ⟨spellable, same, same ▸ spellable.parse_written⟩

end Escaped

end TypeName

end CilRecovery
