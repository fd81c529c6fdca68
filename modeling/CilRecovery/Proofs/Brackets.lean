import CilRecovery.Metadata.TypeName
import CilRecovery.Proofs.Outcome

/-!
Brackets in type names. The square brackets that no backslash stands before are balanced in the
groups and modifiers of every name that can be read. The names themselves may hold closing brackets
and the assembly any brackets, so the whole text is balanced exactly if these parts are.
-/
namespace CilRecovery

namespace Text

variable {c d : Char} {text rest : List Char}

theorem ne_of_isBlank (blank : isBlank c = true) (visible : isBlank d = false) : c ≠ d := by
  rintro rfl
  simp [visible] at blank

theorem exists_trimEnd (text : List Char) :
    ∃ blanks, text = trimEnd text ++ blanks ∧ ∀ c ∈ blanks, isBlank c = true := by
  refine ⟨(text.reverse.takeWhile isBlank).reverse, ?_, fun c member => ?_⟩
  · rw [trimEnd, ← List.reverse_append, List.takeWhile_append_dropWhile, List.reverse_reverse]
  · exact List.all_eq_true.mp List.all_takeWhile c (List.mem_reverse.mp member)

theorem trimStart_append (visible : isBlank c = false) :
    trimStart (text ++ c :: rest) = trimStart text ++ c :: rest := by
  unfold trimStart
  rw [List.dropWhile_append]
  split_ifs with empty
  · rw [List.isEmpty_iff.mp empty, List.dropWhile_cons_of_neg (by simp [visible])]
    rfl
  · rfl

theorem trimEnd_append (visible : isBlank c = false) :
    trimEnd (text ++ c :: rest) = text ++ c :: trimEnd rest := by
  unfold trimEnd
  rw [List.reverse_append, List.reverse_cons, List.append_assoc, List.dropWhile_append]
  split_ifs with empty
  · rw [List.isEmpty_iff.mp empty, List.singleton_append,
      List.dropWhile_cons_of_neg (by simp [visible])]
    simp
  · simp

theorem trim_append (visible : isBlank c = false) :
    trim (text ++ c :: rest) = trimStart text ++ c :: trimEnd rest := by
  rw [trim, trimStart_append visible, trimEnd_append visible]

end Text

namespace TypeName

/-- The square brackets of a text, less those behind a backslash. -/
def brackets : List Char → List Char
  | [] => []
  | ['\\'] => []
  | '\\' :: _ :: rest => brackets rest
  | c :: rest => if c = '[' ∨ c = ']' then c :: brackets rest else brackets rest

/-- Every bracket has its partner. -/
structure Balanced (text : List Char) : Prop where
  /-- No start of the text closes more groups than it opens. -/
  closed_le_opened : ∀ start, start <+: text →
    (brackets start).count ']' ≤ (brackets start).count '['
  closed_eq_opened : (brackets text).count ']' = (brackets text).count '['

/-- How many groups are open behind a text, if no more are closed than were open. -/
def depthAfter? : (depth : Nat) → List Char → Option Nat
  | depth, [] => some depth
  | depth, ['\\'] => some depth
  | depth, '\\' :: _ :: rest => depthAfter? depth rest
  | depth, c :: rest =>
    if c = '[' then depthAfter? (depth + 1) rest
    else if c = ']' then if depth = 0 then none else depthAfter? (depth - 1) rest
    else depthAfter? depth rest

/-- A text whose last backslash stands before a character. -/
def Whole : List Char → Prop
  | [] => True
  | ['\\'] => False
  | '\\' :: _ :: rest => Whole rest
  | _ :: rest => Whole rest

/-- Induction over a text in steps of one character, or of a backslash and the character that it
stands before. -/
@[elab_as_elim]
theorem escapeInduction {motive : List Char → Prop} (text : List Char) (nil : motive [])
    (dangling : motive ['\\'])
    (escaped : ∀ c rest, motive rest → motive ('\\' :: c :: rest))
    (plain : ∀ c rest, c ≠ '\\' → motive rest → motive (c :: rest)) : motive text := by
  fun_induction Whole text with
  | case1 => exact nil
  | case2 => exact dangling
  | case3 c rest ih => exact escaped c rest ih
  | case4 c rest notLast notEscape ih =>
    refine plain c rest (fun same => ?_) ih
    cases rest with
    | nil => exact notLast same rfl
    | cons next rest => exact notEscape next rest same rfl

section Depth

variable {depth final : Nat} {c : Char} {text rest : List Char}

theorem brackets_cons (plain : c ≠ '\\') :
    brackets (c :: rest) = if c = '[' ∨ c = ']' then c :: brackets rest else brackets rest := by
  simp [brackets, plain]

theorem depthAfter?_cons (plain : c ≠ '\\') :
    depthAfter? depth (c :: rest) =
      if c = '[' then depthAfter? (depth + 1) rest
      else if c = ']' then if depth = 0 then none else depthAfter? (depth - 1) rest
      else depthAfter? depth rest := by
  simp [depthAfter?, plain]

theorem whole_cons (plain : c ≠ '\\') : Whole (c :: rest) ↔ Whole rest := by
  simp [Whole, plain]

theorem forall_prefix_cons {holds : List Char → Prop} :
    (∀ start, start <+: c :: rest → holds start) ↔
      holds [] ∧ ∀ start, start <+: rest → holds (c :: start) := by
  constructor
  · intro each
    exact ⟨each [] List.nil_prefix, fun start isPrefix =>
      each _ (List.prefix_cons_inj c |>.mpr isPrefix)⟩
  · rintro ⟨empty, each⟩ start isPrefix
    obtain rfl | ⟨more, rfl, inside⟩ := List.prefix_cons_iff.mp isPrefix
    · exact empty
    · exact each more inside

/-- The groups that are open are those opened less those closed, on all the way. -/
theorem depthAfter?_eq_some_iff :
    depthAfter? depth text = some final ↔
      (∀ start, start <+: text →
        (brackets start).count ']' ≤ depth + (brackets start).count '[') ∧
      (brackets text).count ']' + final = depth + (brackets text).count '[' := by
  induction text using escapeInduction generalizing depth with
  | nil => simp [depthAfter?, brackets, eq_comm]
  | dangling => simp [depthAfter?, brackets, List.prefix_cons_iff, eq_comm]
  | escaped c rest ih => simp [depthAfter?, ih, brackets, forall_prefix_cons]
  | plain c rest plain ih =>
    rw [depthAfter?_cons plain]
    simp only [forall_prefix_cons, brackets_cons plain]
    by_cases opens : c = '['
    · subst opens
      simp [ih, brackets, Nat.add_assoc, Nat.add_comm 1]
    · by_cases closes : c = ']'
      · subst closes
        cases depth with
        | zero =>
          refine iff_of_false (by simp) ?_
          rintro ⟨⟨_, each⟩, _⟩
          simpa [brackets] using each [] List.nil_prefix
        | succ depth =>
          have le_iff (closed opened : Nat) :
              closed + 1 ≤ depth + 1 + opened ↔ closed ≤ depth + opened := by omega
          have eq_iff (closed opened : Nat) :
              closed + 1 + final = depth + 1 + opened ↔ closed + final = depth + opened := by omega
          simp [ih, brackets, le_iff, eq_iff]
      · simp [opens, closes, ih, brackets]

theorem depthAfter?_append (whole : Whole text) :
    depthAfter? depth (text ++ rest) =
      (depthAfter? depth text).bind fun inside => depthAfter? inside rest := by
  induction text using escapeInduction generalizing depth with
  | nil => rfl
  | dangling => exact whole.elim
  | escaped c tail ih => exact ih whole
  | plain c tail plain ih =>
    have next {depth : Nat} := @ih depth ((whole_cons plain).mp whole)
    rw [List.cons_append, depthAfter?_cons plain, depthAfter?_cons plain]
    simp only [next]
    split_ifs <;> rfl

/-- What is balanced somewhere is balanced inside other groups too. -/
theorem depthAfter?_deeper (level : depthAfter? depth text = some final) (more : Nat) :
    depthAfter? (depth + more) text = some (final + more) := by
  rw [depthAfter?_eq_some_iff] at level ⊢
  refine ⟨fun start isPrefix => ?_, by omega⟩
  have := level.1 start isPrefix
  omega

theorem balanced_iff : Balanced text ↔ depthAfter? 0 text = some 0 := by
  rw [depthAfter?_eq_some_iff]
  simp only [Nat.zero_add, Nat.add_zero]
  exact ⟨fun balanced => ⟨balanced.1, balanced.2⟩, fun balanced => ⟨balanced.1, balanced.2⟩⟩

instance (text : List Char) : Decidable (Balanced text) :=
  decidable_of_iff _ balanced_iff.symm

theorem depthAfter?_blank {blanks : List Char} (blank : ∀ c ∈ blanks, Text.isBlank c = true) :
    depthAfter? depth blanks = some depth := by
  induction blanks with
  | nil => rfl
  | cons c more ih =>
    obtain ⟨first, later⟩ := List.forall_mem_cons.mp blank
    rw [depthAfter?_cons (Text.ne_of_isBlank first rfl), if_neg (Text.ne_of_isBlank first rfl),
      if_neg (Text.ne_of_isBlank first rfl)]
    exact ih later

/-- Blanks open and close nothing, also where a backslash stands before them. -/
theorem depthAfter?_append_blank {blanks : List Char}
    (blank : ∀ c ∈ blanks, Text.isBlank c = true) :
    depthAfter? depth (text ++ blanks) = depthAfter? depth text := by
  induction text using escapeInduction generalizing depth with
  | nil => exact depthAfter?_blank blank
  | dangling =>
    cases blanks with
    | nil => rfl
    | cons c more =>
      change depthAfter? depth more = some depth
      exact depthAfter?_blank (List.forall_mem_cons.mp blank).2
  | escaped c tail ih => exact ih
  | plain c tail plain ih =>
    rw [List.cons_append, depthAfter?_cons plain, depthAfter?_cons plain]
    simp only [@ih]

end Depth

/-! ### The scanners -/

section Scanners

variable {depth : Nat} {c : Char} {text rest : List Char}

/-- How many groups are open behind a character, by the rule that never goes below none. -/
def inside (depth : Nat) (c : Char) : Nat :=
  if c = '[' then depth + 1 else if c = ']' then depth - 1 else depth

theorem splitFirst_cons (plain : c ≠ '\\') :
    splitFirst depth (c :: rest) =
      if c = ',' ∧ depth = 0 then ([], (splitFirst depth rest).1 :: (splitFirst depth rest).2)
      else (c :: (splitFirst (inside depth c) rest).1, (splitFirst (inside depth c) rest).2) := by
  simp [splitFirst, plain, inside]

theorem closeGroup?_cons (plain : c ≠ '\\') :
    closeGroup? depth (c :: rest) =
      if c = ']' ∧ depth = 0 then some ([], rest)
      else (closeGroup? (inside depth c) rest).map fun (inner, after) => (c :: inner, after) := by
  simp [closeGroup?, plain, inside]

theorem scanNames_cons (plain : c ≠ '\\') :
    scanNames (c :: rest) =
      if c = '+' then ([] :: (scanNames rest).1, (scanNames rest).2)
      else if c = '[' ∨ c = '*' ∨ c = '&' then ([[]], c :: rest)
      else (extendFirst (c, false) (scanNames rest).1, (scanNames rest).2) := by
  simp [scanNames, plain]

/-- The names at the start of a text, as they are written: all up to the first group, modifier or
comma. -/
def title : List Char → List Char
  | [] => []
  | ['\\'] => ['\\']
  | '\\' :: c :: rest => '\\' :: c :: title rest
  | c :: rest => if c = '[' ∨ c = '*' ∨ c = '&' ∨ c = ',' then [] else c :: title rest

theorem title_cons (plain : c ≠ '\\') :
    title (c :: rest) =
      if c = '[' ∨ c = '*' ∨ c = '&' ∨ c = ',' then [] else c :: title rest := by
  simp [title, plain]

/-- What stands behind the first comma outside brackets, with that comma. -/
def qualifier (text : List Char) : List Char :=
  text.drop (splitFirst 0 text).1.length

/-- The part up to a comma is not cut behind a backslash. -/
theorem exists_splitFirst (depth : Nat) (text : List Char) :
    ∃ behind, text = (splitFirst depth text).1 ++ behind ∧
      (behind = [] ∨ Whole (splitFirst depth text).1) := by
  induction text using escapeInduction generalizing depth with
  | nil => exact ⟨[], rfl, .inl rfl⟩
  | dangling => exact ⟨[], rfl, .inl rfl⟩
  | escaped c rest ih =>
    obtain ⟨behind, same, whole⟩ := ih depth
    exact ⟨behind, congrArg ('\\' :: c :: ·) same, whole⟩
  | plain c rest plain ih =>
    rw [splitFirst_cons plain]
    split_ifs
    · exact ⟨c :: rest, rfl, .inr trivial⟩
    · obtain ⟨behind, same, whole⟩ := ih (inside depth c)
      refine ⟨behind, congrArg (c :: ·) same, ?_⟩
      rwa [whole_cons plain]

theorem depthAfter?_qualifier (depth : Nat) (text : List Char) :
    depthAfter? depth text =
      (depthAfter? depth (splitFirst 0 text).1).bind fun reached =>
        depthAfter? reached (qualifier text) := by
  obtain ⟨behind, same, whole⟩ := exists_splitFirst 0 text
  have isQualifier : qualifier text = behind := by
    rw [qualifier]
    conv_lhs => rw [same, List.drop_left' (by rw [← same])]
  obtain rfl | whole := whole
  · rw [isQualifier, ← List.append_nil (splitFirst 0 text).1, ← same]
    simp [depthAfter?]
  · conv_lhs => rw [same, depthAfter?_append whole]
    rw [isQualifier]

/-- A group that is closed is balanced. -/
theorem of_closeGroup? {inner after : List Char}
    (closed : closeGroup? depth text = some (inner, after)) :
    text = inner ++ ']' :: after ∧ Whole inner ∧ depthAfter? depth inner = some 0 := by
  induction text using escapeInduction generalizing depth inner with
  | nil => cases closed
  | dangling => cases closed
  | escaped c rest ih =>
    obtain ⟨⟨rest, _⟩, found, same⟩ := Option.map_eq_some_iff.mp closed
    cases same
    obtain ⟨rfl, whole, depth⟩ := ih found
    exact ⟨rfl, whole, depth⟩
  | plain c rest plain ih =>
    rw [closeGroup?_cons plain] at closed
    split_ifs at closed with closes
    · cases closed
      rw [closes.1, closes.2]
      exact ⟨rfl, trivial, rfl⟩
    · obtain ⟨⟨rest, _⟩, found, same⟩ := Option.map_eq_some_iff.mp closed
      cases same
      obtain ⟨rfl, whole, final⟩ := ih found
      refine ⟨rfl, (whole_cons plain).mpr whole, ?_⟩
      rw [depthAfter?_cons plain]
      unfold inside at final
      grind

theorem depthAfter?_group {inner after : List Char}
    (closed : closeGroup? 0 text = some (inner, after)) :
    depthAfter? 0 ('[' :: text) = depthAfter? 0 after := by
  obtain ⟨rfl, whole, level⟩ := of_closeGroup? closed
  have deeper : depthAfter? 1 inner = some 1 := depthAfter?_deeper level 1
  change depthAfter? 1 (inner ++ ']' :: after) = _
  rw [depthAfter?_append whole, deeper]
  rfl

/-- Modifiers that can be read are balanced. -/
theorem depthAfter?_of_suffix {modifiers : List TypeModifier} (read : suffix text = .ok modifiers) :
    depthAfter? 0 text = some 0 := by
  fun_induction suffix text generalizing modifiers with
  | case1 => rfl
  | case2 rest ih =>
    obtain ⟨more, read, _⟩ := exists_of_map_eq_ok read
    exact ih read
  | case3 rest _ ih =>
    obtain ⟨more, read, _⟩ := exists_of_map_eq_ok read
    exact ih read
  | case4 => cases read
  | case5 rest inner after closed modifier group _ _ ih =>
    obtain ⟨more, read, _⟩ := exists_of_map_eq_ok read
    rw [depthAfter?_group closed]
    exact ih read
  | case6 => cases read
  | case7 c rest _ _ _ blank ih =>
    rw [depthAfter?_cons (Text.ne_of_isBlank blank rfl), if_neg (Text.ne_of_isBlank blank rfl),
      if_neg (Text.ne_of_isBlank blank rfl)]
    exact ih read
  | case8 => cases read

/-- What comes behind the names of a part that can be read is balanced. -/
theorem depthAfter?_of_outline {part : List Char} {parsed : Outline}
    {modifiers : List TypeModifier} (outlined : outline part = .ok parsed)
    (read : parsed.modifiers = .ok modifiers) :
    depthAfter? 0 (scanNames (Text.trim part)).2 = some 0 := by
  simp only [outline] at outlined
  split_ifs at outlined
  split at outlined
  · rename_i rest tail
    split at outlined
    · cases outlined
    · rename_i inner after closed
      split at outlined
      · cases outlined
        exact depthAfter?_of_suffix read
      · cases outlined
        rw [tail, depthAfter?_group closed]
        exact depthAfter?_of_suffix read
  · cases outlined
    exact depthAfter?_of_suffix read

/-! ### Titles -/

/-- Whether a text starts a group or is a modifier. -/
def StartsSuffix (text : List Char) : Prop :=
  ∃ c rest, text = c :: rest ∧ (c = '[' ∨ c = '*' ∨ c = '&')

/-- What stands before the assembly is a title and what is put around the name. -/
theorem exists_title (text : List Char) :
    ∃ behind, (splitFirst 0 text).1 = title text ++ behind ∧
      (behind = [] ∨ Whole (title text) ∧ StartsSuffix behind) := by
  induction text using escapeInduction with
  | nil => exact ⟨[], rfl, .inl rfl⟩
  | dangling => exact ⟨[], rfl, .inl rfl⟩
  | escaped c rest ih =>
    obtain ⟨behind, same, starts⟩ := ih
    exact ⟨behind, congrArg ('\\' :: c :: ·) same, starts⟩
  | plain c rest plain ih =>
    rw [splitFirst_cons plain, title_cons plain]
    by_cases comma : c = ','
    · exact ⟨[], by simp [comma], .inl rfl⟩
    · by_cases starts : c = '[' ∨ c = '*' ∨ c = '&'
      · refine ⟨c :: (splitFirst (inside 0 c) rest).1, ?_, .inr ⟨?_, c, _, rfl, starts⟩⟩ <;>
          simp [starts, comma, Whole]
      · -- A closing bracket in a name leaves the depth at zero.
        have level : inside 0 c = 0 := by
          unfold inside
          grind
        obtain ⟨behind, same, starts⟩ := ih
        refine ⟨behind, ?_, ?_⟩
        · simp only [comma, level]
          grind
        · have : ¬ (c = '[' ∨ c = '*' ∨ c = '&' ∨ c = ',') := by grind
          rwa [if_neg this, whole_cons plain]

theorem title_title (text : List Char) : title (title text) = title text := by
  induction text using escapeInduction with
  | nil => rfl
  | dangling => rfl
  | escaped c rest ih => simp [title, ih]
  | plain c rest plain ih =>
    rw [title_cons plain]
    split_ifs with stops
    · rfl
    · rw [title_cons plain, if_neg stops, ih]

theorem title_trimStart (titled : title text = text) :
    title (Text.trimStart text) = Text.trimStart text := by
  induction text with
  | nil => rfl
  | cons c rest ih =>
    rw [Text.trimStart, List.dropWhile_cons]
    split_ifs with blank
    · rw [title_cons (Text.ne_of_isBlank blank rfl)] at titled
      split_ifs at titled
      exact ih (List.cons_inj_right c |>.mp titled)
    · exact titled

theorem whole_trimStart (whole : Whole text) : Whole (Text.trimStart text) := by
  induction text with
  | nil => trivial
  | cons c rest ih =>
    rw [Text.trimStart, List.dropWhile_cons]
    split_ifs with blank
    · exact ih ((whole_cons (Text.ne_of_isBlank blank rfl)).mp whole)
    · exact whole

/-- The scan of names ends where the title does. -/
theorem snd_scanNames_append (titled : title text = text) {behind : List Char}
    (ends : behind = [] ∨ Whole text ∧ StartsSuffix behind) :
    (scanNames (text ++ behind)).2 = behind := by
  induction text using escapeInduction with
  | nil =>
    obtain rfl | ⟨_, c, rest, rfl, starts⟩ := ends
    · rfl
    · have plain : c ≠ '\\' := by grind
      have noName : c ≠ '+' := by grind
      rw [List.nil_append, scanNames_cons plain, if_neg noName, if_pos starts]
  | dangling =>
    obtain rfl | ⟨whole, _⟩ := ends
    · rfl
    · exact whole.elim
  | escaped c rest ih => exact ih (by simpa [title] using titled) ends
  | plain c rest plain ih =>
    rw [title_cons plain] at titled
    split_ifs at titled with stops
    rw [whole_cons plain] at ends
    have next := ih (List.cons_inj_right c |>.mp titled) ends
    rw [List.cons_append, scanNames_cons plain]
    split_ifs
    · exact next
    · grind
    · exact next

/-- A title opens no group, so all its brackets are too many. -/
theorem depthAfter?_title (text : List Char) :
    depthAfter? 0 (title text) = if ']' ∈ brackets (title text) then none else some 0 := by
  induction text using escapeInduction with
  | nil => rfl
  | dangling => rfl
  | escaped c rest ih => exact ih
  | plain c rest plain ih =>
    rw [title_cons plain]
    split_ifs with stops found found
    · simp [brackets] at found
    · rfl
    · rw [depthAfter?_cons plain]
      rw [brackets_cons plain] at found
      grind
    · rw [depthAfter?_cons plain]
      rw [brackets_cons plain] at found
      grind

/-- If what comes behind the names is balanced, the part in front of the assembly is as deep as
its title. -/
theorem depthAfter?_part
    (level : depthAfter? 0 (scanNames (Text.trim (splitFirst 0 text).1)).2 = some 0) :
    depthAfter? 0 (splitFirst 0 text).1 = depthAfter? 0 (title text) := by
  obtain ⟨behind, same, rfl | ⟨whole, c, rest, rfl, starts⟩⟩ := exists_title text
  · rw [same, List.append_nil]
  · have visible : Text.isBlank c = false := by
      rcases starts with rfl | rfl | rfl <;> rfl
    have scanned : (scanNames (Text.trim (splitFirst 0 text).1)).2 = c :: Text.trimEnd rest := by
      rw [same, Text.trim_append visible]
      exact snd_scanNames_append (title_trimStart (title_title text))
        (.inr ⟨whole_trimStart whole, c, _, rfl, starts⟩)
    obtain ⟨blanks, padded, blank⟩ := Text.exists_trimEnd rest
    have suffixLevel : depthAfter? 0 (c :: rest) = some 0 := by
      rw [padded, ← List.cons_append, depthAfter?_append_blank blank, ← scanned, level]
    rw [same, depthAfter?_append whole, depthAfter?_title]
    split_ifs
    · rfl
    · exact suffixLevel

end Scanners

/-- The assembly from the parts behind the first comma; without any there is none. -/
def readAssembly (parts : List (List Char)) : Except Error (Option AssemblyIdentity) :=
  if parts.isEmpty then .ok none else (parseAssembly parts).map some

/-- Reading goes from part to part: the names and what is put around them, the arguments, the
assembly. -/
theorem parse_eq {text : List Char} (present : text ≠ []) :
    parse text = do
      let parsed ← outline (splitFirst 0 text).1
      let args ← parsed.args.mapM parse
      let modifiers ← parsed.modifiers
      let assembly ← readAssembly (splitFirst 0 text).2
      return ⟨parsed.space, parsed.nesting, args, modifiers, assembly⟩ := by
  have parts : split text = (splitFirst 0 text).1 :: (splitFirst 0 text).2 := by
    simp [split, present]
  rw [parse]
  split
  · rename_i none
    simp [parts] at none
  · rename_i part assembly same
    obtain ⟨rfl, rfl⟩ := List.cons.inj (parts.symm.trans same)
    split
    · rename_i e failed
      rw [failed]
      rfl
    · rename_i parsed outlined
      rw [outlined, readAssembly]
      simp only [List.mapM_subtype, List.unattach_attach, List.isEmpty_iff, bind_pure_comp,
        map_pure]
      split_ifs <;> rfl

/-- A text that can be read as a type name is balanced exactly if its names hold no closing bracket
and its assembly is balanced: there brackets are taken as they come. -/
theorem balanced_iff_of_parse {text : List Char} {name : TypeName} (read : parse text = .ok name) :
    Balanced text ↔ ']' ∉ brackets (title text) ∧ Balanced (qualifier text) := by
  have present : text ≠ [] := by
    rintro rfl
    rw [parse] at read
    cases read
  rw [parse_eq present] at read
  obtain ⟨parsed, outlined, read⟩ := exists_of_bind_eq_ok read
  obtain ⟨args, _, read⟩ := exists_of_bind_eq_ok read
  obtain ⟨modifiers, suffixed, _⟩ := exists_of_bind_eq_ok read
  have part : depthAfter? 0 (splitFirst 0 text).1 = depthAfter? 0 (title text) :=
    depthAfter?_part (depthAfter?_of_outline outlined suffixed)
  rw [balanced_iff, balanced_iff, depthAfter?_qualifier, part, depthAfter?_title]
  split_ifs with closes <;> simp [closes]

namespace StrayBracket

/-- A closing bracket among the names and any bracket in the assembly are letters like others, so
that texts which are not balanced are read. -/
theorem not_balanced :
    (parse "Foo]".toList = .ok ⟨"", ["Foo]"], [], [], none⟩ ∧ ¬ Balanced "Foo]".toList) ∧
      parse "Foo, [Lib".toList = .ok ⟨"", ["Foo"], [], [], some { name := "[Lib" }⟩ ∧
        ¬ Balanced "Foo, [Lib".toList := by
  refine ⟨⟨?_, by decide⟩, ?_, by decide⟩ <;> with_unfolding_all rfl

theorem balanced_nested :
    parse "Map[[Key[], Lib],[Value\\]]][,]*, Lib[]".toList =
        .ok ⟨"", ["Map"], [⟨"", ["Key"], [], [.vector], some { name := "Lib" }⟩,
          ⟨"", ["Value]"], [], [], none⟩], [.array 2, .pointer], some { name := "Lib[]" }⟩ ∧
      Balanced "Map[[Key[], Lib],[Value\\]]][,]*, Lib[]".toList := by
  have read : parse "Map[[Key[], Lib],[Value\\]]][,]*, Lib[]".toList =
      .ok ⟨"", ["Map"], [⟨"", ["Key"], [], [.vector], some { name := "Lib" }⟩,
        ⟨"", ["Value]"], [], [], none⟩], [.array 2, .pointer], some { name := "Lib[]" }⟩ := by
    with_unfolding_all rfl
  exact ⟨read, (balanced_iff_of_parse read).mpr ⟨by decide, by decide⟩⟩

end StrayBracket

end TypeName

end CilRecovery
