import Mathlib.Data.List.TakeWhile
import CilRecovery.Proofs.Assemblies

/-!
The path of a type name: its namespace and its names, joined by `+`. A backslash stands before each
character that would mean something, and before a blank at the start of a name. So commas and groups
in the text are none of the path, and a scan finds the names again.
-/
namespace CilRecovery

namespace Text.EndsVisible

variable {text rest : List Char}

theorem append (ends : EndsVisible rest) (text : List Char) : EndsVisible (text ++ rest) := by
  obtain ⟨start, c, rfl, visible⟩ := ends
  exact ⟨text ++ start, c, by simp, visible⟩

theorem append_flatMap {α : Type} {parts : List α} {shown : α → List Char}
    (ends : EndsVisible text) (each : ∀ part ∈ parts, EndsVisible (shown part)) :
    EndsVisible (text ++ parts.flatMap shown) := by
  induction parts generalizing text with
  | nil => simpa using ends
  | cons part more ih =>
    obtain ⟨now, later⟩ := List.forall_mem_cons.mp each
    rw [List.flatMap_cons, ← List.append_assoc]
    exact ih (now.append text) later

end Text.EndsVisible

namespace TypeName

/-! ### Nesting -/

/-- A text of which the groups are closed. Commas may be banned outside of the groups. -/
inductive Nested : (commas : Bool) → List Char → Prop
  | nil {commas : Bool} : Nested commas []
  | escaped {commas : Bool} {rest : List Char} (c : Char) (later : Nested commas rest) :
      Nested commas ('\\' :: c :: rest)
  | plain {commas : Bool} {c : Char} {rest : List Char} (solid : c ∉ ['\\', '[', ']'])
      (comma : c = ',' → commas = true) (later : Nested commas rest) : Nested commas (c :: rest)
  | group {commas : Bool} {inner rest : List Char} (inside : Nested true inner)
      (later : Nested commas rest) : Nested commas ('[' :: (inner ++ ']' :: rest))

namespace Nested

variable {commas : Bool} {text rest : List Char}

theorem append (first : Nested commas text) (later : Nested commas rest) :
    Nested commas (text ++ rest) := by
  induction first with
  | nil => exact later
  | escaped c _ ih => exact .escaped c (ih later)
  | plain solid comma _ ih => exact .plain solid comma (ih later)
  | group inside _ _ ih =>
    rw [List.cons_append, List.append_assoc]
    exact .group inside (ih later)

theorem allow (nested : Nested commas text) : Nested true text := by
  induction nested with
  | nil => exact .nil
  | escaped c _ ih => exact .escaped c ih
  | plain solid _ _ ih => exact .plain solid (fun _ => rfl) ih
  | group inside _ _ ih => exact .group inside ih

/-- A comma outside of a text is outside of its groups. -/
theorem splitFirst_append (nested : Nested commas text) {depth : Nat}
    (top : depth = 0 → commas = false) (rest : List Char) :
    splitFirst depth (text ++ rest) =
      (text ++ (splitFirst depth rest).1, (splitFirst depth rest).2) := by
  induction nested generalizing depth rest with
  | nil => rfl
  | escaped c _ ih => simp [splitFirst, ih top]
  | @plain _ c _ solid comma _ ih =>
    simp only [List.mem_cons, List.not_mem_nil, or_false, not_or] at solid
    have kept : ¬ (c = ',' ∧ depth = 0) := by
      rintro ⟨isComma, isTop⟩
      exact Bool.false_ne_true ((top isTop).symm.trans (comma isComma))
    have level : inside depth c = depth := by simp [inside, solid.2.1, solid.2.2]
    rw [List.cons_append, splitFirst_cons solid.1, if_neg kept, level, ih top]
    rfl
  | @group _ inner more _ _ ihInner ih =>
    have opened : inside depth '[' = depth + 1 := rfl
    have closed : inside (depth + 1) ']' = depth := rfl
    rw [List.cons_append, List.append_assoc, List.cons_append, splitFirst_cons (by decide),
      if_neg (by simp), opened, ihInner (by simp), splitFirst_cons (by decide), if_neg (by simp),
      closed, ih top]
    simp

/-- A group goes on behind a text in it. -/
theorem closeGroup?_append (nested : Nested commas text) (depth : Nat) (rest : List Char) :
    closeGroup? depth (text ++ rest) =
      (closeGroup? depth rest).map fun (inner, after) => (text ++ inner, after) := by
  induction nested generalizing depth rest with
  | nil => simp
  | escaped c _ ih => simp [closeGroup?, ih, Function.comp_def]
  | @plain _ c _ solid _ _ ih =>
    simp only [List.mem_cons, List.not_mem_nil, or_false, not_or] at solid
    have level : inside depth c = depth := by simp [inside, solid.2.1, solid.2.2]
    rw [List.cons_append, closeGroup?_cons solid.1, if_neg (fun closes => solid.2.2 closes.1),
      level, ih]
    simp [Function.comp_def]
  | @group _ inner more _ _ ihInner ih =>
    have opened : inside depth '[' = depth + 1 := rfl
    have closed : inside (depth + 1) ']' = depth := rfl
    rw [List.cons_append, List.append_assoc, List.cons_append, closeGroup?_cons (by decide),
      if_neg (by simp), opened, ihInner, closeGroup?_cons (by decide), if_neg (by simp), closed, ih]
    simp [Function.comp_def]

theorem closeGroup?_eq (nested : Nested commas text) (after : List Char) :
    closeGroup? 0 (text ++ ']' :: after) = some (text, after) := by
  rw [nested.closeGroup?_append, closeGroup?_cons (by decide), if_pos ⟨rfl, rfl⟩]
  simp

theorem single {c : Char} (solid : c ∉ ['\\', '[', ']']) (comma : c = ',' → commas = true) :
    Nested commas [c] :=
  .plain solid comma .nil

theorem of_flat (flat : ∀ c ∈ text, c ∉ ['\\', '[', ']']) (comma : ',' ∈ text → commas = true) :
    Nested commas text := by
  induction text with
  | nil => exact .nil
  | cons c rest ih =>
    obtain ⟨first, later⟩ := List.forall_mem_cons.mp flat
    exact .plain first (fun same => comma (same ▸ List.mem_cons_self))
      (ih later fun member => comma (List.mem_cons_of_mem _ member))

theorem of_plain (plain : Text.Plain text) : Nested commas text := by
  refine of_flat (fun c member => ?_) fun member => absurd (plain.free _ member) (by decide)
  have free := plain.free c member
  simp only [List.mem_cons, List.not_mem_nil, or_false, not_or] at free ⊢
  exact ⟨free.2.2.2, free.2.1, free.2.2.1⟩

/-- Parts between commas are found again. -/
theorem splitFirst_parts {first : List Char} {more : List (List Char)}
    (now : Nested false first) (later : ∀ part ∈ more, Nested false part) :
    splitFirst 0 (first ++ more.flatMap (',' :: ·)) = (first, more) := by
  induction more generalizing first with
  | nil =>
    rw [List.flatMap_nil, now.splitFirst_append fun _ => rfl]
    simp [splitFirst]
  | cons part rest ih =>
    obtain ⟨next, later⟩ := List.forall_mem_cons.mp later
    rw [List.flatMap_cons, now.splitFirst_append fun _ => rfl, List.cons_append,
      splitFirst_cons (by decide), if_pos ⟨rfl, rfl⟩, ih next later]
    simp

end Nested

/-! ### Marks -/

/-- The characters that mean something wherever they stand. -/
def specials : List Char := ['\\', ',', '+', '[', ']', '*', '&']

/-- Marks the characters of a text that a test picks, and a blank at its start. -/
def mark (test : Char → Bool) : List Char → List (Char × Bool)
  | [] => []
  | first :: rest => (first, test first || Text.isBlank first) :: rest.map fun c => (c, test c)

/-- Writes the marked characters behind a backslash and the others as they are. -/
def spell (marks : List (Char × Bool)) : List Char :=
  marks.flatMap fun mark => if mark.2 then ['\\', mark.1] else [mark.1]

/-- A dot in a namespace divides it. -/
def spaceMarks (space : String) : List (Char × Bool) :=
  mark (fun c => specials.contains c) space.toList

/-- A dot in a name is part of it. -/
def nameMarks (name : String) : List (Char × Bool) :=
  mark (fun c => specials.contains c || c == '.') name.toList

/-- The namespace and the names, from the outermost on. -/
def writtenPath (space : String) (nesting : List String) : List Char :=
  (if space.isEmpty then [] else spell (spaceMarks space) ++ ['.']) ++
    List.intercalate ['+'] (nesting.map fun name => spell (nameMarks name))

section Names

variable {marks : List (Char × Bool)}

/-- Marks by which no character that is left as it is means something. -/
def Safe (marks : List (Char × Bool)) : Prop := ∀ c, (c, false) ∈ marks → c ∉ specials

theorem nested_spell (safe : Safe marks) (commas : Bool) : Nested commas (spell marks) := by
  induction marks with
  | nil => exact .nil
  | cons mark rest ih =>
    obtain ⟨c, escaped⟩ := mark
    have later : Safe rest := fun c member => safe c (List.mem_cons_of_mem _ member)
    cases escaped with
    | true => exact .escaped c (ih later)
    | false =>
      have plain := safe c List.mem_cons_self
      refine .plain ?_ ?_ (ih later) <;> grind [specials]

/-- Spelled characters are scanned into the first name. -/
theorem scanNames_spell (safe : Safe marks) (rest : List Char) :
    scanNames (spell marks ++ rest) =
      (marks.foldr extendFirst (scanNames rest).1, (scanNames rest).2) := by
  induction marks with
  | nil => rfl
  | cons mark more ih =>
    obtain ⟨c, escaped⟩ := mark
    have later : Safe more := fun c member => safe c (List.mem_cons_of_mem _ member)
    cases escaped with
    | true =>
      change scanNames ('\\' :: c :: (spell more ++ rest)) = _
      simp only [scanNames, ih later, List.foldr_cons]
    | false =>
      have plain := safe c List.mem_cons_self
      simp only [specials, List.mem_cons, List.not_mem_nil, not_or] at plain
      change scanNames (c :: (spell more ++ rest)) = _
      rw [scanNames_cons plain.1, if_neg plain.2.2.1, if_neg (by grind), ih later]
      rfl

theorem foldr_extendFirst (name : List (Char × Bool)) (more : List (List (Char × Bool))) :
    marks.foldr extendFirst (name :: more) = (marks ++ name) :: more := by
  induction marks with
  | nil => rfl
  | cons mark rest ih => rw [List.foldr_cons, ih, extendFirst, List.cons_append]

theorem scanNames_of_starts {behind : List Char} (ends : behind = [] ∨ StartsSuffix behind) :
    scanNames behind = ([[]], behind) := by
  obtain rfl | ⟨c, rest, rfl, starts⟩ := ends
  · rfl
  · rw [scanNames_cons (by grind), if_neg (by grind), if_pos starts]

/-- Names that are joined by `+` are scanned one by one. -/
theorem scanNames_joined {more : List (List (Char × Bool))} {behind : List Char} (safe : Safe marks)
    (later : ∀ marks ∈ more, Safe marks) (ends : behind = [] ∨ StartsSuffix behind) :
    scanNames (spell marks ++ (more.flatMap (fun marks => '+' :: spell marks) ++ behind)) =
      (marks :: more, behind) := by
  induction more generalizing marks with
  | nil =>
    rw [scanNames_spell safe, List.flatMap_nil, List.nil_append, scanNames_of_starts ends,
      foldr_extendFirst, List.append_nil]
  | cons next rest ih =>
    obtain ⟨now, later⟩ := List.forall_mem_cons.mp later
    rw [scanNames_spell safe, List.flatMap_cons, List.cons_append, List.cons_append,
      List.append_assoc, scanNames_cons (by decide), if_pos rfl, ih now later, foldr_extendFirst,
      List.append_nil]

theorem map_fst_mark (test : Char → Bool) (text : List Char) :
    (mark test text).map Prod.fst = text := by
  cases text with
  | nil => rfl
  | cons first rest => simp [mark, Function.comp_def]

theorem of_mem_mark {test : Char → Bool} {text : List Char} {c : Char}
    (member : (c, false) ∈ mark test text) : test c = false := by
  cases text with
  | nil => cases member
  | cons first rest =>
    rcases List.mem_cons.mp member with here | later
    · exact (Bool.or_eq_false_iff.mp (Prod.mk.inj here).2.symm).1 ▸ (Prod.mk.inj here).1 ▸ rfl
    · obtain ⟨d, _, same⟩ := List.mem_map.mp later
      obtain ⟨rfl, unmarked⟩ := Prod.mk.inj same
      exact unmarked

theorem safe_spaceMarks (space : String) : Safe (spaceMarks space) := by
  intro c member
  simpa using of_mem_mark member

theorem safe_nameMarks (name : String) : Safe (nameMarks name) := by
  intro c member
  have unmarked : c ∉ specials ∧ c ≠ '.' := by simpa using of_mem_mark member
  exact unmarked.1

theorem dot_notMem_nameMarks (name : String) : ('.', false) ∉ nameMarks name := by
  intro member
  simpa using of_mem_mark member

/-- A name without a free dot has no namespace. -/
theorem splitSpace_of_notMem (noDot : ('.', false) ∉ marks) :
    splitSpace marks = (none, marks.map Prod.fst) := by
  have all : marks.reverse.takeWhile (fun c => c != ('.', false)) = marks.reverse := by
    rw [List.takeWhile_eq_self_iff]
    intro c member
    simpa using ne_of_mem_of_not_mem (List.mem_reverse.mp member) noDot
  simp [splitSpace, all]

/-- A name is split at its last free dot. -/
theorem splitSpace_append {space : List (Char × Bool)} (noDot : ('.', false) ∉ marks) :
    splitSpace (space ++ ('.', false) :: marks) =
      (some (space.map Prod.fst), marks.map Prod.fst) := by
  have last : (space ++ ('.', false) :: marks).reverse.takeWhile (fun c => c != ('.', false)) =
      marks.reverse := by
    rw [List.reverse_append, List.reverse_cons, List.append_assoc, List.takeWhile_append_of_pos]
    · simp
    · intro c member
      simpa using ne_of_mem_of_not_mem (List.mem_reverse.mp member) noDot
  have longer : marks.length ≠ (space ++ ('.', false) :: marks).length := by
    simp only [List.length_append, List.length_cons]
    omega
  have start : (space ++ ('.', false) :: marks).length - marks.length - 1 = space.length := by
    simp only [List.length_append, List.length_cons]
    omega
  simp only [splitSpace, last, List.reverse_reverse, if_neg longer, start, List.take_left']

/-- The namespace and the outermost name. -/
def pathMarks (space name : String) : List (Char × Bool) :=
  (if space.isEmpty then [] else spaceMarks space ++ [('.', false)]) ++ nameMarks name

theorem spell_append (marks more : List (Char × Bool)) :
    spell (marks ++ more) = spell marks ++ spell more :=
  List.flatMap_append

theorem intercalate_cons (separator : Char) (first : List Char) (more : List (List Char)) :
    List.intercalate [separator] (first :: more) = first ++ more.flatMap (separator :: ·) := by
  induction more generalizing first with
  | nil => simp
  | cons next rest ih => rw [List.intercalate_cons_cons, ih]; simp

theorem writtenPath_cons (space first : String) (more : List String) :
    writtenPath space (first :: more) =
      spell (pathMarks space first) ++
        (more.map nameMarks).flatMap fun marks => '+' :: spell marks := by
  rw [writtenPath, List.map_cons, intercalate_cons, pathMarks]
  split_ifs <;> simp [List.flatMap_map, spell]

theorem safe_pathMarks (space name : String) : Safe (pathMarks space name) := by
  intro c member
  rw [pathMarks] at member
  split_ifs at member with empty
  · exact safe_nameMarks name c member
  · simp only [List.append_assoc, List.mem_append, List.mem_singleton] at member
    rcases member with inSpace | dot | inName
    · exact safe_spaceMarks space c inSpace
    · cases dot
      decide
    · exact safe_nameMarks name c inName

theorem splitSpace_pathMarks (space name : String) :
    splitSpace (pathMarks space name) =
      (if space.isEmpty then none else some space.toList, name.toList) := by
  have named : (nameMarks name).map Prod.fst = name.toList := map_fst_mark ..
  rw [pathMarks]
  split_ifs
  · rw [List.nil_append, splitSpace_of_notMem (dot_notMem_nameMarks name), named]
  · rw [List.append_assoc, List.singleton_append, splitSpace_append (dot_notMem_nameMarks name),
      named, spaceMarks, map_fst_mark]

end Names

/-! ### Blanks around names -/

section Blanks

open CilRecovery.Text

variable {text rest : List Char}

theorem endsVisible_spell {test : Char → Bool} (some : text ≠ [])
    (last : ∀ c ∈ text.getLast?, isBlank c = false) : EndsVisible (spell (mark test text)) := by
  have same := map_fst_mark test text
  obtain empty | ⟨start, ⟨c, escaped⟩, split⟩ := (mark test text).eq_nil_or_concat'
  · rw [empty] at same
    exact absurd same.symm some
  · rw [split] at same ⊢
    rw [spell_append]
    apply EndsVisible.append
    have visible : isBlank c = false := last c (by simp [← same])
    cases escaped with
    | true => exact ⟨['\\'], c, rfl, visible⟩
    | false => exact ⟨[], c, rfl, visible⟩

theorem visible_of_head?_spell {test : Char → Bool} (some : text ≠ []) {c : Char}
    (first : c ∈ (spell (mark test text) ++ rest).head?) : isBlank c = false := by
  cases text with
  | nil => exact absurd rfl some
  | cons d more =>
    by_cases escaped : (test d || isBlank d) = true
    · rw [mark, escaped] at first
      cases first
      rfl
    · rw [mark, Bool.not_eq_true _ |>.mp escaped] at first
      cases first
      exact (Bool.or_eq_false_iff.mp (Bool.not_eq_true _ |>.mp escaped)).2

end Blanks

/-! ### Whole paths -/

section Paths

variable {space first : String} {more : List String} {tail : List Char}

/-- A name that is not empty and does not end in a blank. -/
def IsName (name : String) : Prop :=
  name ≠ "" ∧ ∀ c ∈ name.toList.getLast?, Text.isBlank c = false

instance (name : String) : Decidable (IsName name) :=
  decidable_of_iff (name ≠ "" ∧ name.toList.getLast?.all (fun c => !Text.isBlank c) = true) (by
    simp only [IsName, Option.all_eq_true, Bool.not_eq_true', Option.mem_def])

theorem IsName.toList_ne_nil {name : String} (isName : IsName name) : name.toList ≠ [] := by
  simpa using isName.1

theorem endsVisible_nameMarks {name : String} (isName : IsName name) :
    Text.EndsVisible (spell (nameMarks name)) :=
  endsVisible_spell isName.toList_ne_nil isName.2

theorem nested_writtenPath : Nested false (writtenPath space (first :: more)) := by
  rw [writtenPath_cons]
  refine (nested_spell (safe_pathMarks space first) false).append ?_
  induction more with
  | nil => exact .nil
  | cons name rest ih =>
    rw [List.map_cons, List.flatMap_cons]
    exact .plain (by decide) (by decide) ((nested_spell (safe_nameMarks name) false).append ih)

theorem endsVisible_writtenPath (names : ∀ name ∈ first :: more, IsName name) :
    Text.EndsVisible (writtenPath space (first :: more)) := by
  obtain ⟨now, later⟩ := List.forall_mem_cons.mp names
  rw [writtenPath_cons, pathMarks, spell_append]
  refine ((endsVisible_nameMarks now).append _).append_flatMap fun marks member => ?_
  obtain ⟨name, found, rfl⟩ := List.mem_map.mp member
  exact (endsVisible_nameMarks (later name found)).append ['+']

theorem visible_of_head?_writtenPath (isName : IsName first) {c : Char}
    (start : c ∈ (writtenPath space (first :: more) ++ tail).head?) : Text.isBlank c = false := by
  rw [writtenPath_cons, List.append_assoc, pathMarks] at start
  split_ifs at start with empty
  · exact visible_of_head?_spell isName.toList_ne_nil start
  · rw [List.append_assoc, spell_append, List.append_assoc] at start
    exact visible_of_head?_spell (by simpa using empty) start

/-- The path is scanned to its names, whatever comes behind it. -/
theorem scanNames_writtenPath (isName : IsName first)
    (last : Text.EndsVisible (writtenPath space (first :: more) ++ tail))
    (ends : tail = [] ∨ StartsSuffix tail) :
    scanNames (Text.trim (writtenPath space (first :: more) ++ tail)) =
      (pathMarks space first :: more.map nameMarks, tail) := by
  rw [Text.trim_eq_self (fun c start => visible_of_head?_writtenPath isName start) last,
    writtenPath_cons, List.append_assoc]
  apply scanNames_joined (safe_pathMarks space first) _ ends
  intro marks member
  obtain ⟨name, _, rfl⟩ := List.mem_map.mp member
  exact safe_nameMarks name

theorem nesting_of_names (first : String) (more : List String) :
    (first.toList :: (more.map nameMarks).map (·.map Prod.fst)).map String.ofList =
      first :: more := by
  have each (name : String) : (nameMarks name).map Prod.fst = name.toList := map_fst_mark ..
  simp [each, Function.comp_def]

theorem ofList_space (space : String) :
    String.ofList ((if space.isEmpty then none else some space.toList).getD []) = space := by
  split_ifs with empty
  · exact (String.isEmpty_iff.mp empty).symm
  · exact String.ofList_toList

theorem named_of_names (names : ∀ name ∈ first :: more, IsName name) :
    (pathMarks space first :: more.map nameMarks).any List.isEmpty = false := by
  have marked {name : String} (isName : IsName name) : nameMarks name ≠ [] := by
    intro empty
    have same : (nameMarks name).map Prod.fst = name.toList := map_fst_mark ..
    exact isName.toList_ne_nil (by rw [← same, empty, List.map_nil])
  obtain ⟨now, later⟩ := List.forall_mem_cons.mp names
  rw [List.any_eq_false]
  intro marks member
  rcases List.mem_cons.mp member with rfl | member
  · simp [pathMarks, marked now]
  · obtain ⟨name, found, rfl⟩ := List.mem_map.mp member
    simp [marked (later name found)]

end Paths

end TypeName

end CilRecovery
