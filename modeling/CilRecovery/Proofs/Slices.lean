import Mathlib.Data.List.ModifyLast
import CilRecovery.Proofs.Paths
import CilRecovery.Text.Utf8

/-!
Texts taken apart by places. Instead of pieces of a text there may be places in it: where a part or
a group starts and where it ends, how many groups are open there, how many bytes stand before a
dot. Then a place may turn out to be none of the text, and a count may go below zero. Whatever the
text, this does not happen: the parts, the groups and the names of a type name are those that are
found piece by piece.
-/
namespace CilRecovery.TypeName.Checked

/-- What must never happen to places and counts. -/
inductive Fault where
  /-- A count goes below zero. -/
  | belowZero
  /-- A place lies outside its text, or the end of a slice before its start. -/
  | outside
  /-- A byte place lies inside a character. -/
  | insideCharacter
  /-- A turn of a loop does not move on in the text. -/
  | noAdvance
  /-- An argument is no shorter than the name that it belongs to. -/
  | notShorter
  deriving DecidableEq, Repr

/-- Why an operation on places does not come to a result. -/
inductive Stop where
  | fault (fault : Fault)
  | error (e : Error)
  deriving DecidableEq, Repr

/-! ### Steps that are checked -/

def decrement : Nat → Except Stop Nat
  | 0 => .error (.fault .belowZero)
  | n + 1 => .ok n

/-- The element at a place. -/
def element (list : List α) (place : Nat) : Except Stop α :=
  match list[place]? with
  | some a => .ok a
  | none => .error (.fault .outside)

/-- The text between two places. -/
def slice (text : List Char) (start stop : Nat) : Except Stop (List Char) :=
  if start ≤ stop ∧ stop ≤ text.length then .ok ((text.take stop).drop start)
  else .error (.fault .outside)

/-- How many bytes a text takes. -/
def byteLength (text : List Char) : Nat := (Text.Utf8.encode text).length

/-- What stands before a byte place, and what stands behind it. -/
def cut : (place : Nat) → List Char → Except Stop (List Char × List Char)
  | 0, text => .ok ([], text)
  | _ + 1, [] => .error (.fault .outside)
  | place + 1, c :: rest =>
    if place + 1 < c.utf8Size then .error (.fault .insideCharacter)
    else (cut (place + 1 - c.utf8Size) rest).map fun (front, behind) => (c :: front, behind)

/-- The text without the blanks around it: from the first character that is none to the last. -/
def trim (text : List Char) : Except Stop (List Char) :=
  let start := text.findIdx fun c => !Text.isBlank c
  let behind := text.reverse.findIdx fun c => !Text.isBlank c
  let stop := if behind < text.length then text.length - behind else start
  slice text start (max start stop)

/-! ### Scanners -/

/-- Goes on through a text from a place, with some groups open and a part started. Behind a
backslash a character means nothing. -/
def splitFrom (text : List Char) (place depth start : Nat) (escaped : Bool)
    (parts : List (List Char)) : List Char → Except Stop (List (List Char))
  | [] =>
    if start < text.length ∨ !parts.isEmpty then do
      let last ← slice text start text.length
      return parts ++ [last]
    else return parts
  | c :: rest =>
    if escaped then splitFrom text (place + 1) depth start false parts rest
    else if c = '\\' then splitFrom text (place + 1) depth start true parts rest
    else if c = ',' ∧ depth = 0 then do
      let part ← slice text start place
      splitFrom text (place + 1) depth (place + 1) false (parts ++ [part]) rest
    else splitFrom text (place + 1) (inside depth c) start false parts rest

/-- The parts between commas outside brackets. -/
def split (text : List Char) : Except Stop (List (List Char)) :=
  splitFrom text 0 0 0 false [] text

/-- Goes on from a place up to the bracket that closes the last group that is open. -/
def closingFrom (place depth : Nat) (escaped : Bool) : List Char → Except Stop Nat
  | [] => .error (.error unbalanced)
  | c :: rest =>
    if escaped then closingFrom (place + 1) depth false rest
    else if c = '\\' then closingFrom (place + 1) depth true rest
    else if c = '[' then closingFrom (place + 1) (depth + 1) false rest
    else if c = ']' then do
      let depth ← decrement depth
      if depth = 0 then return place else closingFrom (place + 1) depth false rest
    else closingFrom (place + 1) depth false rest

/-- The place of the bracket that closes the group opened at a place. -/
def closing (text : List Char) (opening : Nat) : Except Stop Nat :=
  closingFrom opening 0 false (text.drop opening)

/-- What a scan of names has come to. -/
structure Scan where
  names : List (List Char)
  /-- The byte place of the last dot in the first name. -/
  dot : Option Nat
  /-- Where the names end. -/
  place : Nat
  deriving DecidableEq, Repr

/-- Goes on through the names of a text from a place, up to the first group or modifier. -/
def scanFrom (text : List Char) (names : List (List Char)) (dot : Option Nat) (place : Nat) :
    Except Stop Scan :=
  if _inside : place < text.length then do
    let c ← element text place
    if c = '\\' then
      let names :=
        match text[place + 1]? with
        | some escaped => names.modifyLast (· ++ [escaped])
        | none => names
      scanFrom text names dot (place + 2)
    else if c = '+' then scanFrom text (names ++ [[]]) dot (place + 1)
    else if c = '[' ∨ c = '*' ∨ c = '&' then .ok ⟨names, dot, place⟩
    else if c = '.' ∧ names.length = 1 then do
      let outermost ← element names 0
      scanFrom text (names.set 0 (outermost ++ [c])) (some (byteLength outermost)) (place + 1)
    else scanFrom text (names.modifyLast (· ++ [c])) dot (place + 1)
  else .ok ⟨names, dot, place⟩
termination_by text.length - place

/-- Parts the first name at the byte place of its last dot. -/
def partSpace (names : List (List Char)) : Option Nat → Except Stop (List Char × List (List Char))
  | none => .ok ([], names)
  | some dot => do
    let first ← element names 0
    let (space, _) ← cut dot first
    let (_, outermost) ← cut (dot + 1) first
    if outermost.isEmpty then
      .error (.error (.malformed "Type name ends with a namespace separator"))
    else return (space, names.set 0 outermost)

/-! ### What the steps come to -/

section Steps

variable {front part text rest : List Char} {c : Char}

@[simp]
theorem ok_bind {a : α} {next : α → Except Stop β} : (Except.ok a >>= next) = next a := rfl

theorem element_append {list : List α} {a : α} {rest : List α} :
    element (list ++ a :: rest) list.length = .ok a := by
  simp [element]

theorem slice_append (front text rest : List Char) :
    slice (front ++ (text ++ rest)) front.length (front.length + text.length) = .ok text := by
  have fits : front.length + text.length ≤ (front ++ (text ++ rest)).length := by
    simp only [List.length_append]
    omega
  rw [slice, if_pos ⟨Nat.le_add_right .., fits⟩, List.drop_take, List.drop_left,
    Nat.add_sub_cancel_left, List.take_left]

theorem byteLength_cons : byteLength (c :: text) = c.utf8Size + byteLength text := by
  rw [byteLength, Text.Utf8.encode, List.flatMap_cons, List.length_append,
    String.length_utf8EncodeChar]
  rfl

theorem byteLength_append : byteLength (front ++ text) = byteLength front + byteLength text := by
  rw [byteLength, Text.Utf8.encode, List.flatMap_append, List.length_append]
  rfl

/-- A byte place behind a text is one in what follows it. -/
theorem cut_add (front rest : List Char) (place : Nat) :
    cut (byteLength front + place) (front ++ rest) =
      (cut place rest).map fun (text, behind) => (front ++ text, behind) := by
  induction front with
  | nil =>
    rw [show byteLength [] = 0 from rfl, Nat.zero_add, List.nil_append]
    cases cut place rest <;> rfl
  | cons c front ih =>
    have positive : 0 < c.utf8Size := c.utf8Size_pos
    obtain ⟨more, size⟩ : ∃ more, byteLength (c :: front) + place = more + 1 :=
      ⟨byteLength (c :: front) + place - 1, by rw [byteLength_cons]; omega⟩
    rw [byteLength_cons] at size
    have left : more + 1 - c.utf8Size = byteLength front + place := by omega
    rw [byteLength_cons, size, List.cons_append, cut, if_neg (by omega), left, ih]
    cases cut place rest <;> rfl

/-- Behind a text there is a boundary between characters. -/
theorem cut_append (front rest : List Char) :
    cut (byteLength front) (front ++ rest) = .ok (front, rest) := by
  rw [← Nat.add_zero (byteLength front), cut_add, cut]
  exact congrArg (fun text => Except.ok (text, rest)) (List.append_nil front)

theorem trim_eq (text : List Char) : trim text = .ok (Text.trim text) := by
  have start : Text.trimStart text = text.drop (text.findIdx fun c => !Text.isBlank c) := by
    rw [Text.trimStart, List.dropWhile_eq_drop_findIdx_not]
  have stop (l : List Char) : Text.trimEnd l =
      l.take (l.length - l.reverse.findIdx fun c => !Text.isBlank c) := by
    rw [Text.trimEnd, List.dropWhile_eq_drop_findIdx_not, List.drop_reverse, List.reverse_reverse]
  have first : text.findIdx (fun c => !Text.isBlank c) ≤ text.length := List.findIdx_le_length
  rw [Text.trim, stop, start, List.reverse_drop, List.findIdx_take, List.length_drop, trim, slice,
    if_pos ⟨by omega, by split <;> omega⟩, List.drop_take]
  congr 2
  split <;> omega

/-! ### What the scanners come to -/

/-- What is left of a part at the end of the text. -/
theorem slice_last (whole : text = front ++ part) :
    slice text front.length text.length = .ok part := by
  have := slice_append front part []
  rwa [List.append_nil, ← whole, ← List.length_append, ← whole] at this

theorem splitFrom_nil (whole : text = front ++ part) {parts : List (List Char)}
    (present : parts = [] → front.length < text.length) (place depth : Nat) (escaped : Bool) :
    splitFrom text place depth front.length escaped parts [] = .ok (parts ++ [part]) := by
  have ends : front.length < text.length ∨ (!parts.isEmpty) = true := by
    cases parts with
    | nil => exact .inl (present rfl)
    | cons => exact .inr rfl
  rw [splitFrom, if_pos ends, slice_last whole]
  rfl

/-- Behind the parts found before come those that are found piece by piece. -/
theorem splitFrom_eq (front part : List Char) (whole : text = front ++ (part ++ rest)) (depth : Nat)
    (parts : List (List Char)) (present : parts = [] → front.length < text.length) :
    splitFrom text (front.length + part.length) depth front.length false parts rest =
      .ok (parts ++ (part ++ (splitFirst depth rest).1) :: (splitFirst depth rest).2) := by
  induction rest using escapeInduction generalizing front part parts depth with
  | nil => exact splitFrom_nil whole present _ _ false
  | dangling => exact splitFrom_nil whole present (front.length + part.length + 1) depth true
  | escaped c rest ih =>
    have next := ih front (part ++ ['\\', c]) (by simpa using whole) depth parts present
    simpa [splitFrom, splitFirst, Nat.add_assoc] using next
  | plain c rest plain ih =>
    rw [splitFrom, if_neg (by decide), if_neg plain, splitFirst_cons plain]
    split_ifs with comma
    · have next := ih (front ++ part ++ [c]) [] (by simpa using whole) depth (parts ++ [part])
        (by simp)
      rw [whole, slice_append, ← whole]
      simpa [Nat.add_assoc] using next
    · have next :=
        ih front (part ++ [c]) (by simpa using whole) (inside depth c) parts present
      simpa [Nat.add_assoc] using next

theorem split_eq (text : List Char) : split text = .ok (TypeName.split text) := by
  cases text with
  | nil => rfl
  | cons c rest =>
    have whole : c :: rest = [] ++ ([] ++ c :: rest) := rfl
    have := splitFrom_eq [] [] whole 0 [] (by simp)
    rw [split, TypeName.split]
    simpa using this

/-- From inside a group, the closing bracket is where the group ends. -/
theorem closingFrom_eq (place depth : Nat) (rest : List Char) :
    closingFrom place (depth + 1) false rest =
      match closeGroup? depth rest with
      | some (inner, _) => .ok (place + inner.length)
      | none => .error (.error unbalanced) := by
  induction rest using escapeInduction generalizing place depth with
  | nil => rfl
  | dangling => rfl
  | escaped c rest ih =>
    change closingFrom (place + 2) (depth + 1) false rest = _
    rw [ih, closeGroup?]
    cases closeGroup? depth rest with
    | none => rfl
    | some group => exact congrArg Except.ok (by simp only [List.length_cons]; omega)
  | plain c rest plain ih =>
    -- Where a group inside is closed or the character is none, the depth is that of `inside`.
    have next {deeper : Nat} (same : deeper = inside depth c) (open_ : ¬ (c = ']' ∧ depth = 0)) :
        closingFrom (place + 1) (deeper + 1) false rest =
          match closeGroup? depth (c :: rest) with
          | some (inner, _) => .ok (place + inner.length)
          | none => .error (.error unbalanced) := by
      rw [ih, closeGroup?_cons plain, if_neg open_, same]
      cases closeGroup? (inside depth c) rest with
      | none => rfl
      | some group => exact congrArg Except.ok (by simp only [List.length_cons]; omega)
    rw [closingFrom, if_neg (by decide), if_neg plain]
    split_ifs with opens closes
    · exact next (by rw [inside, if_pos opens]) (by simp [opens])
    · cases depth with
      | zero =>
        rw [closeGroup?_cons plain, if_pos ⟨closes, rfl⟩]
        rfl
      | succ depth => exact next (by simp [inside, closes]) (by simp)
    · exact next (by rw [inside, if_neg opens, if_neg closes]) (by simp [closes])

/-- The group that is opened at a place. -/
theorem closing_append (front rest : List Char) :
    closing (front ++ '[' :: rest) front.length =
      match closeGroup? 0 rest with
      | some (inner, _) => .ok (front.length + 1 + inner.length)
      | none => .error (.error unbalanced) := by
  rw [closing, List.drop_left]
  exact closingFrom_eq (front.length + 1) 0 rest

/-- Where no group is opened, none is left to be closed. -/
example : closing "a]".toList 0 = .error (.fault .belowZero) := by rfl

end Steps

/-! ### Names -/

section Names

variable {front text rest : List Char} {name : List (Char × Bool)}

/-- A name has no free dot, or it is split at the last one. -/
theorem splitSpace_cases (name : List (Char × Bool)) :
    ('.', false) ∉ name ∧ splitSpace name = (none, name.map Prod.fst) ∨
      ∃ space marks, name = space ++ ('.', false) :: marks ∧ ('.', false) ∉ marks ∧
        splitSpace name = (some (space.map Prod.fst), marks.map Prod.fst) := by
  by_cases dot : ('.', false) ∈ name
  · obtain ⟨back, front, same, noDot⟩ := List.eq_append_cons_of_mem (List.mem_reverse.mpr dot)
    have parted : name = front.reverse ++ ('.', false) :: back.reverse := by
      rw [← List.reverse_reverse name, same]
      simp
    have noDot : ('.', false) ∉ back.reverse := by simpa using noDot
    exact .inr ⟨_, _, parted, noDot, parted ▸ splitSpace_append noDot⟩
  · exact .inl ⟨dot, splitSpace_of_notMem dot⟩

/-- The namespace grows with the name. Only a free dot makes one where there was none. -/
theorem fst_splitSpace_cons (mark : Char × Bool) (name : List (Char × Bool)) :
    (splitSpace (mark :: name)).1 =
      match (splitSpace name).1 with
      | some space => some (mark.1 :: space)
      | none => if mark = ('.', false) then some [] else none := by
  rcases splitSpace_cases name with ⟨noDot, parted⟩ | ⟨space, marks, rfl, noDot, parted⟩
  · rw [parted]
    split_ifs with isDot
    · rw [isDot, ← List.nil_append (_ :: name), splitSpace_append noDot]
      rfl
    · rw [splitSpace_of_notMem (by simpa [eq_comm, isDot] using noDot)]
  · rw [parted, ← List.cons_append, splitSpace_append noDot]
    rfl

theorem exists_scanNames (text : List Char) :
    ∃ first more, (scanNames text).1 = first :: more := by
  have extended (mark : Char × Bool) {names : List (List (Char × Bool))}
      (some_ : ∃ first more, names = first :: more) :
      ∃ first more, extendFirst mark names = first :: more := by
    obtain ⟨first, more, rfl⟩ := some_
    exact ⟨_, _, rfl⟩
  induction text using escapeInduction with
  | nil => exact ⟨[], [], rfl⟩
  | dangling => exact ⟨[], [], rfl⟩
  | escaped c rest ih => exact extended (c, true) ih
  | plain c rest plain ih =>
    rw [scanNames_cons plain]
    split_ifs
    · exact ⟨[], _, rfl⟩
    · exact ⟨[], [], rfl⟩
    · exact extended (c, false) ih

/-- Names behind a start of the first one. -/
def joined (start : List Char) (names : List (List (Char × Bool))) : List (List Char) :=
  (start ++ (names.headD []).map Prod.fst) :: names.tail.map (·.map Prod.fst)

/-- The byte place of the last free dot in the first name, which has a start without one, or the
place that is known for the start. -/
def lastDot (start : List Char) (dot : Option Nat) (names : List (List (Char × Bool))) :
    Option Nat :=
  match (splitSpace (names.headD [])).1 with
  | some space => some (byteLength (start ++ space))
  | none => dot

variable {names : List (List (Char × Bool))} {start : List Char} {dot : Option Nat} {c : Char}

theorem joined_extendFirst {escaped : Bool} :
    joined start (extendFirst (c, escaped) names) = joined (start ++ [c]) names := by
  cases names <;> simp [joined, extendFirst]

theorem lastDot_extendFirst {mark : Char × Bool} (other : mark ≠ ('.', false)) :
    lastDot start dot (extendFirst mark names) = lastDot (start ++ [mark.1]) dot names := by
  have first : (extendFirst mark names).headD [] = mark :: names.headD [] := by
    cases names <;> rfl
  rw [lastDot, lastDot, first, fst_splitSpace_cons]
  cases (splitSpace (names.headD [])).1 with
  | none => simp [other]
  | some space => simp

theorem lastDot_extendFirst_dot :
    lastDot start dot (extendFirst ('.', false) names) =
      lastDot (start ++ ['.']) (some (byteLength start)) names := by
  have first : (extendFirst ('.', false) names).headD [] = ('.', false) :: names.headD [] := by
    cases names <;> rfl
  rw [lastDot, lastDot, first, fst_splitSpace_cons]
  cases (splitSpace (names.headD [])).1 with
  | none => simp
  | some space => simp

/-- A turn of the scan, by the character that it is at. -/
theorem scanFrom_cons (whole : text = front ++ c :: rest) (names : List (List Char))
    (dot : Option Nat) :
    scanFrom text names dot front.length =
      if c = '\\' then
        scanFrom text
          (match rest.head? with
          | some escaped => names.modifyLast (· ++ [escaped])
          | none => names)
          dot (front.length + 2)
      else if c = '+' then scanFrom text (names ++ [[]]) dot (front.length + 1)
      else if c = '[' ∨ c = '*' ∨ c = '&' then .ok ⟨names, dot, front.length⟩
      else if c = '.' ∧ names.length = 1 then do
        let outermost ← element names 0
        scanFrom text (names.set 0 (outermost ++ [c])) (some (byteLength outermost))
          (front.length + 1)
      else scanFrom text (names.modifyLast (· ++ [c])) dot (front.length + 1) := by
  have next : text[front.length + 1]? = rest.head? := by
    rw [whole, List.getElem?_append_right (by omega), Nat.add_sub_cancel_left,
      List.getElem?_cons_succ, List.head?_eq_getElem?]
  have here : element text front.length = .ok c := by rw [whole, element_append]
  rw [scanFrom, dif_pos (by simp [whole]), here, ok_bind, next]

/-- Behind the names found before come those that are found piece by piece. -/
theorem scanFrom_eq (front : List Char) (whole : text = front ++ rest) (known : List (List Char))
    (start : List Char) (dot : Option Nat) :
    ∃ place, text.drop place = (scanNames rest).2 ∧
      scanFrom text (known ++ [start]) dot front.length =
        .ok ⟨known ++ joined start (scanNames rest).1,
          if known = [] then lastDot start dot (scanNames rest).1 else dot, place⟩ := by
  induction rest using escapeInduction generalizing front known start dot with
  | nil =>
    refine ⟨front.length, by simp [whole, scanNames], ?_⟩
    rw [scanFrom, dif_neg (by simp [whole])]
    simp [scanNames, joined, lastDot, splitSpace]
  | dangling =>
    refine ⟨front.length + 2, by simp [whole, scanNames], ?_⟩
    rw [scanFrom_cons whole, if_pos rfl, List.head?_nil, scanFrom, dif_neg (by simp [whole])]
    simp [scanNames, joined, lastDot, splitSpace]
  | escaped c rest ih =>
    obtain ⟨place, behind, scanned⟩ :=
      ih (front ++ ['\\', c]) (by simp [whole]) known (start ++ [c]) dot
    refine ⟨place, behind, ?_⟩
    rw [scanFrom_cons whole, if_pos rfl, List.head?_cons]
    simp only [List.modifyLast_concat]
    simpa [scanNames, joined_extendFirst, lastDot_extendFirst] using scanned
  | plain c rest plain ih =>
    rw [scanFrom_cons whole, if_neg plain, scanNames_cons plain]
    have next := ih (front ++ [c]) (by simp [whole])
    rw [List.length_append, List.length_singleton] at next
    by_cases joins : c = '+'
    · obtain ⟨place, behind, scanned⟩ := next (known ++ [start]) [] dot
      obtain ⟨first, more, names⟩ := exists_scanNames rest
      rw [if_pos joins, if_pos joins]
      refine ⟨place, behind, scanned.trans ?_⟩
      simp [names, joined, lastDot, splitSpace]
    rw [if_neg joins, if_neg joins]
    by_cases stops : c = '[' ∨ c = '*' ∨ c = '&'
    · rw [if_pos stops, if_pos stops]
      refine ⟨front.length, by simp [whole], ?_⟩
      simp [joined, lastDot, splitSpace]
    rw [if_neg stops, if_neg stops]
    by_cases dotted : c = '.' ∧ known = []
    · obtain ⟨rfl, rfl⟩ := dotted
      obtain ⟨place, behind, scanned⟩ := next [] (start ++ ['.']) (some (byteLength start))
      refine ⟨place, behind, ?_⟩
      rw [if_pos (by simp), if_pos rfl, joined_extendFirst, lastDot_extendFirst_dot]
      exact scanned
    · obtain ⟨place, behind, scanned⟩ := next known (start ++ [c]) dot
      have single : ¬ (c = '.' ∧ (known ++ [start]).length = 1) := by simpa using dotted
      refine ⟨place, behind, ?_⟩
      rw [if_neg single, List.modifyLast_concat, scanned, joined_extendFirst]
      split_ifs with first
      · rw [lastDot_extendFirst (by simpa [first] using dotted)]
      · rfl

/-- The scan of a text finds its names, the byte place of the last free dot in the first one, and
where the names end. -/
theorem exists_scanFrom (text : List Char) :
    ∃ first more place, (scanNames text).1 = first :: more ∧
      text.drop place = (scanNames text).2 ∧
      scanFrom text [[]] none 0 =
        .ok ⟨(first :: more).map (·.map Prod.fst), (splitSpace first).1.map byteLength, place⟩ := by
  obtain ⟨first, more, names⟩ := exists_scanNames text
  obtain ⟨place, behind, scanned⟩ := scanFrom_eq [] (List.nil_append text).symm [] [] none
  refine ⟨first, more, place, names, behind, scanned.trans ?_⟩
  have dot : lastDot [] none (first :: more) = (splitSpace first).1.map byteLength := by
    rw [lastDot, List.headD_cons]
    cases (splitSpace first).1 <;> rfl
  rw [names, if_pos rfl, dot]
  rfl

/-- The first name is parted where its last free dot is. -/
theorem partSpace_eq (present : name ≠ []) (more : List (List Char)) :
    partSpace (name.map Prod.fst :: more) ((splitSpace name).1.map byteLength) =
      if (splitSpace name).2.isEmpty then
        .error (.error (.malformed "Type name ends with a namespace separator"))
      else .ok ((splitSpace name).1.getD [], (splitSpace name).2 :: more) := by
  rcases splitSpace_cases name with ⟨_, parted⟩ | ⟨space, marks, rfl, _, parted⟩
  · rw [parted, if_neg (by simpa using present)]
    rfl
  · have first : (space ++ ('.', false) :: marks).map Prod.fst =
        space.map Prod.fst ++ '.' :: marks.map Prod.fst := by simp
    have behind :
        byteLength (space.map Prod.fst ++ ['.']) = byteLength (space.map Prod.fst) + 1 := by
      rw [byteLength_append]
      rfl
    have dotted := cut_append (space.map Prod.fst ++ ['.']) (marks.map Prod.fst)
    rw [List.append_assoc, List.singleton_append, behind] at dotted
    rw [parted, first, Option.map_some, partSpace]
    simp only [element, List.getElem?_cons_zero, ok_bind, cut_append, dotted]
    rfl

end Names

end CilRecovery.TypeName.Checked
