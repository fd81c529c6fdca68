import Mathlib.Data.List.Induction
import Mathlib.Data.List.TakeWhile
import CilRecovery.Proofs.Assemblies
import CilRecovery.Recovery.Password

/-!
Passwords as they are written. An entry is read back from each way of writing it, whatever its
password holds, and a guarded range gets the password of the last entry that names it, or else of
the last entry for its whole method.
-/
namespace CilRecovery

namespace Text

variable {base n d : Nat} {c : Char} {text : List Char}

/-- A digit with its value, in either case. -/
def IsDigit (base : Nat) (c : Char) (d : Nat) : Prop :=
  d < base ∧ (c = d.digitChar ∨ c = d.digitChar.toUpper)

/-- The digits of a number, with any number of zeros in front. -/
inductive IsNumeral (base : Nat) : Nat → List Char → Prop where
  | digit {c : Char} {d : Nat} (digit : IsDigit base c d) : IsNumeral base d [c]
  | behind {n d : Nat} {text : List Char} {c : Char} (numeral : IsNumeral base n text)
    (digit : IsDigit base c d) : IsNumeral base (n * base + d) (text ++ [c])

/-- The characters that digits are written with, in both cases. -/
def bothCases : List Char := digits ++ "ABCDEF".toList

theorem isDigit_digitChar (small : d < base) : IsDigit base d.digitChar d := ⟨small, .inl rfl⟩

theorem digitValue?_of_isDigit (few : base ≤ 16) (digit : IsDigit base c d) :
    digitValue? c = some d ∧ c ∈ bothCases := by
  obtain ⟨small, spelled⟩ := digit
  have each : ∀ d < 16, (digitValue? d.digitChar = some d ∧ d.digitChar ∈ bothCases) ∧
      digitValue? d.digitChar.toUpper = some d ∧ d.digitChar.toUpper ∈ bothCases := by
    decide
  rcases spelled with rfl | rfl
  · exact (each d (Nat.lt_of_lt_of_le small few)).1
  · exact (each d (Nat.lt_of_lt_of_le small few)).2

namespace IsNumeral

theorem ne_nil (numeral : IsNumeral base n text) : text ≠ [] := by
  cases numeral <;> simp

theorem digitsValue? (numeral : IsNumeral base n text) (few : base ≤ 16) :
    Text.digitsValue? base 0 text = some n := by
  induction numeral with
  | digit digit => simp [Text.digitsValue?, (digitValue?_of_isDigit few digit).1, digit.1]
  | behind numeral digit ih =>
    rw [digitsValue?_append, ih]
    simp [Text.digitsValue?, (digitValue?_of_isDigit few digit).1, digit.1]

theorem mem_bothCases (numeral : IsNumeral base n text) (few : base ≤ 16) :
    ∀ c ∈ text, c ∈ bothCases := by
  induction numeral with
  | digit digit => exact List.forall_mem_singleton.mpr (digitValue?_of_isDigit few digit).2
  | behind numeral digit ih =>
    refine List.forall_mem_append.mpr ⟨ih, ?_⟩
    exact List.forall_mem_singleton.mpr (digitValue?_of_isDigit few digit).2

theorem notMem (numeral : IsNumeral base n text) (few : base ≤ 16) (other : c ∉ bothCases) :
    c ∉ text :=
  fun member => other (numeral.mem_bothCases few c member)

theorem visible (numeral : IsNumeral base n text) (few : base ≤ 16) :
    ∀ c ∈ text, isBlank c = false := fun c member =>
  have each : ∀ c ∈ bothCases, isBlank c = false := forall_of_all (by decide)
  each c (numeral.mem_bothCases few c member)

theorem parseNat? {limit : Nat} (numeral : IsNumeral base n text) (few : base ≤ 16)
    (small : n < limit) : Text.parseNat? base limit text = some n :=
  parseNat?_of_digits numeral.ne_nil (numeral.notMem few (by decide)) (numeral.digitsValue? few)
    small

/-! ### Numerals of every number -/

theorem toDigits (many : 1 < base) (n : Nat) : IsNumeral base n (Nat.toDigits base n) := by
  induction n using Nat.strongRecOn with
  | ind n ih =>
    rw [Nat.toDigits_eq_if many]
    split_ifs with small
    · exact .digit (isDigit_digitChar small)
    · have last : n % base < base := Nat.mod_lt _ (by omega)
      have fewer : n / base < n := Nat.div_lt_self (by omega) many
      have written := (ih _ fewer).behind (isDigit_digitChar last)
      rwa [Nat.div_add_mod'] at written

theorem zero (numeral : IsNumeral base n text) : IsNumeral base n ('0' :: text) := by
  induction numeral with
  | @digit c d digit =>
    have front : IsNumeral base 0 ['0'] := .digit (isDigit_digitChar (Nat.zero_lt_of_lt digit.1))
    have written := front.behind digit
    rwa [Nat.zero_mul, Nat.zero_add] at written
  | behind numeral digit ih => exact ih.behind digit

theorem replicate (numeral : IsNumeral base n text) (count : Nat) :
    IsNumeral base n (List.replicate count '0' ++ text) := by
  induction count with
  | zero => exact numeral
  | succ count ih =>
    rw [List.replicate_succ]
    exact ih.zero

theorem hex (width n : Nat) : IsNumeral 16 n (Text.hex width n).toList := by
  rw [Text.hex, String.toList_ofList]
  exact (toDigits (by decide) n).replicate _

end IsNumeral

theorem length_hex_eight (fits : n < 0x100000000) : (hex 8 n).toList.length = 8 := by
  have short : (Nat.toDigits 16 n).length ≤ 8 :=
    (Nat.length_toDigits_le_iff (by decide) (by decide)).mpr fits
  rw [hex, String.toList_ofList, List.length_append, List.length_replicate]
  omega

end Text

/-! ### Tokens -/

/-- The ways to write a method token: hexadecimal behind a mark or as eight bare digits, and decimal
with any other number of digits. -/
inductive Token.Written (token : Token) : List Char → Prop where
  | marked {mark : Char} {digits : List Char} (hexadecimal : mark = 'x' ∨ mark = 'X')
    (numeral : Text.IsNumeral 16 token.value.toNat digits) : Written token ('0' :: mark :: digits)
  | bare {digits : List Char} (numeral : Text.IsNumeral 16 token.value.toNat digits)
    (eight : digits.length = 8) : Written token digits
  | decimal {digits : List Char} (numeral : Text.IsNumeral 10 token.value.toNat digits)
    (notEight : digits.length ≠ 8) : Written token digits

namespace Token

variable {token : Token} {text : List Char}

theorem parse_of_ofChars? (visible : ∀ c ∈ text, Text.isBlank c = false)
    (read : ofChars? text = some token) : parse (String.ofList text) = .ok token := by
  rw [parse, String.toList_ofList, Text.trim_of_visible visible, read]

theorem ofChars?_decimal (numeral : Text.IsNumeral 10 token.value.toNat text) :
    ofChars? text = some token := by
  have small : token.value.toNat < 0x100000000 := token.value.toNat_lt
  have number : Text.parseNat? 10 0x100000000 text = some token.value.toNat :=
    numeral.parseNat? (by decide) small
  unfold ofChars?
  dsimp only
  split
  · exact absurd (by simp) (numeral.notMem (c := 'x') (by decide) (by decide))
  · exact absurd (by simp) (numeral.notMem (c := 'X') (by decide) (by decide))
  · rw [number, Option.map_some, UInt32.ofNat_toNat]

theorem ofChars?_marked {mark : Char} {digits : List Char} (hexadecimal : mark = 'x' ∨ mark = 'X')
    (numeral : Text.IsNumeral 16 token.value.toNat digits) :
    ofChars? ('0' :: mark :: digits) = some token := by
  have small : token.value.toNat < 0x100000000 := token.value.toNat_lt
  have number : Text.parseNat? 16 0x100000000 digits = some token.value.toNat :=
    numeral.parseNat? (by decide) small
  rcases hexadecimal with rfl | rfl <;> simp [ofChars?, number]

namespace Written

/-- No way of writing a token has a blank in it or one of the characters that end a token. -/
theorem solid (written : token.Written text) :
    ∀ c ∈ text, Text.isBlank c = false ∧ c ≠ ':' ∧ c ≠ '#' := by
  have digit : ∀ c ∈ 'x' :: 'X' :: Text.bothCases,
      Text.isBlank c = false ∧ c ≠ ':' ∧ c ≠ '#' := Text.forall_of_all (by decide)
  have each {base n : Nat} {digits : List Char} (few : base ≤ 16)
      (numeral : Text.IsNumeral base n digits) :
      ∀ c ∈ digits, Text.isBlank c = false ∧ c ≠ ':' ∧ c ≠ '#' := fun c member =>
    digit c (List.mem_cons_of_mem _ (List.mem_cons_of_mem _ (numeral.mem_bothCases few c member)))
  cases written with
  | marked hexadecimal numeral =>
    refine List.forall_mem_cons.mpr ⟨digit _ (by decide), List.forall_mem_cons.mpr ⟨?_, ?_⟩⟩
    · rcases hexadecimal with rfl | rfl <;> exact digit _ (by decide)
    · exact each (by decide) numeral
  | bare numeral => exact each (by decide) numeral
  | decimal numeral => exact each (by decide) numeral

end Written

end Token

namespace PasswordEntry

variable {token : Token} {text : List Char} {mark : Char} {before after : List Char}

theorem bne_of_notMem (absent : mark ∉ text) : ∀ c ∈ text, (c != mark) = true := fun c member => by
  simpa using ne_of_mem_of_not_mem member absent

theorem splitAtFirst?_append (absent : mark ∉ before) :
    splitAtFirst? mark (before ++ mark :: after) = some (before, after) := by
  have others := bne_of_notMem absent
  rw [splitAtFirst?, List.dropWhile_append_of_pos others, List.takeWhile_append_of_pos others]
  simp

theorem splitAtFirst?_of_notMem (absent : mark ∉ text) : splitAtFirst? mark text = none := by
  have all : text.dropWhile (· != mark) = [] :=
    List.dropWhile_eq_nil_iff.mpr (bne_of_notMem absent)
  rw [splitAtFirst?, all]

/-- A mark is no hexadecimal digit, so eight characters with one are not taken for bare digits. -/
theorem parseToken_of_written (written : token.Written text) : parseToken text = .ok token := by
  have visible : ∀ c ∈ text, Text.isBlank c = false := fun c member => (written.solid c member).1
  rw [parseToken, Text.trim_of_visible visible]
  cases written with
  | @marked mark digits hexadecimal numeral =>
    have noNumber : Text.digitsValue? 16 0 ('0' :: mark :: digits) = none := by
      rcases hexadecimal with rfl | rfl <;> rfl
    rw [noNumber]
    cases ('0' :: mark :: digits).length == 8 <;>
      exact Token.parse_of_ofChars? visible (Token.ofChars?_marked hexadecimal numeral)
  | bare numeral eight =>
    rw [eight, numeral.digitsValue? (by decide)]
    simp
  | decimal numeral notEight =>
    have other : (text.length == 8) = false := by simpa using notEight
    rw [other]
    exact Token.parse_of_ofChars? visible (Token.ofChars?_decimal numeral)

/-- How an ordinal is written behind a token: not at all, or in decimal behind its mark. -/
inductive OrdinalWritten : Option Nat → List Char → Prop where
  | absent : OrdinalWritten none []
  | present {n : Nat} {digits : List Char} (numeral : Text.IsNumeral 10 n digits)
    (small : n < 0x100000000) : OrdinalWritten (some n) ('#' :: digits)

variable {ordinal : Option Nat} {key : List Char}

theorem parseOrdinal_of_numeral {n : Nat} (numeral : Text.IsNumeral 10 n text)
    (small : n < 0x100000000) : parseOrdinal text = .ok n := by
  rw [parseOrdinal, Text.trim_of_visible (numeral.visible (by decide)),
    numeral.parseNat? (by decide) small]

theorem parseKey_of_written (written : token.Written text) (numbered : OrdinalWritten ordinal key) :
    parseKey (text ++ key) = .ok (token, ordinal) := by
  have noMark : '#' ∉ text := fun member => (written.solid _ member).2.2 rfl
  cases numbered with
  | absent =>
    rw [List.append_nil, parseKey, splitAtFirst?_of_notMem noMark]
    simp only [parseToken_of_written written]
    rfl
  | present numeral small =>
    rw [parseKey, splitAtFirst?_append noMark]
    simp only [parseOrdinal_of_numeral numeral small, parseToken_of_written written]
    rfl

theorem noColon_of_written (written : token.Written text) (numbered : OrdinalWritten ordinal key) :
    ':' ∉ text ++ key := by
  rw [List.mem_append, not_or]
  refine ⟨fun member => (written.solid _ member).2.1 rfl, ?_⟩
  cases numbered with
  | absent => exact List.not_mem_nil
  | present numeral _ =>
    rw [List.mem_cons, not_or]
    exact ⟨by decide, numeral.notMem (by decide) (by decide)⟩

/-- The ways to write an entry: its token, its ordinal if it has one, and behind a colon its
password, which is not empty and otherwise free. -/
def Written (entry : PasswordEntry) (text : String) : Prop :=
  entry.password ≠ "" ∧ ∃ token ordinal, entry.token.Written token ∧
    OrdinalWritten entry.ordinal ordinal ∧
    text.toList = token ++ ordinal ++ ':' :: entry.password.toList

theorem parse_of_written {entry : PasswordEntry} {text : String} (written : entry.Written text) :
    parse text = .ok entry := by
  obtain ⟨some, token, ordinal, tokenText, ordinalText, is⟩ := written
  rw [parse, is, splitAtFirst?_append (noColon_of_written tokenText ordinalText)]
  cases password : entry.password.toList with
  | nil => exact absurd (String.toList_eq_nil_iff.mp password) some
  | cons c rest =>
    simp only [parseKey_of_written tokenText ordinalText]
    rw [← password, String.ofList_toList]
    rfl

/-- The usual way to write an ordinal. -/
def ordinalText : Option Nat → String
  | none => ""
  | some n => "#" ++ toString n

theorem ordinalWritten_ordinalText (small : ∀ n ∈ ordinal, n < 0x100000000) :
    OrdinalWritten ordinal (ordinalText ordinal).toList := by
  cases ordinal with
  | none => exact .absent
  | some n =>
    rw [ordinalText, String.toList_append]
    have numeral : Text.IsNumeral 10 n (toString n).toList := by
      rw [Nat.toString_eq_repr, Nat.toList_repr]
      exact .toDigits (by decide) n
    exact .present numeral (small n rfl)

/-- An entry can be written with its token behind a mark and with eight bare digits. -/
theorem written_of_ordinal_lt {entry : PasswordEntry} (some : entry.password ≠ "")
    (small : ∀ n ∈ entry.ordinal, n < 0x100000000) {token : String}
    (usual : token = entry.token.render ∨ token = Text.hex 8 entry.token.value.toNat) :
    entry.Written (token ++ ordinalText entry.ordinal ++ ":" ++ entry.password) := by
  have numeral :
      Text.IsNumeral 16 entry.token.value.toNat (Text.hex 8 entry.token.value.toNat).toList :=
    .hex 8 _
  have eight : (Text.hex 8 entry.token.value.toNat).toList.length = 8 :=
    Text.length_hex_eight entry.token.value.toNat_lt
  have tokenText : entry.token.Written token.toList := by
    rcases usual with rfl | rfl
    · rw [Token.render, String.toList_append]
      exact .marked (.inl rfl) numeral
    · exact .bare numeral eight
  refine ⟨some, _, _, tokenText, ordinalWritten_ordinalText small, ?_⟩
  simp

end PasswordEntry

/-! ### Stores -/

namespace PasswordStore

variable {entries : List PasswordEntry} {token : Token} {ordinal : Option Nat}

/-- The last entry of a list with a method and an ordinal. -/
def last? (entries : List PasswordEntry) (token : Token) (ordinal : Option Nat) :
    Option PasswordEntry :=
  (entries.filter fun entry => entry.token = token ∧ entry.ordinal = ordinal).getLast?

theorem last?_concat (entry : PasswordEntry) :
    last? (entries ++ [entry]) token ordinal =
      if (token, ordinal) = (entry.token, entry.ordinal) then some entry
      else last? entries token ordinal := by
  simp only [last?, List.filter_append, Prod.mk.injEq]
  split_ifs with same
  · simp [same]
  · have differs : ¬ (entry.token = token ∧ entry.ordinal = ordinal) := fun ⟨t, o⟩ =>
      same ⟨t.symm, o.symm⟩
    rw [List.filter_singleton]
    simp [differs]

theorem get?_entries_ofList (entries : List PasswordEntry) :
    (ofList entries).entries.get? (token, ordinal) =
      (last? entries token ordinal).map (·.password) := by
  induction entries using List.reverseRecOn with
  | nil => rfl
  | append_singleton front entry ih =>
    have added : ofList (front ++ [entry]) = (ofList front).insert entry := by
      rw [ofList, List.foldl_append]
      rfl
    rw [added, insert, Table.get?_insert, last?_concat]
    split_ifs
    · rfl
    · exact ih

/-- Every entry is read back from each way of writing it, every entry can be written in the two
usual ways, and a range is served by the last entry for it, or else by the last one for its whole
method. -/
theorem parse_written_and_get? :
    (∀ entry text, PasswordEntry.Written entry text → PasswordEntry.parse text = .ok entry) ∧
    (∀ entry : PasswordEntry, entry.password ≠ "" → (∀ n ∈ entry.ordinal, n < 0x100000000) →
      ∀ token, token = entry.token.render ∨ token = Text.hex 8 entry.token.value.toNat →
        entry.Written (token ++ PasswordEntry.ordinalText entry.ordinal ++ ":" ++ entry.password)) ∧
    (∀ entries token ordinal, (ofList entries).get? token ordinal =
      ((last? entries token (some ordinal)).or (last? entries token none)).map (·.password)) := by
  refine ⟨fun _ _ => PasswordEntry.parse_of_written, fun _ some small _ =>
    PasswordEntry.written_of_ordinal_lt some small, fun entries token ordinal => ?_⟩
  rw [get?, get?_entries_ofList, get?_entries_ofList, Option.map_or]

end PasswordStore

namespace OverriddenPassword

def method : Token := ⟨0x0600000A⟩

/-- Two entries for the whole method, two for its first range, and one for another method. -/
def entries : List PasswordEntry :=
  [⟨method, none, "old"⟩, ⟨method, some 0, "first"⟩, ⟨⟨0x06000001⟩, some 1, "other"⟩,
    ⟨method, some 0, " a:b #c "⟩, ⟨method, none, "new"⟩]

theorem parse_written_and_get?_entries :
    PasswordEntry.parse "0x0600000a#0: a:b #c " = .ok ⟨method, some 0, " a:b #c "⟩ ∧
      PasswordEntry.parse "0600000a: a:b #c " = .ok ⟨method, none, " a:b #c "⟩ ∧
      (PasswordStore.ofList entries).get? method 0 = some " a:b #c " ∧
      (PasswordStore.ofList entries).get? method 1 = some "new" ∧
      (PasswordStore.ofList entries).get? ⟨0x06000001⟩ 0 = none := by
  obtain ⟨parses, written, served⟩ := PasswordStore.parse_written_and_get?
  have marked := written ⟨method, some 0, " a:b #c "⟩ (by decide) (by decide) _ (.inl rfl)
  have bare := written ⟨method, none, " a:b #c "⟩ (by decide) (by decide) _ (.inr rfl)
  have markedText : method.render ++ PasswordEntry.ordinalText (some 0) ++ ":" ++ " a:b #c " =
      "0x0600000a#0: a:b #c " := by decide +kernel
  have bareText : Text.hex 8 method.value.toNat ++ PasswordEntry.ordinalText none ++ ":" ++
      " a:b #c " = "0600000a: a:b #c " := by decide +kernel
  rw [markedText] at marked
  rw [bareText] at bare
  rw [served, served, served]
  exact ⟨parses _ _ marked, parses _ _ bare, by decide +kernel⟩

end OverriddenPassword

end CilRecovery
