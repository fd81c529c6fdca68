import Mathlib.Data.List.TakeWhile
import CilRecovery.Recovery.PositionKey
import CilRecovery.Proofs.Assemblies
import CilRecovery.Proofs.Bytes

/-!
Base64 and the position keys written in it. Bytes are read back from their text, also where it was
broken into lines and put between blanks; which texts can be read is told by their characters alone.
-/
namespace CilRecovery

namespace Text

variable {left body right : List Char}

theorem trimStart_of_blank (blank : ∀ c ∈ left, isBlank c = true) : trimStart left = [] :=
  List.dropWhile_eq_nil_iff.mpr blank

theorem trimEnd_append_of_blank (blank : ∀ c ∈ right, isBlank c = true) :
    trimEnd (body ++ right) = trimEnd body := by
  unfold trimEnd
  rw [List.reverse_append, List.dropWhile_append_of_pos]
  simpa using blank

/-- Blanks around a text are trimmed with those that it starts and ends with. -/
theorem trim_between (before : ∀ c ∈ left, isBlank c = true)
    (behind : ∀ c ∈ right, isBlank c = true) : trim (left ++ body ++ right) = trim body := by
  have start : trimStart (left ++ body ++ right) =
      if (trimStart body).isEmpty then trimStart right else trimStart body ++ right := by
    rw [trimStart, List.append_assoc, List.dropWhile_append_of_pos before, List.dropWhile_append]
    rfl
  rw [trim, trim, start, trimStart_of_blank behind]
  split_ifs with empty
  · rw [List.isEmpty_iff.mp empty]
  · exact trimEnd_append_of_blank behind

/-- A text with line ends put in, each anywhere. -/
inductive Folded : List Char → List Char → Prop where
  | nil : Folded [] []
  | keep {text folded : List Char} (c : Char) (rest : Folded text folded) :
    Folded (c :: text) (c :: folded)
  | lineFeed {text folded : List Char} (rest : Folded text folded) : Folded text ('\n' :: folded)
  | carriageReturn {text folded : List Char} (rest : Folded text folded) :
    Folded text ('\r' :: folded)

namespace Folded

variable {text text' folded folded' : List Char}

theorem refl (text : List Char) : Folded text text := by
  induction text with
  | nil => exact .nil
  | cons c _ ih => exact .keep c ih

theorem append (first : Folded text folded) (second : Folded text' folded') :
    Folded (text ++ text') (folded ++ folded') := by
  induction first with
  | nil => exact second
  | keep c _ ih => exact .keep c ih
  | lineFeed _ ih => exact .lineFeed ih
  | carriageReturn _ ih => exact .carriageReturn ih

theorem reverse (folds : Folded text folded) : Folded text.reverse folded.reverse := by
  induction folds with
  | nil => exact .nil
  | keep c _ ih => simpa using ih.append (.keep c .nil)
  | lineFeed _ ih => simpa using ih.append (.lineFeed .nil)
  | carriageReturn _ ih => simpa using ih.append (.carriageReturn .nil)

/-- What is trimmed off a visible text are line ends. -/
theorem trimStart (folds : Folded text folded) (visible : ∀ c ∈ text, isBlank c = false) :
    Folded text (trimStart folded) := by
  induction folds with
  | nil => exact .nil
  | keep c rest _ =>
    rw [Text.trimStart, List.dropWhile_cons_of_neg (by simp [visible c])]
    exact .keep c rest
  | lineFeed _ ih => exact ih visible
  | carriageReturn _ ih => exact ih visible

theorem trim (folds : Folded text folded) (visible : ∀ c ∈ text, isBlank c = false) :
    Folded text (trim folded) := by
  have ends := ((folds.trimStart visible).reverse.trimStart (by simpa using visible)).reverse
  rwa [List.reverse_reverse] at ends

theorem filter (folds : Folded text folded) (solid : ∀ c ∈ text, c ≠ '\n' ∧ c ≠ '\r') :
    (folded.filter fun c => c != '\n' && c != '\r') = text := by
  induction folds with
  | nil => rfl
  | keep c _ ih =>
    obtain ⟨notFeed, notReturn⟩ := solid c (by simp)
    simp [notFeed, notReturn, ih fun d member => solid d (by simp [member])]
  | lineFeed _ ih => simpa using ih solid
  | carriageReturn _ ih => simpa using ih solid

end Folded

end Text

namespace Base64

/-! ### Characters -/

/-- The characters that stand for 0 to 63, in order. -/
def alphabet : List Char :=
  "ABCDEFGHIJKLMNOPQRSTUVWXYZabcdefghijklmnopqrstuvwxyz0123456789+/".toList

theorem sextet?_sextetChar {n : Nat} (small : n < 64) : sextet? (sextetChar n) = some n := by
  revert n
  decide

theorem sextetChar_mem_alphabet {n : Nat} (small : n < 64) : sextetChar n ∈ alphabet := by
  revert n
  decide

/-- A character that has a value is the one for this value. -/
theorem of_sextet? {c : Char} {n : Nat} (valued : sextet? c = some n) :
    n < 64 ∧ sextetChar n = c := by
  have back {first : Char} (starts : first ≤ c) :
      Char.ofNat (first.toNat + (c.toNat - first.toNat)) = c := by
    have lowest : first.toNat ≤ c.toNat := starts
    rw [Nat.add_sub_cancel' lowest, Char.ofNat_toNat]
  have upper : 'A'.toNat = 65 ∧ 'Z'.toNat = 90 := by decide
  have lower : 'a'.toNat = 97 ∧ 'z'.toNat = 122 := by decide
  have digit : '0'.toNat = 48 ∧ '9'.toNat = 57 := by decide
  unfold sextet? at valued
  split_ifs at valued with isUpper isLower isDigit isPlus isSlash
  · cases valued
    have ends : c.toNat ≤ 'Z'.toNat := isUpper.2
    refine ⟨by omega, ?_⟩
    rw [sextetChar, if_pos (by omega), back isUpper.1]
  · cases valued
    have ends : c.toNat ≤ 'z'.toNat := isLower.2
    refine ⟨by omega, ?_⟩
    rw [sextetChar, if_neg (by omega), if_pos (by omega), Nat.add_sub_cancel, back isLower.1]
  · cases valued
    have ends : c.toNat ≤ '9'.toNat := isDigit.2
    refine ⟨by omega, ?_⟩
    rw [sextetChar, if_neg (by omega), if_neg (by omega), if_pos (by omega), Nat.add_sub_cancel,
      back isDigit.1]
  · cases valued
    exact ⟨by decide, isPlus.symm⟩
  · cases valued
    exact ⟨by decide, isSlash.symm⟩

/-- Just the characters of the alphabet have a value. -/
theorem isSome_sextet?_iff {c : Char} : (sextet? c).isSome ↔ c ∈ alphabet := by
  constructor
  · intro valued
    obtain ⟨n, is⟩ := Option.isSome_iff_exists.mp valued
    obtain ⟨small, rfl⟩ := of_sextet? is
    exact sextetChar_mem_alphabet small
  · have each : ∀ c ∈ alphabet, (sextet? c).isSome := Text.forall_of_all (by decide)
    exact each c

theorem visible_of_mem_alphabet {c : Char} (member : c ∈ alphabet) :
    Text.isBlank c = false ∧ c ≠ '\n' ∧ c ≠ '\r' ∧ c ≠ '=' := by
  have each : ∀ c ∈ alphabet, Text.isBlank c = false ∧ c ≠ '\n' ∧ c ≠ '\r' ∧ c ≠ '=' :=
    Text.forall_of_all (by decide)
  exact each c member

/-! ### Groups -/

theorem sextetChar_ne {n : Nat} (small : n < 64) : sextetChar n ≠ '=' :=
  (visible_of_mem_alphabet (sextetChar_mem_alphabet small)).2.2.2

theorem mem_encode (bytes : Bytes) : ∀ c ∈ encode bytes, c ∈ alphabet ∨ c = '=' := by
  have written {n : Nat} (small : n < 64) : sextetChar n ∈ alphabet :=
    sextetChar_mem_alphabet small
  fun_induction encode bytes with
  | case1 => simp
  | case2 a n =>
    have small := a.toNat_lt
    simp [written (show n / 262144 < 64 by omega), written (Nat.mod_lt _ _)]
  | case3 a b n =>
    have small := a.toNat_lt
    have small' := b.toNat_lt
    simp [written (show n / 262144 < 64 by omega), written (Nat.mod_lt _ _)]
  | case4 a b c rest n ih =>
    have small := a.toNat_lt
    have small' := b.toNat_lt
    have small'' := c.toNat_lt
    simp only [List.forall_mem_cons]
    exact ⟨.inl (written (by omega)), .inl (written (by omega)), .inl (written (by omega)),
      .inl (written (by omega)), ih⟩

theorem ofNat_eq {n : Nat} {byte : UInt8} (low : n % 256 = byte.toNat) : UInt8.ofNat n = byte := by
  rw [← UInt8.toNat_inj, UInt8.toNat_ofNat', ← low]

/-- Four characters hold the three bytes that they were made of. -/
theorem decodeGroups_encode (bytes : Bytes) : decodeGroups (encode bytes) = some bytes := by
  fun_induction encode bytes with
  | case1 => rfl
  | case2 a n =>
    have small := a.toNat_lt
    have regroup : n / 262144 * 262144 + n / 4096 % 64 * 4096 = n := by omega
    have first : UInt8.ofNat (n / 65536) = a := ofNat_eq (by omega)
    rw [decodeGroups, sextet?_sextetChar (by omega), sextet?_sextetChar (by omega)]
    simp [regroup, first]
  | case3 a b n =>
    have small := a.toNat_lt
    have small' := b.toNat_lt
    have regroup : n / 262144 * 262144 + n / 4096 % 64 * 4096 + n / 64 % 64 * 64 = n := by omega
    have first : UInt8.ofNat (n / 65536) = a := ofNat_eq (by omega)
    have second : UInt8.ofNat (n / 256) = b := ofNat_eq (by omega)
    rw [decodeGroups, sextet?_sextetChar (by omega), sextet?_sextetChar (by omega),
      sextet?_sextetChar (by omega)]
    · simp [regroup, first, second]
    · exact sextetChar_ne (by omega)
  | case4 a b c rest n ih =>
    have small := a.toNat_lt
    have small' := b.toNat_lt
    have small'' := c.toNat_lt
    have regroup :
        n / 262144 * 262144 + n / 4096 % 64 * 4096 + n / 64 % 64 * 64 + n % 64 = n := by omega
    have first : UInt8.ofNat (n / 65536) = a := ofNat_eq (by omega)
    have second : UInt8.ofNat (n / 256) = b := ofNat_eq (by omega)
    have third : UInt8.ofNat n = c := ofNat_eq (by omega)
    have last : sextetChar (n % 64) ≠ '=' := sextetChar_ne (by omega)
    rw [decodeGroups, sextet?_sextetChar (by omega), sextet?_sextetChar (by omega),
      sextet?_sextetChar (by omega), sextet?_sextetChar (by omega), ih]
    · simp only [Option.bind_eq_bind, Option.bind_some, Option.pure_def, regroup, first, second, third]
    · exact fun _ padded => absurd padded last
    · exact fun padded => absurd padded last

/-! ### Texts -/

/-- Characters of the alphabet and at most two equals signs behind them. -/
def Spelled (text : List Char) : Prop :=
  ∃ body padding, text = body ++ List.replicate padding '=' ∧ (∀ c ∈ body, c ∈ alphabet) ∧
    padding ≤ 2

/-- A text in groups of four characters, the last of which may be padded. -/
structure WellFormed (text : List Char) : Prop where
  whole : 4 ∣ text.length
  spelled : Spelled text

theorem spelled_nil : Spelled [] := ⟨[], 0, rfl, by simp, by decide⟩

theorem spelled_cons {c : Char} {rest : List Char} :
    Spelled (c :: rest) ↔ c ∈ alphabet ∧ Spelled rest ∨ c = '=' ∧ (rest = [] ∨ rest = ['=']) := by
  constructor
  · rintro ⟨body, padding, is, each, few⟩
    cases body with
    | nil =>
      match padding, few with
      | 1, _ | 2, _ =>
        cases is
        simp
    | cons first body =>
      cases is
      exact .inl ⟨each c (by simp), body, padding, rfl, fun d member => each d (by simp [member]),
        few⟩
  · rintro (⟨member, body, padding, rfl, each, few⟩ | ⟨rfl, rfl | rfl⟩)
    · exact ⟨c :: body, padding, rfl, by simpa [member] using each, few⟩
    · exact ⟨[], 1, rfl, by simp, by decide⟩
    · exact ⟨[], 2, rfl, by simp, by decide⟩

/-- Just the well-formed texts can be read. -/
theorem isSome_decodeGroups_iff {text : List Char} :
    (decodeGroups text).isSome ↔ WellFormed text := by
  have equals : '=' ∉ alphabet := by decide
  have valued {c : Char} : (∃ n, sextet? c = some n) ↔ c ∈ alphabet := by
    rw [← isSome_sextet?_iff, Option.isSome_iff_exists]
  have wellFormed {text : List Char} : WellFormed text ↔ 4 ∣ text.length ∧ Spelled text :=
    ⟨fun formed => ⟨formed.whole, formed.spelled⟩, fun formed => ⟨formed.1, formed.2⟩⟩
  fun_induction decodeGroups text with
  | case1 => exact ⟨fun _ => ⟨by simp, spelled_nil⟩, fun _ => rfl⟩
  | case2 a b =>
    simp [wellFormed, spelled_cons, Option.isSome_iff_exists, Option.bind_eq_some_iff, valued,
      equals]
  | case3 a b c single =>
    have other : ¬ c = '=' := single
    simp [wellFormed, spelled_cons, Option.isSome_iff_exists, Option.bind_eq_some_iff, valued,
      equals, other]
  | case4 a b c d rest notTwo notOne ih =>
    -- A group with others behind it, or without padding, has none of its own.
    have unpadded (whole : 4 ∣ rest.length) : ¬ (d = '=' ∧ (rest = [] ∨ rest = ['='])) := by
      rintro ⟨padded, rfl | rfl⟩
      · exact notOne padded rfl
      · exact absurd whole (by decide)
    have undoubled : ¬ (c = '=' ∧ d = '=' ∧ rest = []) := fun ⟨second, first, last⟩ =>
      notTwo second first last
    simp only [Option.isSome_iff_exists, wellFormed] at ih
    simp only [Option.pure_def, Option.bind_eq_bind, Option.isSome_iff_exists,
      Option.bind_eq_some_iff, Option.some.injEq, ↓existsAndEq, and_true, exists_and_left,
      exists_and_right, valued, ih, wellFormed, spelled_cons, List.length_cons,
      Nat.dvd_add_self_right, List.cons.injEq, reduceCtorEq, false_or, and_false, or_self, or_false]
    constructor
    · rintro ⟨first, second, third, fourth, whole, spelled⟩
      exact ⟨whole, first, second, .inl ⟨third, .inl ⟨fourth, spelled⟩⟩⟩
    · rintro ⟨whole, first, second, ⟨third, ⟨fourth, spelled⟩ | padded⟩ | padded⟩
      · exact ⟨first, second, third, fourth, whole, spelled⟩
      · exact absurd padded (unpadded whole)
      · exact absurd padded undoubled
  | case5 text notNil notTwo notOne notFour =>
    refine ⟨nofun, fun formed => ?_⟩
    have whole := formed.whole
    match text with
    | [] => exact absurd rfl notNil
    | [_] | [_, _] | [_, _, _] =>
      simp only [List.length_cons, List.length_nil] at whole
      omega
    | a :: b :: c :: d :: rest => exact absurd rfl (notFour a b c d rest)

theorem isSome_decode?_iff (text : List Char) :
    (decode? text).isSome ↔
      WellFormed ((Text.trim text).filter fun c => c != '\n' && c != '\r') :=
  isSome_decodeGroups_iff

/-- Bytes are read back from their text, however it is broken into lines and put between blanks. -/
theorem decode?_folded (bytes : Bytes) (left folded right : List Char)
    (folds : Text.Folded (encode bytes) folded) (before : ∀ c ∈ left, Text.isBlank c = true)
    (behind : ∀ c ∈ right, Text.isBlank c = true) :
    decode? (left ++ folded ++ right) = some bytes := by
  have plain : ∀ c ∈ encode bytes, Text.isBlank c = false ∧ c ≠ '\n' ∧ c ≠ '\r' := by
    intro c member
    rcases mem_encode bytes c member with letter | rfl
    · obtain ⟨visible, notFeed, notReturn, -⟩ := visible_of_mem_alphabet letter
      exact ⟨visible, notFeed, notReturn⟩
    · decide
  have trimmed := folds.trim fun c member => (plain c member).1
  rw [decode?, Text.trim_between before behind, trimmed.filter fun c member => (plain c member).2,
    decodeGroups_encode]

theorem decode?_encode (bytes : Bytes) : decode? (encode bytes) = some bytes := by
  simpa using decode?_folded bytes [] (encode bytes) [] (.refl _) (by simp) (by simp)

end Base64

namespace PositionKey

/-- A masked word is read back under its mask. -/
theorem word_ofNat (word mask : UInt32) :
    UInt32.ofNat (Bytes.toNat (Bytes.ofNat 4 (word ^^^ mask).toNat)) ^^^ mask = word := by
  have small : (word ^^^ mask).toNat < 256 ^ 4 := (word ^^^ mask).toNat_lt
  rw [Bytes.toNat_ofNat, Nat.mod_eq_of_lt small, UInt32.ofNat_toNat, UInt32.xor_assoc,
    UInt32.xor_self, UInt32.xor_zero]

theorem decode_encode (mask : UInt32) (key : PositionKey) :
    decode mask (key.encode mask) = .ok key := by
  have offsetLength := Bytes.length_ofNat 4 (key.offset ^^^ mask).toNat
  have eight : (Bytes.ofNat 4 (key.offset ^^^ mask).toNat ++
      Bytes.ofNat 4 (key.seed ^^^ mask).toNat).length = 8 := by
    rw [List.length_append, offsetLength, Bytes.length_ofNat]
  rw [decode, encode, String.toList_ofList, Base64.decode?_encode]
  dsimp only
  rw [if_pos eight, List.take_left' offsetLength, List.drop_left' offsetLength, word_ofNat,
    word_ofNat]

/-- A text is refused just where it does not come to eight bytes. -/
theorem decode_error_iff (mask : UInt32) (text : String) :
    (∃ reason, decode mask text = .error (.crypto reason)) ↔
      ∀ bytes, Base64.decode? text.toList = some bytes → bytes.length ≠ 8 := by
  rw [decode]
  cases read : Base64.decode? text.toList with
  | none => exact ⟨fun _ => nofun, fun _ => ⟨_, rfl⟩⟩
  | some bytes =>
    dsimp only
    split
    · rename_i eight
      exact ⟨nofun, fun other => absurd eight (other bytes rfl)⟩
    · rename_i other
      refine ⟨fun _ found same => ?_, fun _ => ⟨_, rfl⟩⟩
      cases same
      exact other

/-- Base64 and position keys. Bytes are read back from their text, whatever lines and blanks were
put in; a text can be read just where it is well-formed once blanks and line ends are left out; and
a key is read back under its mask, while no text of other than eight bytes is a key. -/
theorem decode_exact :
    (∀ (bytes : Bytes) (left folded right : List Char),
      Text.Folded (Base64.encode bytes) folded → (∀ c ∈ left, Text.isBlank c = true) →
        (∀ c ∈ right, Text.isBlank c = true) →
          Base64.decode? (left ++ folded ++ right) = some bytes) ∧
    (∀ text : List Char, (Base64.decode? text).isSome ↔
      Base64.WellFormed ((Text.trim text).filter fun c => c != '\n' && c != '\r')) ∧
    (∀ (mask : UInt32) (key : PositionKey), decode mask (key.encode mask) = .ok key) ∧
    ∀ (mask : UInt32) (text : String),
      (∃ reason, decode mask text = .error (.crypto reason)) ↔
        ∀ bytes, Base64.decode? text.toList = some bytes → bytes.length ≠ 8 :=
  ⟨Base64.decode?_folded, Base64.isSome_decode?_iff, decode_encode,
    decode_error_iff⟩

namespace Wrapped

def key : PositionKey := ⟨0x120, 0xDEADBEEF⟩

/-- The bytes of the key under a mask. -/
def bytes : Bytes := [0x8A, 0xAB, 0x55, 0x55, 0x45, 0x14, 0xF8, 0x8B]

def lastLine : List Char := ['U', 'U', '+', 'I', 's', '=']

/-- Their text in two lines. -/
def lines : List Char := ['i', 'q', 't', 'V', 'V', 'U'] ++ '\r' :: '\n' :: lastLine

/-- The lines between blanks. -/
def text : List Char := [' ', '\u00a0'] ++ lines ++ ['\n']

theorem decode_exact_wrapped :
    Base64.decode? text = some bytes ∧ decode 0x5555AAAA (String.ofList text) = .ok key ∧
      decode 0x5555AAAA (key.encode 0x5555AAAA) = .ok key ∧
      Base64.WellFormed ((Text.trim text).filter fun c => c != '\n' && c != '\r') ∧
      ∃ reason, decode 0x5555AAAA "iqtVVQ==" = .error (.crypto reason) := by
  have encoded : Base64.encode bytes = ['i', 'q', 't', 'V', 'V', 'U'] ++ lastLine := by
    decide +kernel
  have folds : Text.Folded (Base64.encode bytes) lines := by
    rw [encoded]
    exact (Text.Folded.refl _).append (.carriageReturn (.lineFeed (.refl lastLine)))
  have read : Base64.decode? text = some bytes :=
    decode_exact.1 bytes [' ', '\u00a0'] lines ['\n'] folds (Text.forall_of_all (by decide))
      (Text.forall_of_all (by decide))
  have short : ∀ found, Base64.decode? "iqtVVQ==".toList = some found → found.length ≠ 8 := by
    intro found reads
    cases (show Base64.decode? "iqtVVQ==".toList = some [0x8A, 0xAB, 0x55, 0x55] by
      decide +kernel).symm.trans reads
    decide
  exact ⟨read, by decide +kernel, decode_exact.2.2.1 _ key,
    (decode_exact.2.1 text).mp (by rw [read]; rfl), (decode_exact.2.2.2 _ _).mpr short⟩

end Wrapped

end PositionKey

end CilRecovery
