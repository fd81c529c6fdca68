import CilRecovery.Text.Utf8

/-!
Texts and their bytes: what is written for a text is read back as that text, one character after
the other.
-/
namespace CilRecovery.Text.Utf8

variable {index : Nat} {a b c d n : Nat}

theorem toNat_ofNat (small : n < 256) : (UInt8.ofNat n).toNat = n := by
  rw [UInt8.toNat_ofNat', Nat.mod_eq_of_lt small]

/-- The range of bytes that continue a character. -/
def Tail (n : Nat) : Prop := 0x80 ≤ n ∧ n ≤ 0xBF

theorem Tail.toNat (tail : Tail n) : (UInt8.ofNat n).toNat = n :=
  toNat_ofNat (Nat.lt_of_le_of_lt tail.2 (by decide))

theorem Tail.isTail (tail : Tail n) : isTail (UInt8.ofNat n) = true := by
  simp only [Utf8.isTail, UInt8.le_iff_toNat_le, tail.toNat, Bool.and_eq_true, decide_eq_true_eq]
  exact tail

theorem Tail.tailBits (tail : Tail n) : tailBits (UInt8.ofNat n) = n - 0x80 := by
  obtain ⟨low, high⟩ := tail
  rw [Utf8.tailBits, Tail.toNat ⟨low, high⟩]
  omega

/-- The second byte of a long character: behind one first byte it is not too small, so that no
shorter form exists, and behind another not too large. -/
theorem isSecond_ofNat {x y low high : UInt8} (lead : a < 256) (tail : Tail b)
    (shortest : a = x.toNat → low.toNat ≤ b) (scalar : a = y.toNat → b ≤ high.toNat) :
    (if UInt8.ofNat a = x then low ≤ UInt8.ofNat b && UInt8.ofNat b ≤ 0xBF
      else if UInt8.ofNat a = y then 0x80 ≤ UInt8.ofNat b && UInt8.ofNat b ≤ high
      else isTail (UInt8.ofNat b)) = true := by
  simp only [← UInt8.toNat_inj, UInt8.le_iff_toNat_le, toNat_ofNat lead, tail.toNat]
  split
  · rename_i first
    simp only [Bool.and_eq_true, decide_eq_true_eq]
    exact ⟨shortest first, tail.2⟩
  · split
    · rename_i first
      simp only [Bool.and_eq_true, decide_eq_true_eq]
      exact ⟨tail.1, scalar first⟩
    · exact tail.isTail

/-- A first byte behind the single ones that lies in some range. -/
theorem lead_ofNat {low high : UInt8} (least : low.toNat ≤ a) (most : a ≤ high.toNat) :
    low ≤ UInt8.ofNat a ∧ UInt8.ofNat a ≤ high := by
  have byte : (UInt8.ofNat a).toNat = a := toNat_ofNat (Nat.lt_of_le_of_lt most high.toNat_lt)
  rw [UInt8.le_iff_toNat_le, UInt8.le_iff_toNat_le, byte]
  exact ⟨least, most⟩

theorem not_le_ofNat {high : UInt8} (small : a < 256) (more : high.toNat < a) :
    ¬ UInt8.ofNat a ≤ high := by
  rw [UInt8.le_iff_toNat_le, toNat_ofNat small]
  exact Nat.not_le.mpr more

theorem not_lt_ofNat {low : UInt8} (small : a < 256) (least : low.toNat ≤ a) :
    ¬ UInt8.ofNat a < low := by
  rw [UInt8.lt_iff_toNat_lt, toNat_ofNat small]
  exact Nat.not_lt.mpr least

theorem decodeFrom_one (rest : Bytes) (lead : a < 0x80) :
    decodeFrom index (UInt8.ofNat a :: rest) =
      (decodeFrom (index + 1) rest).map (Char.ofNat a :: ·) := by
  have byte : (UInt8.ofNat a).toNat = a := toNat_ofNat (by omega)
  have single : UInt8.ofNat a < 0x80 := by
    rw [UInt8.lt_iff_toNat_lt, byte]
    exact lead
  rw [decodeFrom.eq_def]
  simp only [if_pos single, byte]

theorem decodeFrom_two (rest : Bytes) (least : 0xC2 ≤ a) (most : a ≤ 0xDF) (second : Tail b) :
    decodeFrom index (UInt8.ofNat a :: UInt8.ofNat b :: rest) =
      (decodeFrom (index + 2) rest).map (Char.ofNat (a % 32 * 64 + (b - 0x80)) :: ·) := by
  have small : a < 256 := by omega
  have long : ¬ UInt8.ofNat a < 0x80 := not_lt_ofNat small (Nat.le_trans (by decide) least)
  have lead : 0xC2 ≤ UInt8.ofNat a ∧ UInt8.ofNat a ≤ 0xDF := lead_ofNat least most
  rw [decodeFrom.eq_def]
  simp only [if_neg long, if_pos lead, if_pos second.isTail, toNat_ofNat small, second.tailBits]

theorem decodeFrom_three (rest : Bytes) (least : 0xE0 ≤ a) (most : a ≤ 0xEF) (second : Tail b)
    (shortest : a = 0xE0 → 0xA0 ≤ b) (scalar : a = 0xED → b ≤ 0x9F) (third : Tail c) :
    decodeFrom index (UInt8.ofNat a :: UInt8.ofNat b :: UInt8.ofNat c :: rest) =
      (decodeFrom (index + 3) rest).map
        (Char.ofNat ((a % 16 * 64 + (b - 0x80)) * 64 + (c - 0x80)) :: ·) := by
  have small : a < 256 := by omega
  have long : ¬ UInt8.ofNat a < 0x80 := not_lt_ofNat small (Nat.le_trans (by decide) least)
  have notTwo : ¬ (0xC2 ≤ UInt8.ofNat a ∧ UInt8.ofNat a ≤ 0xDF) := fun two =>
    not_le_ofNat small (Nat.lt_of_lt_of_le (by decide) least) two.2
  have lead : 0xE0 ≤ UInt8.ofNat a ∧ UInt8.ofNat a ≤ 0xEF := lead_ofNat least most
  have allowed : isSecondOfThree (UInt8.ofNat a) (UInt8.ofNat b) = true :=
    isSecond_ofNat small second shortest scalar
  rw [decodeFrom.eq_def]
  simp only [if_neg long, if_neg notTwo, if_pos lead, if_pos allowed, if_pos third.isTail,
    toNat_ofNat small, second.tailBits, third.tailBits]

theorem decodeFrom_four (rest : Bytes) (least : 0xF0 ≤ a) (most : a ≤ 0xF4) (second : Tail b)
    (shortest : a = 0xF0 → 0x90 ≤ b) (scalar : a = 0xF4 → b ≤ 0x8F) (third : Tail c)
    (fourth : Tail d) :
    decodeFrom index (UInt8.ofNat a :: UInt8.ofNat b :: UInt8.ofNat c :: UInt8.ofNat d :: rest) =
      (decodeFrom (index + 4) rest).map
        (Char.ofNat (((a % 8 * 64 + (b - 0x80)) * 64 + (c - 0x80)) * 64 + (d - 0x80)) :: ·) := by
  have small : a < 256 := by omega
  have long : ¬ UInt8.ofNat a < 0x80 := not_lt_ofNat small (Nat.le_trans (by decide) least)
  have notTwo : ¬ (0xC2 ≤ UInt8.ofNat a ∧ UInt8.ofNat a ≤ 0xDF) := fun two =>
    not_le_ofNat small (Nat.lt_of_lt_of_le (by decide) least) two.2
  have notThree : ¬ (0xE0 ≤ UInt8.ofNat a ∧ UInt8.ofNat a ≤ 0xEF) := fun three =>
    not_le_ofNat small (Nat.lt_of_lt_of_le (by decide) least) three.2
  have lead : 0xF0 ≤ UInt8.ofNat a ∧ UInt8.ofNat a ≤ 0xF4 := lead_ofNat least most
  have allowed : isSecondOfFour (UInt8.ofNat a) (UInt8.ofNat b) = true :=
    isSecond_ofNat small second shortest scalar
  rw [decodeFrom.eq_def]
  simp only [if_neg long, if_neg notTwo, if_neg notThree, if_pos lead, if_pos allowed,
    if_pos third.isTail, if_pos fourth.isTail, toNat_ofNat small, second.tailBits, third.tailBits,
    fourth.tailBits]

/-- A written character is read back, and what follows it is read behind it. -/
theorem decodeFrom_utf8EncodeChar (index : Nat) (char : Char) (rest : Bytes) :
    decodeFrom index (String.utf8EncodeChar char ++ rest) =
      (decodeFrom (index + (String.utf8EncodeChar char).length) rest).map (char :: ·) := by
  have valid : char.toNat < 0xD800 ∨ 0xDFFF < char.toNat ∧ char.toNat < 0x110000 := char.valid
  have back : Char.ofNat char.toNat = char := char.ofNat_toNat
  rw [String.utf8EncodeChar, show char.val.toNat = char.toNat from rfl]
  generalize char.toNat = v at valid back
  -- One case for each number of bytes; in each, the digits put together again are the number.
  have joined {n : Nat} (is : n = v) : Char.ofNat n = char := by rw [is, back]
  split
  · exact (decodeFrom_one rest (by omega)).trans (by rw [back]; rfl)
  · split
    · refine (decodeFrom_two rest (by omega) (by omega) ⟨by omega, by omega⟩).trans ?_
      rw [joined (by omega)]
      rfl
    · split
      · refine (decodeFrom_three rest (by omega) (by omega) ⟨by omega, by omega⟩ (by omega)
          (by omega) ⟨by omega, by omega⟩).trans ?_
        rw [joined (by omega)]
        rfl
      · refine (decodeFrom_four rest (by omega) (by omega) ⟨by omega, by omega⟩ (by omega)
          (by omega) ⟨by omega, by omega⟩ ⟨by omega, by omega⟩).trans ?_
        rw [joined (by omega)]
        rfl

theorem decodeFrom_encode (index : Nat) (text : List Char) :
    decodeFrom index (encode text) = .ok text := by
  induction text generalizing index with
  | nil => rfl
  | cons char rest ih =>
    rw [encode, List.flatMap_cons, decodeFrom_utf8EncodeChar, ← encode, ih]
    rfl

/-- A written text is read back. -/
theorem decode_encode (text : List Char) : decode (encode text) = .ok text :=
  decodeFrom_encode 0 text

end CilRecovery.Text.Utf8
