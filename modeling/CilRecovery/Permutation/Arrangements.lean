/-!
All arrangements of some items, one after the other. From each arrangement to the next two items
change places.
-/
namespace CilRecovery

namespace Arrangement

/-- The place that changes with a level when some rounds of the level are over. -/
def partner (level round : Nat) : Nat :=
  if level % 2 = 0 then 0 else round

theorem partner_lt {level round : Nat} (more : round < level) : partner level round < level := by
  unfold partner
  split <;> omega

/-! ### Rounds ahead -/

/-- What one round of a level weighs: more than all rounds below it. -/
def weight (n level : Nat) : Nat := Nat.pow n level

theorem weight_succ (n level : Nat) : weight n (level + 1) = weight n level * n := rfl

/-- A bound for the rounds ahead at a level and above it. -/
def ahead (rounds : Vector Nat n) (level : Nat) : Nat :=
  if inside : level < n then
    (level - rounds[level]) * weight n level + ahead rounds (level + 1)
  else 0

variable {rounds : Vector Nat n} {level : Nat}

theorem ahead_of_lt (inside : level < n) :
    ahead rounds level = (level - rounds[level]) * weight n level + ahead rounds (level + 1) := by
  rw [ahead, dif_pos inside]

theorem ahead_set {changed round : Nat} (inside : changed < n) (below : changed < level) :
    ahead (rounds.set changed round) level = ahead rounds level := by
  fun_induction ahead rounds level with
  | case1 level within ih =>
    rw [ahead_of_lt within, Vector.getElem_set_ne inside within (by omega), ih (by omega)]
  | case2 level outside => rw [ahead, dif_neg outside]

theorem ahead_add_weight_le {low high : Nat} (order : low ≤ high) (inside : high ≤ n) :
    ahead rounds low + weight n low ≤ ahead rounds high + weight n high := by
  induction order with
  | refl => exact Nat.le_refl _
  | @step high _ ih =>
    have within : high < n := inside
    have heavy : (high - rounds[high]) * weight n high + weight n high ≤ weight n (high + 1) := by
      rw [← Nat.succ_mul, weight_succ, Nat.mul_comm (weight n high)]
      exact Nat.mul_le_mul_right _ (by omega)
    have carried := ih (by omega)
    rw [ahead_of_lt within] at carried
    rw [Nat.succ_eq_add_one]
    omega

/-- A round leaves fewer rounds ahead, though all levels below start again. -/
theorem ahead_round_lt (inside : level < n) (more : rounds[level] < level) :
    ahead (rounds.set level (rounds[level] + 1)) 1 < ahead rounds level := by
  have carried : ahead (rounds.set level (rounds[level] + 1)) 1 + weight n 1 ≤
      ahead (rounds.set level (rounds[level] + 1)) level + weight n level :=
    ahead_add_weight_le (by omega) (by omega)
  have some : 0 < weight n 1 := by
    rw [weight_succ]
    exact Nat.mul_pos Nat.one_pos (by omega)
  have fewer : level - rounds[level] = level - (rounds[level] + 1) + 1 := by omega
  rw [ahead_of_lt inside, Vector.getElem_set_self, ahead_set inside (Nat.lt_add_one level)]
    at carried
  rw [ahead_of_lt inside, fewer, Nat.succ_mul]
  omega

theorem ahead_ascend (inside : level < n) (spent : ¬ rounds[level] < level) :
    ahead (rounds.set level 0) (level + 1) = ahead rounds level := by
  have none : level - rounds[level] = 0 := by omega
  rw [ahead_set inside (Nat.lt_add_one level), ahead_of_lt inside, none, Nat.zero_mul,
    Nat.zero_add]

/-! ### Arrangements -/

/-- The arrangements that follow on some items. A round of a level changes an item for the one at
the level and starts the levels below again. -/
def following (items : Vector α n) (rounds : Vector Nat n) (level : Nat) : List (Vector α n) :=
  if inside : level < n then
    if more : rounds[level] < level then
      have below : partner level rounds[level] < n := Nat.lt_trans (partner_lt more) inside
      let next := items.swap (partner level rounds[level]) level
      next :: following next (rounds.set level (rounds[level] + 1)) 1
    else following items (rounds.set level 0) (level + 1)
  else []
termination_by (ahead rounds level, n - level)
decreasing_by
  · exact .left _ _ (ahead_round_lt inside more)
  · rw [ahead_ascend inside more]
    exact .right _ (by omega)

end Arrangement

/-- All arrangements of a list. -/
def arrangements (items : List α) : List (List α) :=
  let first : Vector α items.length := ⟨items.toArray, List.size_toArray⟩
  (first :: Arrangement.following first (Vector.replicate items.length 0) 1).map Vector.toList

end CilRecovery
