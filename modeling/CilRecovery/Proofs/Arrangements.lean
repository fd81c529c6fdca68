import Mathlib.Data.List.Permutation
import Mathlib.GroupTheory.Perm.List
import CilRecovery.Permutation.Arrangements

/-!
The arrangements of distinct items: each one is there, and none is there twice. All rounds of a
level together move the items in a way that depends on the level alone. It is a cycle through all
places below the level where there is an even number of them, else it exchanges the first place and
the last. So each round of the next level finds another item to keep at that level.
-/
namespace CilRecovery

namespace Arrangement

/-! ### Turns -/

/-- Where the items come from after some rounds of a level, if all rounds below the level together
make a turn. -/
def spin (turn : Equiv.Perm Nat) (level : Nat) : (round : Nat) → Equiv.Perm Nat
  | 0 => 1
  | round + 1 => spin turn level round * (turn * Equiv.swap (partner level round) level)

/-- Where the items come from after all rounds below a level. -/
def turn : (level : Nat) → Equiv.Perm Nat
  | 0 => 1
  | level + 1 => spin (turn level) level level * turn level

section Cycles

variable {level : Nat}

/-- An exchange with a place outside takes this place into the cycle. -/
theorem formPerm_mul_swap {x y : Nat} {places : List Nat} (distinct : (x :: y :: places).Nodup) :
    (x :: places).formPerm * Equiv.swap x y = (x :: y :: places).formPerm := by
  have shorter : (x :: places).Nodup := distinct.sublist (by simp)
  have rotated : (x :: places) ~r (places ++ [x]) := ⟨1, by simp⟩
  have longer : (x :: y :: places) ~r (places ++ [x, y]) := ⟨2, by simp⟩
  rw [List.formPerm_eq_of_isRotated shorter rotated, ← List.formPerm_append_pair,
    List.formPerm_eq_of_isRotated distinct longer]

/-- A turn that is a cycle through all places below a level. -/
def Cyclic (turn : Equiv.Perm Nat) (level : Nat) : Prop :=
  ∃ places : List Nat, turn = (0 :: places).formPerm ∧ (0 :: places).Perm (List.range level)

theorem cyclic_of_mem {turn : Equiv.Perm Nat} {places : List Nat} (cycle : turn = places.formPerm)
    (all : places.Perm (List.range level)) (positive : 0 < level) : Cyclic turn level := by
  obtain ⟨before, after, rfl⟩ := List.append_of_mem (all.mem_iff.mpr (List.mem_range.mpr positive))
  have rotated : (before ++ 0 :: after) ~r (0 :: (after ++ before)) := List.isRotated_append
  have distinct : (before ++ 0 :: after).Nodup := all.nodup_iff.mpr List.nodup_range
  exact ⟨after ++ before, cycle.trans (List.formPerm_eq_of_isRotated distinct rotated),
    rotated.perm.symm.trans all⟩

/-- Where all places below an even level turn as a cycle, each round is a step of a longer cycle. -/
theorem spin_even (even : level % 2 = 0) {places : List Nat} {turn : Equiv.Perm Nat}
    (cycle : turn = (0 :: places).formPerm) (distinct : (0 :: level :: places).Nodup)
    (round : Nat) :
    spin turn level round = (0 :: level :: places).formPerm ^ round := by
  induction round with
  | zero => rfl
  | succ round ih =>
    rw [spin, ih, partner, if_pos even, cycle, formPerm_mul_swap distinct, pow_succ]

/-- The exchange of the first place and the last below a level. -/
def exchange (level : Nat) : Equiv.Perm Nat := Equiv.swap 0 (level - 1)

theorem exchange_lt {place : Nat} (below : place < level) : exchange level place < level := by
  rw [exchange, Equiv.swap_apply_def]
  split_ifs <;> omega

theorem exchange_level (positive : 0 < level) : exchange level level = level :=
  Equiv.swap_apply_of_ne_of_ne (by omega) (by omega)

theorem exchange_mul_self (level : Nat) : exchange level * exchange level = 1 :=
  Equiv.swap_mul_self ..

theorem exchange_pow_even {round : Nat} (even : round % 2 = 0) : exchange level ^ round = 1 := by
  obtain ⟨half, rfl⟩ := Nat.dvd_of_mod_eq_zero even
  rw [pow_mul, pow_two, exchange_mul_self, one_pow]

/-- The place that a round of an odd level changes with is moved by one exchange only, whichever
number of them came before. -/
theorem exchange_pow_succ (odd : level % 2 = 1) (round : Nat) :
    (exchange level ^ (round + 1)) round = exchange level round := by
  by_cases outer : round % 2 = 0
  · rw [pow_succ', Equiv.Perm.mul_apply, exchange_pow_even outer, Equiv.Perm.one_apply]
  · have fixed : exchange level round = round :=
      Equiv.swap_apply_of_ne_of_ne (by omega) (by omega)
    rw [fixed]
    exact Equiv.Perm.pow_apply_eq_self_of_apply_eq_self fixed _

/-- The places below a round of a level, the last first, after an exchange. -/
def exchanged (level round : Nat) : List Nat := (List.range round).reverse.map (exchange level)

theorem exchanged_succ (level round : Nat) :
    exchanged level (round + 1) = exchange level round :: exchanged level round := by
  simp [exchanged, List.range_succ]

theorem nodup_exchanged {round : Nat} (fits : round ≤ level) :
    (level :: exchanged level round).Nodup := by
  refine List.nodup_cons.mpr ⟨fun member => ?_, ?_⟩
  · obtain ⟨place, inside, same⟩ := List.mem_map.mp member
    have below : place < round := List.mem_range.mp (List.mem_reverse.mp inside)
    exact absurd same (Nat.ne_of_lt (exchange_lt (Nat.lt_of_lt_of_le below fits)))
  · exact (List.nodup_reverse.mpr List.nodup_range).map (exchange level).injective

/-- Where the places below an odd level exchange the first and the last, each round takes one more
of them into a cycle. -/
theorem spin_odd (odd : level % 2 = 1) {round : Nat} (fits : round ≤ level) :
    spin (exchange level) level round =
      (level :: exchanged level round).formPerm * exchange level ^ round := by
  induction round with
  | zero => simp [spin, exchanged]
  | succ round ih =>
    have fixed : (exchange level ^ (round + 1)) level = level :=
      Equiv.Perm.pow_apply_eq_self_of_apply_eq_self (exchange_level (by omega)) _
    have distinct := nodup_exchanged fits
    rw [exchanged_succ] at distinct ⊢
    rw [spin, ih (by omega), partner, if_neg (by omega), mul_assoc,
      ← mul_assoc (exchange level ^ round), ← pow_succ, Equiv.mul_swap_eq_swap_mul, fixed,
      exchange_pow_succ odd round, Equiv.swap_comm, ← mul_assoc, formPerm_mul_swap distinct]

theorem perm_exchanged (level : Nat) :
    (level :: exchanged level level).Perm (List.range (level + 1)) := by
  refine (List.subperm_of_subset (nodup_exchanged (Nat.le_refl level)) ?_).perm_of_length_le
    (by simp [exchanged])
  intro place member
  rw [List.mem_range]
  rcases List.mem_cons.mp member with rfl | member
  · exact Nat.lt_add_one place
  · obtain ⟨source, inside, rfl⟩ := List.mem_map.mp member
    have below : source < level := List.mem_range.mp (List.mem_reverse.mp inside)
    exact Nat.lt_succ_of_lt (exchange_lt below)

theorem perm_cycle {places : List Nat} (all : (0 :: places).Perm (List.range level)) :
    (0 :: level :: places).Perm (List.range (level + 1)) := by
  rw [List.range_succ]
  exact (List.Perm.swap level 0 places).trans
    ((all.cons level).trans (List.perm_append_singleton level _).symm)

theorem turn_succ_of_even (even : level % 2 = 0) (cyclic : Cyclic (turn level) level) :
    turn (level + 1) = exchange (level + 1) := by
  obtain ⟨places, cycle, all⟩ := cyclic
  have distinct : (0 :: level :: places).Nodup := (perm_cycle all).nodup_iff.mpr List.nodup_range
  have length : (0 :: level :: places).length = level + 1 := by
    simpa using (perm_cycle all).length_eq
  have closed : (0 :: level :: places).formPerm ^ (level + 1) = 1 := by
    rw [← length]
    exact List.formPerm_pow_length_eq_one_of_nodup _ distinct
  calc turn (level + 1)
      = (0 :: level :: places).formPerm ^ level * (0 :: places).formPerm := by
        rw [turn, spin_even even cycle distinct, cycle]
    _ = (0 :: level :: places).formPerm ^ (level + 1) * Equiv.swap 0 level := by
        rw [pow_succ, ← formPerm_mul_swap distinct, mul_assoc, mul_assoc, Equiv.swap_mul_self,
          mul_one]
    _ = exchange (level + 1) := by
        rw [closed, one_mul]
        rfl

theorem turn_succ_of_odd (odd : level % 2 = 1) (exchanges : turn level = exchange level) :
    Cyclic (turn (level + 1)) (level + 1) := by
  refine cyclic_of_mem ?_ (perm_exchanged level) (Nat.succ_pos level)
  rw [turn, exchanges, spin_odd odd (Nat.le_refl level), mul_assoc, ← pow_succ,
    exchange_pow_even (by omega), mul_one]

/-- The turns of odd levels are exchanges, and those of even levels are cycles. -/
theorem turn_eq (level : Nat) :
    (level % 2 = 1 → turn level = exchange level) ∧
      (level % 2 = 0 → 0 < level → Cyclic (turn level) level) := by
  induction level with
  | zero => exact ⟨nofun, nofun⟩
  | succ level ih =>
    refine ⟨fun odd => ?_, fun even _ => turn_succ_of_odd (by omega) (ih.1 (by omega))⟩
    cases level with
    | zero => exact (Equiv.swap_self 0).symm
    | succ level => exact turn_succ_of_even (by omega) (ih.2 (by omega) (by omega))

/-- In the rounds of a level each place up to the level gives it an item, and none does so twice. -/
theorem exists_held (positive : 0 < level) :
    ∃ places : List Nat, places.Perm (List.range (level + 1)) ∧
      ∀ round ≤ level, places[round]? = some (spin (turn level) level round level) := by
  rcases Nat.mod_two_eq_zero_or_one level with even | odd
  · obtain ⟨places, cycle, all⟩ := (turn_eq level).2 even positive
    have distinct : (0 :: level :: places).Nodup := (perm_cycle all).nodup_iff.mpr List.nodup_range
    have rotated : (0 :: level :: places) ~r (level :: (places ++ [0])) := ⟨1, by simp⟩
    have every := rotated.perm.symm.trans (perm_cycle all)
    refine ⟨level :: (places ++ [0]), every, fun round fits => ?_⟩
    have length : (level :: (places ++ [0])).length = level + 1 := by simpa using every.length_eq
    have inside : round < (level :: (places ++ [0])).length := by omega
    rw [spin_even even cycle distinct, List.formPerm_eq_of_isRotated distinct rotated,
      List.formPerm_pow_apply_head _ _ (rotated.nodup_iff.mp distinct),
      List.getElem?_eq_getElem inside]
    simp only [Nat.mod_eq_of_lt inside]
  · have every := (((List.reverse_perm _).symm.map _).cons level).trans (perm_exchanged level)
    refine ⟨level :: (List.range level).map (exchange level), every, fun round fits => ?_⟩
    rw [(turn_eq level).1 odd, spin_odd odd fits, Equiv.Perm.mul_apply,
      Equiv.Perm.pow_apply_eq_self_of_apply_eq_self (exchange_level positive)]
    cases round with
    | zero => simp [exchanged]
    | succ round =>
      have distinct := nodup_exchanged fits
      rw [exchanged_succ] at distinct ⊢
      have below : round < level := fits
      rw [List.formPerm_apply_head _ _ _ distinct]
      simp [below]

end Cycles

/-! ### Sweeps -/

section Sweeps

variable {items last : Vector α n} {level done : Nat} {seen : List (Vector α n)}

theorem getElem?_swap_eq {i j : Nat} (left : i < n) (right : j < n) (place : Nat) :
    (items.swap i j)[place]? = items[Equiv.swap i j place]? := by
  rw [Vector.getElem?_swap]
  rcases eq_or_ne place i with rfl | notLeft
  · rw [Equiv.swap_apply_left]
    split_ifs with same
    · simp [same]
    · simp [right]
    · contradiction
  · rcases eq_or_ne place j with rfl | notRight
    · simp [left]
    · rw [Equiv.swap_apply_of_ne_of_ne notLeft notRight, if_neg notRight.symm, if_neg notLeft.symm]

/-- The arrangements seen in all rounds below a level and some rounds of it, from the first items to
the last. -/
structure Sweep (level done : Nat) (items : Vector α n) (seen : List (Vector α n))
    (last : Vector α n) : Prop where
  perm : ∀ arranged ∈ seen, arranged.Perm items
  /-- Items above the level stay. -/
  above : ∀ arranged ∈ seen, ∀ place > level, arranged[place]? = items[place]?
  /-- At the level stands the item of one of the rounds. -/
  held : ∀ arranged ∈ seen, ∃ round ≤ done,
    arranged[level]? = items[spin (turn level) level round level]?
  nodup : seen.Nodup
  count : seen.length = (done + 1) * level.factorial
  ends : last ∈ seen
  moved : ∀ place, last[place]? = items[(spin (turn level) level done * turn level) place]?

namespace Sweep

theorem start (items : Vector α n) : Sweep 1 0 items [items] items where
  perm := by simp
  above := by simp
  held := by simp [spin]
  nodup := by simp
  count := by simp
  ends := by simp
  moved := by simp [turn, spin]

/-- All rounds of a level are all below the next. -/
theorem ascend (sweep : Sweep level level items seen last) :
    Sweep (level + 1) 0 items seen last where
  perm := sweep.perm
  above arranged member place higher := sweep.above arranged member place (by omega)
  held arranged member := ⟨0, Nat.le_refl 0, sweep.above arranged member _ (Nat.lt_add_one level)⟩
  nodup := sweep.nodup
  count := by rw [sweep.count, Nat.factorial_succ, Nat.zero_add, Nat.one_mul]
  ends := sweep.ends
  moved := sweep.moved

/-- An exchange after some rounds puts the item of the next round at the level. -/
theorem getElem?_swap (sweep : Sweep level done items seen last) (inside : level < n)
    (below : partner level done < n) (place : Nat) :
    (last.swap (partner level done) level)[place]? =
      items[spin (turn level) level (done + 1) place]? := by
  rw [getElem?_swap_eq below inside, sweep.moved, spin, ← mul_assoc]
  rfl

/-- The items of different rounds are different. -/
theorem held_ne (distinct : items.toList.Nodup) (inside : level < n) {first second : Nat}
    (order : first < second) (fits : second ≤ level) :
    items[spin (turn level) level first level]? ≠ items[spin (turn level) level second level]? := by
  have positive : 0 < level := by omega
  obtain ⟨places, all, held⟩ := exists_held positive
  have one := held first (by omega)
  have other := held second fits
  have within : first < places.length := (List.getElem?_eq_some_iff.mp one).1
  have below : spin (turn level) level first level < n := by
    have := List.mem_range.mp (all.mem_iff.mp (List.mem_of_getElem? one))
    omega
  intro same
  rw [← Vector.getElem?_toList, ← Vector.getElem?_toList] at same
  have equal := (List.getElem?_inj (by simpa using below) distinct).mp same
  rw [equal, ← other] at one
  exact absurd ((List.getElem?_inj within (all.nodup_iff.mpr List.nodup_range)).mp one) (by omega)

/-- One more round of a level. -/
theorem round (sweep : Sweep level done items seen last) (distinct : items.toList.Nodup)
    (inside : level < n) (more : done < level) (below : partner level done < n)
    {next final : Vector α n} {rest : List (Vector α n)}
    (exchanged : next = last.swap (partner level done) level)
    (under : Sweep level 0 next rest final) :
    Sweep level (done + 1) items (seen ++ rest) final := by
  have source : ∀ place, next[place]? = items[spin (turn level) level (done + 1) place]? := by
    rw [exchanged]
    exact sweep.getElem?_swap inside below
  have held : ∀ arranged ∈ rest,
      arranged[level]? = items[spin (turn level) level (done + 1) level]? := by
    intro arranged member
    obtain ⟨round, none, same⟩ := under.held arranged member
    rw [same, Nat.le_zero.mp none]
    exact source level
  constructor
  case perm =>
    have changed : next.Perm last := exchanged ▸ Vector.swap_perm below inside
    have back : next.Perm items := changed.trans (sweep.perm last sweep.ends)
    exact List.forall_mem_append.mpr ⟨sweep.perm, fun arranged member =>
      (under.perm arranged member).trans back⟩
  case above =>
    refine List.forall_mem_append.mpr ⟨sweep.above, fun arranged member place higher => ?_⟩
    have kept : Equiv.swap (partner level done) level place = place :=
      Equiv.swap_apply_of_ne_of_ne (by have := partner_lt more; omega) (by omega)
    rw [under.above arranged member place higher, exchanged, getElem?_swap_eq below inside, kept]
    exact sweep.above last sweep.ends place higher
  case held =>
    refine List.forall_mem_append.mpr ⟨fun arranged member => ?_, fun arranged member => ?_⟩
    · obtain ⟨round, fits, same⟩ := sweep.held arranged member
      exact ⟨round, Nat.le_succ_of_le fits, same⟩
    · exact ⟨done + 1, Nat.le_refl _, held arranged member⟩
  case nodup =>
    -- An arrangement of this round has an item at the level that no round before had there.
    refine List.nodup_append.mpr ⟨sweep.nodup, under.nodup, ?_⟩
    rintro arranged early _ late rfl
    obtain ⟨round, fits, same⟩ := sweep.held arranged early
    exact held_ne distinct inside (Nat.lt_succ_of_le fits) more
      (same.symm.trans (held arranged late))
  case count =>
    rw [List.length_append, sweep.count, under.count, Nat.zero_add, Nat.one_mul,
      Nat.succ_mul (done + 1)]
  case ends => exact List.mem_append_right _ under.ends
  case moved =>
    intro place
    rw [under.moved, source]
    rfl

end Sweep

/-! ### Runs -/

variable {rounds : Vector Nat n}

theorem following_of_more (inside : level < n) (current : rounds[level] = done)
    (more : done < level) (below : partner level done < n) :
    following items rounds level = items.swap (partner level done) level ::
      following (items.swap (partner level done) level) (rounds.set level (done + 1)) 1 := by
  subst current
  rw [following, dif_pos inside, dif_pos more]

theorem following_of_spent (inside : level < n) (spent : rounds[level] = level) :
    following items rounds level = following items (rounds.set level 0) (level + 1) := by
  rw [following, dif_pos inside, dif_neg (by omega)]

theorem following_of_le (outside : n ≤ level) : following items rounds level = [] := by
  rw [following, dif_neg (by omega)]

/-- No round is over yet below a level. -/
def Fresh (rounds : Vector Nat n) (level : Nat) : Prop :=
  ∀ lower (inside : lower < n), lower < level → rounds[lower] = 0

theorem Fresh.set (fresh : Fresh rounds level) (inside : level < n) (round : Nat) :
    Fresh (rounds.set level round) level := by
  intro lower within below
  rw [Vector.getElem_set_ne inside within (by omega)]
  exact fresh lower within below

theorem Fresh.set_zero (fresh : Fresh rounds (level + 1)) (inside : level < n) :
    rounds.set level 0 = rounds := by
  conv_lhs => rw [← fresh level inside (Nat.lt_add_one level), Vector.set_getElem_self]

/-- All rounds below a level are always a sweep. -/
def Sweeps (α : Type u) (n level : Nat) : Prop :=
  ∀ (items : Vector α n) (rounds : Vector Nat n), items.toList.Nodup → Fresh rounds level →
    ∃ seen last, items :: following items rounds 1 = seen ++ following last rounds level ∧
      Sweep level 0 items seen last

theorem Sweeps.exists_rounds (sweeps : Sweeps α n level) (inside : level < n)
    (distinct : items.toList.Nodup) (fresh : Fresh rounds (level + 1)) (fits : done ≤ level) :
    ∃ seen last, items :: following items rounds 1 =
        seen ++ following last (rounds.set level done) level ∧
      Sweep level done items seen last := by
  have below : Fresh rounds level := fun lower within under => fresh lower within (by omega)
  induction done with
  | zero =>
    rw [fresh.set_zero inside]
    exact sweeps items rounds distinct below
  | succ done ih =>
    obtain ⟨seen, last, run, sweep⟩ := ih (by omega)
    have partnered : partner level done < n := Nat.lt_trans (partner_lt fits) inside
    have arranged : (last.swap (partner level done) level).toList.Nodup := by
      have perm := (Vector.swap_perm partnered inside).trans (sweep.perm last sweep.ends)
      exact perm.toList.nodup_iff.mpr distinct
    obtain ⟨more, final, runMore, under⟩ :=
      sweeps _ (rounds.set level (done + 1)) arranged (below.set inside _)
    refine ⟨seen ++ more, final, ?_, sweep.round distinct inside fits partnered rfl under⟩
    rw [run, following_of_more inside (Vector.getElem_set_self inside) fits partnered,
      Vector.set_set, runMore, List.append_assoc]

theorem sweeps (positive : 0 < level) (fits : level ≤ n) : Sweeps α n level := by
  induction level, positive using Nat.le_induction with
  | base => exact fun items _ _ _ => ⟨[items], items, rfl, .start items⟩
  | succ level positive ih =>
    intro items rounds distinct fresh
    have inside : level < n := fits
    obtain ⟨seen, last, run, sweep⟩ :=
      (ih (by omega)).exists_rounds inside distinct fresh (Nat.le_refl level)
    refine ⟨seen, last, ?_, sweep.ascend⟩
    rw [run, following_of_spent inside (Vector.getElem_set_self inside), Vector.set_set,
      fresh.set_zero inside]

end Sweeps

end Arrangement

/-- Distinct items have just their permutations as arrangements, each of them once. -/
theorem arrangements_perm {items : List α} (distinct : items.Nodup) :
    (arrangements items).Perm items.permutations := by
  rcases Nat.eq_zero_or_pos items.length with empty | positive
  · obtain rfl : items = [] := List.length_eq_zero_iff.mp empty
    simp [arrangements, Arrangement.following_of_le]
  · let first : Vector α items.length := ⟨items.toArray, List.size_toArray⟩
    have fresh : Arrangement.Fresh (Vector.replicate items.length 0) items.length := by
      intro lower inside _
      exact Vector.getElem_replicate inside
    obtain ⟨seen, last, run, sweep⟩ :=
      Arrangement.sweeps positive (Nat.le_refl _) first _ distinct fresh
    rw [Arrangement.following_of_le (Nat.le_refl _), List.append_nil] at run
    have listed : arrangements items = seen.map Vector.toList :=
      congrArg (List.map Vector.toList) run
    rw [listed]
    refine (List.subperm_of_subset ?_ ?_).perm_of_length_le ?_
    · exact sweep.nodup.map fun one other same => Vector.toList_inj.mp same
    · intro order member
      obtain ⟨arranged, among, rfl⟩ := List.mem_map.mp member
      exact List.mem_permutations.mpr (sweep.perm arranged among).toList
    · rw [List.length_map, sweep.count, List.length_permutations]
      omega

theorem mem_arrangements {items order : List α} (distinct : items.Nodup) :
    order ∈ arrangements items ↔ order.Perm items :=
  (arrangements_perm distinct).mem_iff.trans List.mem_permutations

theorem nodup_arrangements {items : List α} (distinct : items.Nodup) :
    (arrangements items).Nodup :=
  (arrangements_perm distinct).nodup_iff.mpr (List.nodup_permutations items distinct)

/-! ### The loop -/

namespace Arrangement

/-- The search for arrangements between two turns of its loop. Items and rounds are changed in
place. -/
structure Loop (α : Type u) (n : Nat) where
  items : Vector α n
  rounds : Vector Nat n
  level : Nat
  visited : List (Vector α n)

namespace Loop

/-- The loop before its first turn, with the items visited as they came. -/
def start (items : List α) : Loop α items.length where
  items := ⟨items.toArray, List.size_toArray⟩
  rounds := Vector.replicate items.length 0
  level := 1
  visited := [⟨items.toArray, List.size_toArray⟩]

/-- A turn makes a round of the level at hand and visits what it comes to, or, where all rounds of
the level are over, goes on to the next one. There is no turn above the last level. -/
def turn? (loop : Loop α n) : Option (Loop α n) :=
  if inside : loop.level < n then
    if more : loop.rounds[loop.level] < loop.level then
      let next := loop.items.swap (partner loop.level loop.rounds[loop.level]) loop.level
        (Nat.lt_trans (partner_lt more) inside)
      some
        { items := next
          rounds := loop.rounds.set loop.level (loop.rounds[loop.level] + 1)
          level := 1
          visited := loop.visited ++ [next] }
    else
      some { loop with rounds := loop.rounds.set loop.level 0, level := loop.level + 1 }
  else none

/-- One loop comes to another by turns. -/
def Leads : Loop α n → Loop α n → Prop :=
  Relation.ReflTransGen fun loop later => loop.turn? = some later

/-- The loop comes to an end. By then it has visited all that follows, in order. -/
theorem exists_end (items : Vector α n) (rounds : Vector Nat n) (level : Nat)
    (visited : List (Vector α n)) :
    ∃ last : Loop α n, Leads ⟨items, rounds, level, visited⟩ last ∧ last.turn? = none ∧
      last.visited = visited ++ following items rounds level := by
  fun_induction following items rounds level generalizing visited with
  | case1 items rounds level inside more below next ih =>
    obtain ⟨last, leads, ends, seen⟩ := ih (visited ++ [next])
    refine ⟨last, .head ?_ leads, ends, by rw [seen, List.append_assoc, List.singleton_append]⟩
    rw [turn?, dif_pos inside, dif_pos more]
  | case2 items rounds level inside spent ih =>
    obtain ⟨last, leads, ends, seen⟩ := ih visited
    refine ⟨last, .head ?_ leads, ends, seen⟩
    rw [turn?, dif_pos inside, dif_neg spent]
  | case3 items rounds level outside =>
    exact ⟨_, .refl, by rw [turn?, dif_neg outside], (List.append_nil visited).symm⟩

end Loop

end Arrangement

/-- The loop over any number of distinct items comes to an end. By then it has visited as many
arrangements as the factorial of their number: each arrangement of the items once and nothing
else. -/
theorem arrangements_once [DecidableEq α] {items : List α} (distinct : items.Nodup) :
    (∃ last, (Arrangement.Loop.start items).Leads last ∧ last.turn? = none ∧
      last.visited.map Vector.toList = arrangements items) ∧
    (arrangements items).length = items.length.factorial ∧
    ∀ order, (arrangements items).count order = if order.Perm items then 1 else 0 := by
  refine ⟨?_, ?_, fun order => ?_⟩
  · obtain ⟨last, leads, ends, seen⟩ :=
      Arrangement.Loop.exists_end ⟨items.toArray, List.size_toArray⟩
        (Vector.replicate items.length 0) 1 [⟨items.toArray, List.size_toArray⟩]
    exact ⟨last, leads, ends, congrArg (List.map Vector.toList) seen⟩
  · rw [(arrangements_perm distinct).length_eq, List.length_permutations]
  · split
    · rename_i arranged
      exact List.count_eq_one_of_mem (nodup_arrangements distinct)
        ((mem_arrangements distinct).mpr arranged)
    · rename_i other
      exact List.count_eq_zero.mpr fun member => other ((mem_arrangements distinct).mp member)

/-- An even number of items: rounds of odd and of even levels are made. -/
theorem arrangements_once_four :
    ([7, 0, 255, 3] : List UInt8).Nodup ∧
    (arrangements ([7, 0, 255, 3] : List UInt8)).length = 24 ∧
    (arrangements ([7, 0, 255, 3] : List UInt8)).count [3, 7, 255, 0] = 1 ∧
    (arrangements ([7, 0, 255, 3] : List UInt8)).count [3, 7, 3, 0] = 0 := by
  have distinct : ([7, 0, 255, 3] : List UInt8).Nodup := by decide
  obtain ⟨-, length, count⟩ := arrangements_once distinct
  exact ⟨distinct, length, (count _).trans (by decide), (count _).trans (by decide)⟩

end CilRecovery
