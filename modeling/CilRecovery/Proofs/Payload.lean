import Mathlib.Data.List.Basic
import CilRecovery.Stream.Blocks
import CilRecovery.Proofs.Outcome

/-!
What a block resource holds. The payloads of the blocks before the first that does not decrypt make
up one plain text, and whatever has been decrypted and learnt before, a read gives bytes of it.
-/
namespace CilRecovery.Stream

open Cipher (PublicKey)

namespace Blocks

/-- The payload of a block, if it decrypts. -/
def payload? (key : PublicKey) (data : Bytes) (index : Nat) : Option Bytes :=
  (key.decryptBlock (data.slice (index * key.blockSize) key.blockSize)).toOption

/-- A block does not decrypt, and the cause of that. -/
def FailsAt (key : PublicKey) (data : Bytes) (index : Nat) (cause : Error) : Prop :=
  key.decryptBlock (data.slice (index * key.blockSize) key.blockSize) = .error cause

theorem FailsAt.payload? {key : PublicKey} {data : Bytes} {index : Nat} {cause : Error}
    (fails : FailsAt key data index cause) : payload? key data index = none := by
  rw [Blocks.payload?, fails]
  rfl

/-- The payloads of at most `left` blocks from `index` on, up to the first that does not decrypt. -/
def payloadsFrom (key : PublicKey) (data : Bytes) (index : Nat) : (left : Nat) → List Bytes
  | 0 => []
  | left + 1 =>
    match payload? key data index with
    | none => []
    | some payload => payload :: payloadsFrom key data (index + 1) left

/-- The payloads of the blocks before the first that does not decrypt. -/
def payloadsOf (key : PublicKey) (data : Bytes) : List Bytes :=
  payloadsFrom key data 0 (data.length / key.blockSize)

/-- The logical stream: the payloads one after the other. -/
def wholeOf (key : PublicKey) (data : Bytes) : Bytes := (payloadsOf key data).flatten

/-- The plain text of a resource: what follows the length header, as far as it announces. -/
def plainOf (key : PublicKey) (data : Bytes) : Bytes :=
  ((wholeOf key data).drop headerSize).take (Bytes.toNat ((wholeOf key data).take headerSize))

section Payloads

variable {key : PublicKey} {data : Bytes} {index left : Nat}

theorem length_payloadsFrom_le : (payloadsFrom key data index left).length ≤ left := by
  induction left generalizing index with
  | zero => simp [payloadsFrom]
  | succ left ih =>
    rw [payloadsFrom]
    split
    · simp
    · simpa using ih

theorem payload?_of_getElem?_payloadsFrom {place : Nat} {payload : Bytes}
    (found : (payloadsFrom key data index left)[place]? = some payload) :
    payload? key data (index + place) = some payload := by
  induction left generalizing index place with
  | zero => simp [payloadsFrom] at found
  | succ left ih =>
    rw [payloadsFrom] at found
    split at found
    · simp at found
    · rename_i first known
      cases place with
      | zero => simpa [known] using found
      | succ place =>
        rw [← Nat.add_assoc, Nat.add_right_comm]
        exact ih (by simpa using found)

/-- The block at which the payloads end early does not decrypt. -/
theorem payload?_length_payloadsFrom (short : (payloadsFrom key data index left).length < left) :
    payload? key data (index + (payloadsFrom key data index left).length) = none := by
  induction left generalizing index with
  | zero => simp at short
  | succ left ih =>
    rw [payloadsFrom] at short ⊢
    split
    · assumption
    · rename_i first known
      rw [known] at short
      rw [List.length_cons, ← Nat.add_assoc, Nat.add_right_comm]
      exact ih (by simpa using short)

theorem length_payloadsOf_le : (payloadsOf key data).length ≤ data.length / key.blockSize :=
  length_payloadsFrom_le

theorem payload?_of_getElem? {place : Nat} {payload : Bytes}
    (found : (payloadsOf key data)[place]? = some payload) :
    payload? key data place = some payload := by
  simpa using payload?_of_getElem?_payloadsFrom found

/-- The next block behind some of the payloads is the next payload. -/
theorem getElem?_of_payload? {known : Nat} {payload : Bytes}
    (reached : known ≤ (payloadsOf key data).length) (inside : known < data.length / key.blockSize)
    (decrypts : payload? key data known = some payload) :
    (payloadsOf key data)[known]? = some payload := by
  rcases Nat.lt_or_eq_of_le reached with more | last
  · have found := List.getElem?_eq_getElem more
    rw [found, ← payload?_of_getElem? found, decrypts]
  · have stuck : payload? key data (0 + (payloadsOf key data).length) = none :=
      payload?_length_payloadsFrom (last ▸ inside)
    rw [Nat.zero_add, ← last, decrypts] at stuck
    cases stuck

theorem length_of_payload?_eq_none {known : Nat} (reached : known ≤ (payloadsOf key data).length)
    (fails : payload? key data known = none) : known = (payloadsOf key data).length := by
  rcases Nat.lt_or_eq_of_le reached with more | last
  · rw [payload?_of_getElem? (List.getElem?_eq_getElem more)] at fails
    cases fails
  · exact last

end Payloads

/-- The logical starts of payloads and the end of the last of them. -/
def starts : (first : Nat) → List Bytes → List Nat
  | first, [] => [first]
  | first, payload :: rest => first :: starts (first + payload.length) rest

section Starts

variable {first : Nat} {payloads : List Bytes}

@[simp]
theorem length_starts (first : Nat) (payloads : List Bytes) :
    (starts first payloads).length = payloads.length + 1 := by
  induction payloads generalizing first with
  | nil => rfl
  | cons payload rest ih => simp [starts, ih]

theorem getLastD_starts (first : Nat) (payloads : List Bytes) (other : Nat) :
    (starts first payloads).getLastD other = first + payloads.flatten.length := by
  induction payloads generalizing first other with
  | nil => simp [starts]
  | cons payload rest ih =>
    rw [starts, List.getLastD_cons, ih, List.flatten_cons, List.length_append, Nat.add_assoc]

theorem starts_snoc (first : Nat) (payloads : List Bytes) (payload : Bytes) :
    starts first (payloads ++ [payload]) =
      starts first payloads ++ [first + payloads.flatten.length + payload.length] := by
  induction payloads generalizing first with
  | nil => simp [starts]
  | cons head rest ih => simp [starts, ih, Nat.add_assoc]

/-- The starts up to a position end at the block that holds the position, whether or not empty
blocks stand before it. -/
theorem exists_block {position : Nat} (begun : first ≤ position)
    (inside : position < first + payloads.flatten.length) :
    ∃ index payload rest,
      ((starts first payloads).takeWhile (· ≤ position)).length = index + 1 ∧
      payloads[index]? = some payload ∧
      (starts first payloads).getD index 0 ≤ position ∧
      position - (starts first payloads).getD index 0 < payload.length ∧
      payloads.flatten.drop (position - first) =
        payload.drop (position - (starts first payloads).getD index 0) ++ rest := by
  induction payloads generalizing first with
  | nil =>
    simp only [List.flatten_nil, List.length_nil] at inside
    omega
  | cons payload rest ih =>
    rw [List.flatten_cons, List.length_append] at inside
    rw [starts, List.takeWhile_cons_of_pos (by simpa using begun), List.flatten_cons]
    by_cases here : position < first + payload.length
    · have stops : (starts (first + payload.length) rest).takeWhile (· ≤ position) = [] := by
        cases rest <;> simp [starts, here]
      refine ⟨0, payload, rest.flatten, by rw [stops]; rfl, rfl, begun, ?_, ?_⟩
      · rw [List.getD_cons_zero]
        omega
      · rw [List.getD_cons_zero, List.drop_append_of_le_length (by omega)]
    · obtain ⟨index, found, later, count, is, before, short, splits⟩ :=
        ih (Nat.not_lt.mp here) (by omega)
      refine ⟨index + 1, found, later, by rw [List.length_cons, count], is, ?_, ?_, ?_⟩
      · rwa [List.getD_cons_succ]
      · rwa [List.getD_cons_succ]
      · rw [List.getD_cons_succ, List.drop_append, List.drop_eq_nil_of_le (by omega),
          List.nil_append, Nat.sub_sub, splits]

end Starts

/-- A block and a place in it at which a position of the payloads lies. -/
structure Holds (payloads : List Bytes) (position : Nat) (place : Nat × Nat) : Prop where
  holds : ∃ payload rest, payloads[place.1]? = some payload ∧ place.2 < payload.length ∧
    payloads.flatten.drop position = payload.drop place.2 ++ rest

theorem Holds.append {payloads : List Bytes} {position : Nat} {place : Nat × Nat}
    (held : Holds payloads position place) (more : List Bytes)
    (inside : position < payloads.flatten.length) : Holds (payloads ++ more) position place := by
  obtain ⟨payload, rest, found, short, splits⟩ := held
  refine ⟨payload, rest ++ more.flatten, ?_, short, ?_⟩
  · rw [List.getElem?_append_left (List.getElem?_eq_some_iff.mp found).1, found]
  · rw [List.flatten_append, List.drop_append_of_le_length (by omega), splits, List.append_assoc]

/-- A position is found exactly if it lies before the end of the payloads. -/
theorem search?_starts (payloads : List Bytes) (position : Nat) :
    if position < payloads.flatten.length then
      ∃ place, search? (starts 0 payloads) position = some place ∧ Holds payloads position place
    else search? (starts 0 payloads) position = none := by
  simp only [search?, getLastD_starts, Nat.zero_add]
  split
  · rename_i inside
    obtain ⟨index, payload, rest, count, found, before, short, splits⟩ :=
      exists_block (Nat.zero_le position) (by rwa [Nat.zero_add])
    rw [count, Nat.add_sub_cancel]
    exact ⟨_, rfl, payload, rest, found, short, splits⟩
  · rfl

/-- What has been decrypted and learnt is right. -/
structure Sound (blocks : Blocks) : Prop where
  cached : ∀ index payload, blocks.cache.lookup index = some payload →
    payload? blocks.key blocks.data index = some payload
  learnt : ∃ known ≤ (payloadsOf blocks.key blocks.data).length,
    blocks.offsets = starts 0 ((payloadsOf blocks.key blocks.data).take known)

/-- The same resource, of which other things may have been decrypted and learnt. -/
structure SameResource (before after : Blocks) : Prop where
  sound : after.Sound
  key : after.key = before.key
  data : after.data = before.data
  payloadLength : after.payloadLength = before.payloadLength

theorem SameResource.trans {first second third : Blocks} (now : first.SameResource second)
    (later : second.SameResource third) : first.SameResource third where
  sound := later.sound
  key := later.key.trans now.key
  data := later.data.trans now.data
  payloadLength := later.payloadLength.trans now.payloadLength

theorem Sound.refl {blocks : Blocks} (sound : blocks.Sound) : blocks.SameResource blocks :=
  ⟨sound, rfl, rfl, rfl⟩

section Operations

variable {blocks : Blocks} {index : Nat}

theorem mul_blockSize_lt (inside : index < blocks.count) :
    index * blocks.key.blockSize < blocks.data.length := by
  have positive : 0 < blocks.key.blockSize := by
    rcases Nat.eq_zero_or_pos blocks.key.blockSize with zero | positive
    · rw [count, zero, Nat.div_zero] at inside
      omega
    · exact positive
  calc index * blocks.key.blockSize
    _ < blocks.count * blocks.key.blockSize := Nat.mul_lt_mul_of_pos_right inside positive
    _ ≤ blocks.data.length := Nat.div_mul_le_self _ _

theorem decryptUncached_reaches (sound : blocks.Sound) (index : Nat) :
    Reaches (decryptUncached index) blocks
      (fun payload after => blocks.SameResource after ∧ after.offsets = blocks.offsets ∧
        payload? blocks.key blocks.data index = some payload)
      (fun e after => blocks.SameResource after ∧
        (index < blocks.count → FailsAt blocks.key blocks.data index e)) := by
  have counted : blocks.SameResource { blocks with decryptions := blocks.decryptions + 1 } :=
    ⟨⟨sound.cached, sound.learnt⟩, rfl, rfl, rfl⟩
  refine .get_bind ?_
  dsimp only
  split
  · refine .set_bind ?_
    cases result : blocks.key.decryptBlock
      (blocks.data.slice (index * blocks.key.blockSize) blocks.key.blockSize) with
    | ok payload => exact .pure ⟨counted, rfl, by rw [payload?, result]; rfl⟩
    | error e => exact .throw ⟨counted, fun _ => result⟩
  · rename_i outside
    exact .throw ⟨sound.refl, fun inside => absurd (mul_blockSize_lt inside) outside⟩

/-- A payload that is entered as it decrypts keeps the cache right. -/
theorem SameResource.enter {after : Blocks} (same : blocks.SameResource after) {payload : Bytes}
    (decrypts : payload? blocks.key blocks.data index = some payload) :
    blocks.SameResource { after with cache := (index, payload) :: after.cache } := by
  refine ⟨⟨?_, same.sound.learnt⟩, same.key, same.data, same.payloadLength⟩
  intro other found there
  rw [List.lookup_cons] at there
  split at there
  · rename_i equal
    rw [beq_iff_eq.mp equal, ← Option.some.inj there, same.key, same.data, decrypts]
  · exact same.sound.cached other found there

/-- However often a block is asked for, it has its payload. -/
theorem block_reaches (sound : blocks.Sound) (index : Nat) :
    Reaches (block index) blocks
      (fun payload after => blocks.SameResource after ∧ after.offsets = blocks.offsets ∧
        payload? blocks.key blocks.data index = some payload)
      (fun e after => blocks.SameResource after ∧
        (index < blocks.count → FailsAt blocks.key blocks.data index e)) := by
  refine .get_bind ?_
  split
  · rename_i payload there
    exact .pure ⟨sound.refl, rfl, sound.cached index payload there⟩
  · refine .bind <| (decryptUncached_reaches sound index).mono ?_ fun _ _ => id
    rintro payload between ⟨same, kept, decrypts⟩
    exact .modify_bind (.pure ⟨same.enter decrypts, kept, decrypts⟩)

/-- What a search for a position finds. -/
def Found (payloads : List Bytes) (position : Nat) : Option (Nat × Nat) → Prop
  | some place => Holds payloads position place
  | none => payloads.flatten.length ≤ position

theorem Sound.search? (sound : blocks.Sound) (position : Nat) :
    (∃ place, Blocks.search? blocks.offsets position = some place ∧
      Holds (payloadsOf blocks.key blocks.data) position place) ∨
    Blocks.search? blocks.offsets position = none ∧
      ∃ known ≤ (payloadsOf blocks.key blocks.data).length, blocks.offsets.length = known + 1 ∧
        blocks.offsets = starts 0 ((payloadsOf blocks.key blocks.data).take known) ∧
        ((payloadsOf blocks.key blocks.data).take known).flatten.length ≤ position := by
  obtain ⟨known, reached, offsets⟩ := sound.learnt
  have searched := search?_starts ((payloadsOf blocks.key blocks.data).take known) position
  rw [← offsets] at searched
  split at searched
  · rename_i inside
    obtain ⟨place, found, held⟩ := searched
    have whole := held.append ((payloadsOf blocks.key blocks.data).drop known) inside
    rw [List.take_append_drop] at whole
    exact .inl ⟨place, found, whole⟩
  · rename_i outside
    refine .inr ⟨searched, known, reached, ?_, offsets, Nat.not_lt.mp outside⟩
    rw [offsets, length_starts, List.length_take_of_le reached]

/-- The start behind the next payload can be learnt. -/
theorem SameResource.learn {after : Blocks} (same : blocks.SameResource after) {known : Nat}
    {payload : Bytes} (offsets : after.offsets =
      starts 0 ((payloadsOf blocks.key blocks.data).take known))
    (next : (payloadsOf blocks.key blocks.data)[known]? = some payload) :
    blocks.SameResource { after with
      offsets := after.offsets ++ [after.offsets.getLastD 0 + payload.length] } := by
  refine ⟨⟨same.sound.cached, known + 1, ?_, ?_⟩, same.key, same.data, same.payloadLength⟩
  · rw [same.key, same.data]
    exact (List.getElem?_eq_some_iff.mp next).1
  · dsimp only
    rw [same.key, same.data, List.take_add_one, next, Option.toList_some, starts_snoc, ← offsets,
      offsets, getLastD_starts]

/-- The payloads end early, at a block that does not decrypt. -/
def IsBroken (blocks : Blocks) : Prop :=
  (payloadsOf blocks.key blocks.data).length < blocks.count

theorem SameResource.isBroken {after : Blocks} (same : blocks.SameResource after) :
    after.IsBroken ↔ blocks.IsBroken := by
  rw [IsBroken, IsBroken, count, count, same.key, same.data]

/-- The payloads end early for some cause. -/
structure BreaksWith (blocks : Blocks) (cause : Error) : Prop where
  isBroken : blocks.IsBroken
  fails : FailsAt blocks.key blocks.data (payloadsOf blocks.key blocks.data).length cause

theorem SameResource.breaksWith {after : Blocks} (same : blocks.SameResource after)
    {cause : Error} : after.BreaksWith cause ↔ blocks.BreaksWith cause := by
  constructor
  · rintro ⟨broken, fails⟩
    exact ⟨same.isBroken.mp broken, by rwa [same.key, same.data] at fails⟩
  · rintro ⟨broken, fails⟩
    exact ⟨same.isBroken.mpr broken, by rwa [same.key, same.data]⟩

/-- A position is looked up among all payloads. It is not found only behind them, and the lookup
fails there if the payloads end early. -/
theorem locateWithin_reaches (sound : blocks.Sound) (position : Nat) {unknown : Nat}
    (left : unknown = blocks.count - (blocks.offsets.length - 1)) :
    Reaches (locateWithin position unknown) blocks
      (fun found after => blocks.SameResource after ∧
        Found (payloadsOf blocks.key blocks.data) position found ∧
        (found = none → ¬ blocks.IsBroken))
      (fun e after => blocks.SameResource after ∧ blocks.BreaksWith e ∧
        (payloadsOf blocks.key blocks.data).flatten.length ≤ position) := by
  have bound : (payloadsOf blocks.key blocks.data).length ≤ blocks.count := length_payloadsOf_le
  induction unknown generalizing blocks with
  | zero =>
    refine .get_bind (.pure ⟨sound.refl, ?_⟩)
    rcases sound.search? position with ⟨place, found, held⟩ | ⟨found, known, reached, size, _, past⟩
    · rw [found]
      exact ⟨held, nofun⟩
    · rw [List.take_of_length_le (by omega)] at past
      rw [found]
      exact ⟨past, fun _ => Nat.not_lt.mpr (by omega)⟩
  | succ unknown ih =>
    refine .get_bind ?_
    rcases sound.search? position with
      ⟨place, found, held⟩ | ⟨found, known, reached, size, offsets, past⟩
    · rw [found]
      exact .pure ⟨sound.refl, held, nofun⟩
    · rw [found]
      refine .get_bind ?_
      dsimp only
      rw [show blocks.offsets.length - 1 = known by omega]
      have inside : known < blocks.count := by omega
      refine .bind <| (block_reaches sound known).mono ?_ ?_
      · rintro payload between ⟨same, kept, decrypts⟩
        have next := getElem?_of_payload? reached inside decrypts
        refine .modify_bind ?_
        have learnt := same.learn (kept.trans offsets) next
        rw [kept] at learnt
        have payloads :
            payloadsOf between.key between.data = payloadsOf blocks.key blocks.data := by
          rw [same.key, same.data]
        have count : between.data.length / between.key.blockSize = blocks.count := by
          rw [same.key, same.data, Blocks.count]
        have left' : unknown = between.data.length / between.key.blockSize -
            ((blocks.offsets ++ [blocks.offsets.getLastD 0 + payload.length]).length - 1) := by
          rw [count, List.length_append, List.length_singleton]
          omega
        have later := ih learnt.sound left' (by
          dsimp only
          rw [payloads, Blocks.count, count]
          exact bound)
        dsimp only at later
        rw [payloads] at later
        exact later.mono
          (fun _ _ ⟨again, is, whole⟩ =>
            ⟨learnt.trans again, is, fun none => mt learnt.isBroken.mpr (whole none)⟩)
          fun _ _ ⟨again, breaks, is⟩ =>
            ⟨learnt.trans again, learnt.breaksWith.mp breaks, is⟩
      · rintro e after ⟨same, fails⟩
        have fails := fails inside
        have last := length_of_payload?_eq_none reached fails.payload?
        rw [List.take_of_length_le (by omega)] at past
        exact ⟨same, ⟨Nat.lt_of_le_of_lt (Nat.le_of_eq last.symm) inside, last ▸ fails⟩, past⟩

theorem locate_reaches (sound : blocks.Sound) (position : Nat) :
    Reaches (locate position) blocks
      (fun found after => blocks.SameResource after ∧
        Found (payloadsOf blocks.key blocks.data) position found ∧
        (found = none → ¬ blocks.IsBroken))
      (fun e after => blocks.SameResource after ∧ blocks.BreaksWith e ∧
        (payloadsOf blocks.key blocks.data).flatten.length ≤ position) :=
  .get_bind (locateWithin_reaches sound position rfl)

/-- The plain text behind the length header, as far as the header announced. -/
def plain (blocks : Blocks) : Bytes :=
  ((wholeOf blocks.key blocks.data).drop headerSize).take blocks.payloadLength

theorem SameResource.plain {after : Blocks} (same : blocks.SameResource after) :
    after.plain = blocks.plain := by
  rw [Blocks.plain, Blocks.plain, same.key, same.data, same.payloadLength]

/-- What stands in a block from a place on stands in the plain text from the position on. -/
theorem slice_plain {position offset : Nat} {payload rest : Bytes}
    (splits : (wholeOf blocks.key blocks.data).drop (position + headerSize) =
      payload.drop offset ++ rest) (count : Nat) :
    payload.slice offset (min (blocks.payloadLength - position) count) =
      blocks.plain.slice position
        (payload.slice offset (min (blocks.payloadLength - position) count)).length := by
  have ahead : blocks.plain.drop position =
      (payload.drop offset ++ rest).take (blocks.payloadLength - position) := by
    rw [plain, List.drop_take, List.drop_drop, Nat.add_comm headerSize, splits]
  simp only [Bytes.slice, ahead, List.length_take, List.length_drop]
  rw [List.take_take, List.take_append_of_le_length (by rw [List.length_drop]; omega)]
  apply List.take_eq_take_iff.mpr
  rw [List.length_drop]
  omega

/-- A read gives the next bytes of the plain text, some if any are left and wanted. Behind them, and
before the end that the header announced, it fails if the payloads end early. -/
theorem readAt_reaches (sound : blocks.Sound) (position count : Nat) :
    Reaches (readAt position count) blocks
      (fun bytes after => blocks.SameResource after ∧ bytes.length ≤ count ∧
        bytes = blocks.plain.slice position bytes.length ∧
        (0 < count → position < blocks.plain.length → bytes ≠ []) ∧
        (0 < count → position < blocks.payloadLength → bytes = [] → ¬ blocks.IsBroken))
      (fun e after => blocks.SameResource after ∧ blocks.BreaksWith e ∧ 0 < count ∧
        blocks.plain.length ≤ position ∧ position < blocks.payloadLength) := by
  have size : blocks.plain.length =
      min blocks.payloadLength ((wholeOf blocks.key blocks.data).length - headerSize) := by
    rw [plain, List.length_take, List.length_drop]
  refine .get_bind ?_
  dsimp only
  split
  · rename_i nothing
    refine .pure ⟨sound.refl, by simp, by simp [Bytes.slice], fun wanted inside => ?_,
      fun wanted inside => ?_⟩ <;> omega
  · rename_i something
    refine .bind <| (locate_reaches sound (position + headerSize)).mono ?_ ?_
    · rintro found between ⟨same, is, whole⟩
      cases found with
      | none =>
        have past : (wholeOf blocks.key blocks.data).length ≤ position + headerSize := is
        refine .pure ⟨same, by simp, by simp [Bytes.slice], fun wanted inside => ?_,
          fun _ _ _ => whole rfl⟩
        omega
      | some place =>
        obtain ⟨index, offset⟩ := place
        obtain ⟨payload, rest, there, short, splits⟩ := is
        dsimp only at there short splits ⊢
        refine .bind <| (block_reaches same.sound index).mono ?_ ?_
        · rintro found after ⟨again, _, decrypts⟩
          have is : found = payload := by
            rw [same.key, same.data, payload?_of_getElem? there] at decrypts
            exact (Option.some.inj decrypts).symm
          subst is
          have some_ : 0 < count → position < blocks.payloadLength →
              found.slice offset (min (blocks.payloadLength - position) count) ≠ [] := by
            intro wanted inside
            apply List.ne_nil_of_length_pos
            rw [Bytes.slice, List.length_take, List.length_drop]
            omega
          refine .pure ⟨same.trans again, ?_, slice_plain splits count, fun wanted inside => ?_,
            fun wanted inside none => absurd none (some_ wanted inside)⟩
          · rw [Bytes.slice, List.length_take]
            omega
          · exact some_ wanted (by omega)
        · rintro e after ⟨again, fails⟩
          have inside : index < between.count := by
            rw [Blocks.count, same.key, same.data]
            exact Nat.lt_of_lt_of_le (List.getElem?_eq_some_iff.mp there).1 length_payloadsOf_le
          have undecrypted := (fails inside).payload?
          rw [same.key, same.data, payload?_of_getElem? there] at undecrypted
          cases undecrypted
    · rintro e after ⟨same, breaks, past⟩
      have past : (wholeOf blocks.key blocks.data).length ≤ position + headerSize := past
      refine ⟨same, breaks, ?_, ?_, ?_⟩ <;> omega

/-- The length header stands at the start of the logical stream and announces no more than full
blocks could hold. -/
theorem lengthHeader_reaches (sound : blocks.Sound) (some_ : 0 < blocks.count) :
    Reaches lengthHeader blocks
      (fun length after => blocks.SameResource after ∧
        length = Bytes.toNat ((wholeOf blocks.key blocks.data).take headerSize) ∧
        headerSize ≤ (wholeOf blocks.key blocks.data).length ∧
        length + headerSize ≤ blocks.count * (blocks.key.blockSize - 3))
      (fun _ _ => True) := by
  refine .bind <| (block_reaches sound 0).mono ?_ fun _ _ _ => trivial
  rintro first between ⟨same, _, decrypts⟩
  dsimp only
  split
  · exact .throw trivial
  · rename_i enough
    refine .get_bind ?_
    split
    · exact .throw trivial
    · rename_i room
      obtain ⟨rest, payloads⟩ : ∃ rest, payloadsOf blocks.key blocks.data = first :: rest := by
        have found := getElem?_of_payload? (Nat.zero_le _) some_ decrypts
        cases is : payloadsOf blocks.key blocks.data with
        | nil => simp [is] at found
        | cons head rest => simpa [is] using found
      have whole : wholeOf blocks.key blocks.data = first ++ rest.flatten := by
        rw [wholeOf, payloads, List.flatten_cons]
      refine .pure ⟨same, ?_, ?_, ?_⟩
      · rw [whole, List.take_append_of_le_length (by omega)]
      · rw [whole, List.length_append]
        omega
      · rw [same.key, Blocks.count, same.key, same.data] at room
        exact Nat.not_lt.mp room

end Operations

/-- What opening a resource has found out: it is in order, and its header announces some length that
full blocks could hold. -/
structure Opened (key : PublicKey) (data : Bytes) (blocks : Blocks) : Prop where
  sound : blocks.Sound
  hasKey : blocks.key = key
  hasData : blocks.data = data
  announced : blocks.payloadLength = Bytes.toNat ((wholeOf key data).take headerSize)
  header : headerSize ≤ (wholeOf key data).length
  room : blocks.payloadLength + headerSize ≤ blocks.count * (key.blockSize - 3)

theorem opened_of_ofResource {key : PublicKey} {data : Bytes} {blocks : Blocks}
    (opened : ofResource key data = .ok blocks) : Opened key data blocks := by
  rw [ofResource] at opened
  split at opened
  · cases opened
  · rename_i divides
    simp only [Bool.or_eq_true, List.isEmpty_iff, bne_iff_ne, not_or, not_not] at divides
    have start : Sound { key, data } := by
      refine ⟨?_, 0, Nat.zero_le _, rfl⟩
      intro index payload there
      cases there
    have some_ : 0 < Blocks.count { key, data } := by
      apply Nat.div_pos
      · exact Nat.le_of_dvd (List.length_pos_of_ne_nil divides.1) (Nat.dvd_of_mod_eq_zero divides.2)
      · apply Nat.pos_of_ne_zero
        intro zero
        rw [zero, Nat.mod_zero] at divides
        exact divides.1 (List.eq_nil_of_length_eq_zero divides.2)
    have reaches := (lengthHeader_reaches start some_).ends
    split at opened
    · rename_i length after ends
      rw [ends] at reaches
      cases opened
      obtain ⟨same, announced, header, room⟩ := reaches
      refine ⟨⟨same.sound.cached, same.sound.learnt⟩, same.key, same.data, announced, header, ?_⟩
      rw [Blocks.count, same.key, same.data]
      exact room
    · cases opened

/-- An opened resource is in order and has the plain text of its bytes. -/
theorem ofResource_sound {key : PublicKey} {data : Bytes} {blocks : Blocks}
    (opened : ofResource key data = .ok blocks) :
    blocks.Sound ∧ blocks.plain = plainOf key data := by
  have found := opened_of_ofResource opened
  refine ⟨found.sound, ?_⟩
  rw [plain, found.hasKey, found.hasData, found.announced, plainOf]

end Blocks

end CilRecovery.Stream
