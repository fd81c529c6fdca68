import Mathlib.Data.List.Nodup
import CilRecovery.Proofs.Announced

/-!
What a block resource keeps of its blocks. Whatever blocks, reads and seeks have been asked for, the
kept payloads and the known starts are those of the blocks, and each decryption that was tried
either entered a new block or failed.
-/
namespace CilRecovery

namespace Stream

open Cipher (PublicKey)

namespace Blocks

section Starts

variable {key : PublicKey} {data : Bytes}

/-- How much a block holds, if it decrypts. -/
def lengthAt (key : PublicKey) (data : Bytes) (index : Nat) : Nat :=
  ((payload? key data index).getD []).length

/-- The logical start of a block: how much the blocks before it hold. -/
def startAt (key : PublicKey) (data : Bytes) : (index : Nat) → Nat
  | 0 => 0
  | index + 1 => startAt key data index + lengthAt key data index

theorem lengthAt_of_getElem? {index : Nat} {payload : Bytes}
    (found : (payloadsOf key data)[index]? = some payload) :
    lengthAt key data index = payload.length := by
  rw [lengthAt, payload?_of_getElem? found, Option.getD_some]

theorem isSome_payload? {index : Nat} (inside : index < (payloadsOf key data).length) :
    (payload? key data index).isSome := by
  rw [payload?_of_getElem? (List.getElem?_eq_getElem inside)]
  rfl

/-- Before the first block that does not decrypt, the payloads add up to the start of a block. -/
theorem length_flatten_take_payloadsOf {index : Nat}
    (reached : index ≤ (payloadsOf key data).length) :
    ((payloadsOf key data).take index).flatten.length = startAt key data index := by
  induction index with
  | zero => rfl
  | succ index ih =>
    have next := List.getElem?_eq_getElem reached
    rw [List.take_add_one, next, Option.toList_some, List.flatten_concat, List.length_append,
      ih (Nat.le_of_succ_le reached), startAt, lengthAt_of_getElem? next]

theorem length_flatten_payloadsOf :
    (payloadsOf key data).flatten.length = startAt key data (payloadsOf key data).length := by
  rw [← length_flatten_take_payloadsOf (Nat.le_refl _), List.take_length]

theorem starts_take_payloadsOf {known : Nat} (reached : known ≤ (payloadsOf key data).length) :
    starts 0 ((payloadsOf key data).take known) =
      (List.range (known + 1)).map (startAt key data) := by
  induction known with
  | zero => rfl
  | succ known ih =>
    have next := List.getElem?_eq_getElem reached
    have before := Nat.le_of_succ_le reached
    rw [List.take_add_one, next, Option.toList_some, starts_snoc, ih before, Nat.zero_add,
      length_flatten_take_payloadsOf before, @List.range_succ (known + 1), List.map_append,
      List.map_singleton, startAt, lengthAt_of_getElem? next]

theorem getD_starts (first : Nat) (payloads : List Bytes) {index : Nat}
    (inside : index ≤ payloads.length) :
    (starts first payloads).getD index 0 = first + (payloads.take index).flatten.length := by
  induction payloads generalizing first index with
  | nil =>
    cases Nat.le_zero.mp inside
    rfl
  | cons payload rest ih =>
    cases index with
    | zero => rfl
    | succ index =>
      rw [starts, List.getD_cons_succ, ih _ (Nat.le_of_succ_le_succ inside), List.take_succ_cons,
        List.flatten_cons, List.length_append, Nat.add_assoc]

/-- A search finds a block and the place in it at which the position lies. Of blocks with one start
it is the last, which is the one that is not empty. -/
theorem place_of_search? {payloads : List Bytes} {position index offset : Nat}
    (found : search? (starts 0 payloads) position = some (index, offset)) :
    ∃ payload, payloads[index]? = some payload ∧ offset < payload.length ∧
      (payloads.take index).flatten.length + offset = position := by
  simp only [search?, getLastD_starts, Nat.zero_add] at found
  split at found
  · rename_i inside
    obtain ⟨index', payload, rest, count, there, before, short, _⟩ :=
      exists_block (Nat.zero_le position) (by rwa [Nat.zero_add])
    rw [count, Nat.add_sub_cancel] at found
    obtain ⟨rfl, rfl⟩ := Prod.mk.inj (Option.some.inj found)
    refine ⟨payload, there, short, ?_⟩
    have start := getD_starts 0 payloads (Nat.le_of_lt (List.getElem?_eq_some_iff.mp there).1)
    omega
  · cases found

end Starts

/-- What looking a position up may come to. It is found in a block that holds it, or it lies behind
all blocks, or behind those before one that does not decrypt. -/
def Locates (key : PublicKey) (data : Bytes) (position : Nat) :
    Except Error (Option (Nat × Nat)) → Prop
  | .ok (some (index, offset)) =>
    index < data.length / key.blockSize ∧ (∀ other ≤ index, (payload? key data other).isSome) ∧
      startAt key data index + offset = position ∧ offset < lengthAt key data index
  | .ok none =>
    Decrypts key data ∧ startAt key data (data.length / key.blockSize) ≤ position
  | .error cause =>
    ∃ index < data.length / key.blockSize, FailsAt key data index cause ∧
      startAt key data index ≤ position

section Lookup

variable {blocks : Blocks}

/-- A lookup gives what a search of the starts known in the end would give. -/
theorem locateWithin_search? (blocks : Blocks) (position unknown : Nat) :
    Reaches (locateWithin position unknown) blocks
      (fun found after => found = search? after.offsets position) (fun _ _ => True) := by
  induction unknown generalizing blocks with
  | zero => exact .get_bind (.pure rfl)
  | succ unknown ih =>
    refine .get_bind ?_
    split
    · rename_i found is
      exact .pure is.symm
    · exact .get_bind <| .any_bind fun _ _ => .modify_bind (ih _)

theorem Sound.locates {position index offset : Nat} (sound : blocks.Sound)
    (found : Blocks.search? blocks.offsets position = some (index, offset)) :
    Locates blocks.key blocks.data position (.ok (some (index, offset))) := by
  obtain ⟨known, reached, offsets⟩ := sound.learnt
  rw [offsets] at found
  obtain ⟨payload, there, short, sum⟩ := place_of_search? found
  have inside : index < known := by
    have inside := (List.getElem?_eq_some_iff.mp there).1
    rwa [List.length_take_of_le reached] at inside
  rw [List.getElem?_take_of_lt inside] at there
  rw [List.take_take, Nat.min_eq_left (Nat.le_of_lt inside),
    length_flatten_take_payloadsOf (by omega)] at sum
  refine ⟨?_, fun other before => isSome_payload? (by omega), sum, ?_⟩
  · exact Nat.lt_of_lt_of_le (Nat.lt_of_lt_of_le inside reached) length_payloadsOf_le
  · rwa [lengthAt_of_getElem? there]

/-- A lookup finds the block and the place in it that the lengths of the blocks say. -/
theorem locate_locates (sound : blocks.Sound) (position : Nat) :
    Reaches (locate position) blocks
      (fun found after => blocks.SameResource after ∧
        Locates blocks.key blocks.data position (.ok found))
      (fun e after => blocks.SameResource after ∧
        Locates blocks.key blocks.data position (.error e)) := by
  refine ((locate_reaches sound position).and
    (.get_bind (locateWithin_search? blocks position _))).mono ?_ ?_
  · rintro (_ | ⟨index, offset⟩) after ⟨⟨same, past, whole⟩, is⟩
    · have all : (payloadsOf blocks.key blocks.data).length =
          blocks.data.length / blocks.key.blockSize :=
        Nat.le_antisymm length_payloadsOf_le (Nat.not_lt.mp (whole rfl))
      refine ⟨same, fun index inside => isSome_payload? (all ▸ inside), ?_⟩
      rw [← all, ← length_flatten_payloadsOf]
      exact past
    · have located := same.sound.locates is.symm
      rw [same.key, same.data] at located
      exact ⟨same, located⟩
  · rintro e after ⟨⟨same, ⟨broken, fails⟩, past⟩, _⟩
    rw [length_flatten_payloadsOf] at past
    exact ⟨same, _, broken, fails, past⟩

end Lookup

/-- What operations on a resource, of which some failed, did to it: what they decrypted is kept
beside what was kept before, and each block was decrypted once, or in vain for one of the causes. -/
structure Spends (before after : Blocks) (causes : List Error) : Prop where
  key : after.key = before.key
  data : after.data = before.data
  kept : before.cache <:+ after.cache
  counted : after.decryptions + before.cache.length =
    before.decryptions + after.cache.length + causes.length
  inside : ∀ entry ∈ after.cache, entry ∈ before.cache ∨ entry.1 < before.count
  distinct : (before.cache.map Prod.fst).Nodup → (after.cache.map Prod.fst).Nodup
  tried : ∀ cause ∈ causes, ∃ index < before.count, FailsAt before.key before.data index cause

namespace Spends

variable {before between after : Blocks} {causes later : List Error}

theorem refl (blocks : Blocks) : blocks.Spends blocks [] :=
  ⟨rfl, rfl, List.suffix_refl _, rfl, fun _ => .inl, id, nofun⟩

theorem count (spends : before.Spends after causes) : after.count = before.count := by
  rw [Blocks.count, Blocks.count, spends.key, spends.data]

theorem trans (now : before.Spends between causes) (then_ : between.Spends after later) :
    before.Spends after (causes ++ later) where
  key := then_.key.trans now.key
  data := then_.data.trans now.data
  kept := now.kept.trans then_.kept
  counted := by
    have first := now.counted
    have second := then_.counted
    rw [List.length_append]
    omega
  inside := by
    intro entry member
    rcases then_.inside entry member with old | inside
    · exact now.inside entry old
    · exact .inr (now.count ▸ inside)
  distinct := then_.distinct ∘ now.distinct
  tried := by
    intro cause member
    rcases List.mem_append.mp member with first | second
    · exact now.tried cause first
    · have tried := then_.tried cause second
      rwa [now.count, now.key, now.data] at tried

/-- Learning starts or the announced length spends nothing. -/
theorem learn (spends : before.Spends after causes) (offsets : List Nat) (payloadLength : Nat) :
    before.Spends { after with offsets, payloadLength } causes :=
  ⟨spends.key, spends.data, spends.kept, spends.counted, spends.inside, spends.distinct,
    spends.tried⟩

end Spends

section Accounts

variable {blocks : Blocks}

theorem lt_count (whole : blocks.data.length % blocks.key.blockSize = 0) {index : Nat}
    (starts : index * blocks.key.blockSize < blocks.data.length) : index < blocks.count := by
  rw [← Nat.div_mul_cancel (Nat.dvd_of_mod_eq_zero whole)] at starts
  exact Nat.lt_of_mul_lt_mul_right starts

/-- A block in range is tried, for better or worse, and one out of range is not. -/
theorem decryptUncached_spends (whole : blocks.data.length % blocks.key.blockSize = 0)
    (index : Nat) :
    Reaches (decryptUncached index) blocks
      (fun _ after => index < blocks.count ∧
        after = { blocks with decryptions := blocks.decryptions + 1 })
      (fun e after => blocks.Spends after (if index < blocks.count then [e] else [])) := by
  refine .get_bind ?_
  dsimp only
  split
  · rename_i starts
    have inside := lt_count whole starts
    refine .set_bind ?_
    cases result : blocks.key.decryptBlock
      (blocks.data.slice (index * blocks.key.blockSize) blocks.key.blockSize) with
    | ok payload => exact .pure ⟨inside, rfl⟩
    | error e =>
      simp only [if_pos inside]
      refine .throw ⟨rfl, rfl, List.suffix_refl _, ?_, fun _ => .inl, id, ?_⟩
      · simp only [List.length_singleton]
        omega
      · intro cause member
        cases List.mem_singleton.mp member
        exact ⟨index, inside, result⟩
  · rename_i outside
    simp only [if_neg (mt mul_blockSize_lt outside)]
    exact .throw (.refl blocks)

/-- A block is entered the first time that it decrypts and not tried again. -/
theorem block_spends (whole : blocks.data.length % blocks.key.blockSize = 0) (index : Nat) :
    Reaches (block index) blocks (fun _ after => blocks.Spends after [])
      (fun e after => blocks.Spends after (if index < blocks.count then [e] else [])) := by
  refine .get_bind ?_
  split
  · exact .pure (.refl blocks)
  · rename_i absent
    refine .bind <| (decryptUncached_spends whole index).mono ?_ fun _ _ => id
    rintro payload _ ⟨inside, rfl⟩
    refine .modify_bind (.pure ⟨rfl, rfl, List.suffix_cons _ _, ?_, ?_, ?_, nofun⟩)
    · simp only [List.length_cons, List.length_nil]
      omega
    · intro entry member
      rcases List.mem_cons.mp member with rfl | old
      · exact .inr inside
      · exact .inl old
    · intro distinct
      refine List.nodup_cons.mpr ⟨fun member => ?_, distinct⟩
      obtain ⟨entry, there, is⟩ := List.mem_map.mp member
      have other := List.lookup_eq_none_iff.mp absent entry there
      rw [is, bne_self_eq_false] at other
      cases other

theorem locateWithin_spends (whole : blocks.data.length % blocks.key.blockSize = 0)
    (position : Nat) {unknown : Nat} (start : 0 < blocks.offsets.length)
    (left : unknown = blocks.count - (blocks.offsets.length - 1)) :
    Reaches (locateWithin position unknown) blocks (fun _ after => blocks.Spends after [])
      (fun e after => blocks.Spends after [e]) := by
  induction unknown generalizing blocks with
  | zero => exact .get_bind (.pure (.refl blocks))
  | succ unknown ih =>
    refine .get_bind ?_
    split
    · exact .pure (.refl blocks)
    · refine .get_bind <| .bind <| (block_spends whole _).mono ?_ ?_
      · intro payload between spends
        refine .modify_bind ?_
        have learnt := spends.learn
          (blocks.offsets ++ [blocks.offsets.getLastD 0 + payload.length]) between.payloadLength
        have size : (blocks.offsets ++ [blocks.offsets.getLastD 0 + payload.length]).length =
            blocks.offsets.length + 1 := List.length_append
        refine (ih ?_ ?_ ?_).mono (fun _ _ => learnt.trans) fun _ _ => learnt.trans
        · rw [learnt.data, learnt.key]
          exact whole
        · exact size ▸ Nat.succ_pos _
        · rw [learnt.count]
          dsimp only
          omega
      · intro e after spends
        rwa [if_pos (by omega)] at spends

theorem Sound.offsets_pos (sound : blocks.Sound) : 0 < blocks.offsets.length := by
  obtain ⟨known, _, offsets⟩ := sound.learnt
  rw [offsets, length_starts]
  exact Nat.succ_pos _

theorem locate_spends (sound : blocks.Sound)
    (whole : blocks.data.length % blocks.key.blockSize = 0) (position : Nat) :
    Reaches (locate position) blocks (fun _ after => blocks.Spends after [])
      (fun e after => blocks.Spends after [e]) :=
  .get_bind (locateWithin_spends whole position sound.offsets_pos rfl)

/-- A read fails only in a block that it tries. -/
theorem readAt_spends (sound : blocks.Sound)
    (whole : blocks.data.length % blocks.key.blockSize = 0) (position count : Nat) :
    Reaches (readAt position count) blocks (fun _ after => blocks.Spends after [])
      (fun e after => blocks.Spends after [e]) := by
  refine .get_bind ?_
  dsimp only
  split
  · exact .pure (.refl blocks)
  · refine .bind <| ((locate_locates sound (position + headerSize)).and
      (locate_spends sound whole (position + headerSize))).mono ?_ fun _ _ both => both.2
    rintro (_ | ⟨index, offset⟩) between ⟨⟨_, located⟩, spends⟩
    · exact .pure spends
    · have inside : index < between.count := by
        rw [spends.count]
        exact located.1
      have whole' : between.data.length % between.key.blockSize = 0 := by
        rw [spends.data, spends.key]
        exact whole
      refine .bind <| (block_spends whole' index).mono
        (fun _ _ more => .pure (spends.trans more)) fun e after more => ?_
      rw [if_pos inside] at more
      exact spends.trans more

/-- Opening a resource tries its first block. -/
theorem ofResource_spends {key : PublicKey} {data : Bytes}
    (opened : ofResource key data = .ok blocks) :
    data.length % key.blockSize = 0 ∧ Spends { key, data } blocks [] := by
  rw [ofResource] at opened
  split at opened
  · cases opened
  · rename_i divides
    simp only [Bool.or_eq_true, bne_iff_ne, not_or, not_not] at divides
    have header : Reaches lengthHeader { key, data }
        (fun _ after => Spends { key, data } after []) (fun _ _ => True) := by
      refine .bind <| (block_spends divides.2 0).mono (fun first between spends => ?_)
        fun _ _ _ => trivial
      dsimp only
      split
      · exact .throw trivial
      · refine .get_bind ?_
        split
        · exact .throw trivial
        · exact .pure spends
    have ends := header.ends
    split at opened
    · rename_i length after is
      rw [is] at ends
      cases opened
      exact ⟨divides.2, ends.learn after.offsets length⟩
    · cases opened

end Accounts

/-- Where no block is kept twice, what is kept is what is found. -/
theorem lookup_of_mem {cache : List (Nat × Bytes)} {entry : Nat × Bytes}
    (distinct : (cache.map Prod.fst).Nodup) (member : entry ∈ cache) :
    cache.lookup entry.1 = some entry.2 := by
  induction cache with
  | nil => cases member
  | cons first rest ih =>
    rw [List.map_cons, List.nodup_cons] at distinct
    rw [List.lookup_cons]
    rcases List.mem_cons.mp member with rfl | later
    · rw [beq_self_eq_true]
    · have other : entry.1 ≠ first.1 :=
        fun same => distinct.1 (same ▸ List.mem_map_of_mem later)
      rw [beq_eq_false_iff_ne.mpr other]
      exact ih distinct.2 later

/-- How a resource stands after accesses to it, of which some failed in a block. What it keeps and
has learnt is right, and it has paid once for each block that it keeps and once for each failure. -/
structure Accounted (key : PublicKey) (data : Bytes) (blocks : Blocks) (causes : List Error) :
    Prop where
  /-- Each payload is that of its block, which is not decrypted again. -/
  cached : ∀ entry ∈ blocks.cache, entry.1 < data.length / key.blockSize ∧
    ((decryptUncached entry.1).run.run { key, data }).1 = .ok entry.2 ∧
    (block entry.1).run.run blocks = (.ok entry.2, blocks)
  distinct : (blocks.cache.map Prod.fst).Nodup
  learnt : ∃ known ≤ data.length / key.blockSize,
    (∀ index < known, (payload? key data index).isSome) ∧
    blocks.offsets = (List.range (known + 1)).map (startAt key data)
  located : ∀ position, Locates key data position ((locate position).run.run blocks).1
  counted : blocks.decryptions = blocks.cache.length + causes.length
  tried : ∀ cause ∈ causes, ∃ index < data.length / key.blockSize, FailsAt key data index cause

theorem run_decryptUncached {key : PublicKey} {data : Bytes} {index : Nat} {payload : Bytes}
    (inside : index < data.length / key.blockSize)
    (decrypts : payload? key data index = some payload) :
    ((decryptUncached index).run.run { key, data }).1 = .ok payload := by
  have starts : index * key.blockSize < data.length := @mul_blockSize_lt { key, data } index inside
  rw [payload?] at decrypts
  rw [decryptUncached, run_get_bind, if_pos starts, run_set_bind]
  cases result : key.decryptBlock (data.slice (index * key.blockSize) key.blockSize) with
  | ok value =>
    rw [result] at decrypts
    cases decrypts
    rfl
  | error e =>
    rw [result] at decrypts
    cases decrypts

theorem run_block_of_lookup {blocks : Blocks} {index : Nat} {payload : Bytes}
    (there : blocks.cache.lookup index = some payload) :
    (block index).run.run blocks = (.ok payload, blocks) := by
  rw [block, run_get_bind, there, run_pure]

theorem Spends.accounted {key : PublicKey} {data : Bytes} {blocks : Blocks} {causes : List Error}
    (spends : Spends { key, data } blocks causes) (sound : blocks.Sound) :
    blocks.Accounted key data causes := by
  have distinct := spends.distinct List.nodup_nil
  have located := fun position => (locate_locates sound position).ends
  obtain ⟨known, reached, offsets⟩ := sound.learnt
  have cached := sound.cached
  rw [spends.key, spends.data] at cached reached offsets located
  refine ⟨fun entry member => ?_, distinct, ⟨known, ?_, ?_, ?_⟩, fun position => ?_, ?_,
    spends.tried⟩
  · have there := lookup_of_mem distinct member
    obtain old | inside := spends.inside entry member
    · cases old
    · exact ⟨inside, run_decryptUncached inside (cached _ _ there), run_block_of_lookup there⟩
  · exact Nat.le_trans reached length_payloadsOf_le
  · exact fun index before => isSome_payload? (Nat.lt_of_lt_of_le before reached)
  · rw [offsets, starts_take_payloadsOf reached]
  · have ends := located position
    generalize (locate position).run.run blocks = outcome at ends ⊢
    obtain ⟨_ | _, after⟩ := outcome
    · exact ends.2
    · exact ends.2
  · have counted := spends.counted
    simp only [List.length_nil] at counted
    omega

end Blocks

/-- The cause of a fault of a layer. -/
def Fault.cause? : Fault → Option Error
  | .layer cause => some cause
  | _ => none

/-- The cause for which a layer failed in a call. -/
def Reply.cause? : Reply → Option Error
  | .fault reason => reason.cause?
  | _ => none

namespace Layered

/-- The blocks that lie under a stream were spent on for some causes. -/
structure Spent (before : Blocks) (causes : List Error) (stream : Layered) : Prop where
  spent : ∃ after, stream.base = .blocks after ∧ before.Spends after causes

end Layered

section Calls

variable {before : Blocks} {view : View}

theorem View.readBase_spends (based : view.stream.base = .blocks before) (sound : before.Sound)
    (whole : before.data.length % before.key.blockSize = 0) (count : Nat) :
    Reaches (readBase count) view (fun _ after => after.stream.Spent before [])
      (fun fault after => after.stream.Spent before fault.cause?.toList) := by
  refine .get_bind ?_
  rw [based]
  have reaches := (Blocks.readAt_spends sound whole view.cursor.position count).ends
  dsimp only
  generalize (Blocks.readAt view.cursor.position count).run.run before = outcome at reaches
  obtain ⟨result, after⟩ := outcome
  refine .set_bind ?_
  cases result with
  | ok bytes => exact .pure ⟨after, rfl, reaches⟩
  | error cause => exact .throw ⟨after, rfl, reaches⟩

theorem Call.operation_spends (based : view.stream.base = .blocks before) (sound : before.Sound)
    (whole : before.data.length % before.key.blockSize = 0) (call : Call) :
    Reaches call.operation view (fun reply after => after.stream.Spent before reply.cause?.toList)
      (fun fault after => after.stream.Spent before fault.cause?.toList) := by
  have unspent : view.stream.Spent before [] := ⟨before, based, .refl before⟩
  cases call with
  | read count =>
    refine .bind <| .get_bind <| .bind <|
      (View.readBase_spends based sound whole count).mono ?_ fun _ _ => id
    exact fun bytes after spent => .modify_bind (.pure (.pure spent))
  | seek whence delta =>
    refine .bind ?_
    rw [View.seek_eq]
    refine .get_bind ?_
    dsimp only
    split
    · exact .set_bind (.pure (.pure unspent))
    · split
      · exact .throw unspent
      · exact .throw unspent
  | setRule rule => exact .modify_bind (.pure unspent)

theorem Call.onCursor_spends {stream : Layered} (based : stream.base = .blocks before)
    (sound : before.Sound) (whole : before.data.length % before.key.blockSize = 0) (call : Call)
    (cursor : Cursor) :
    (call.onCursor stream cursor).2.1.Spent before
      (call.onCursor stream cursor).1.cause?.toList := by
  have ends := (@operation_spends before { stream, cursor } based sound whole call).ends
  rw [onCursor]
  generalize call.operation.run.run { stream, cursor } = outcome at ends
  obtain ⟨result, after⟩ := outcome
  cases result <;> exact ends

end Calls

/-- What is asked of a block resource: a block, another cursor, or a call on one that is there. -/
inductive Access where
  | block (index : Nat)
  | request (request : Request)
  deriving DecidableEq, Repr

namespace Shared

/-- One access. There is a cause if it tried a block in range that does not decrypt. -/
def access (shared : Shared Cursor) : Access → Option Error × Shared Cursor
  | .block index =>
    match shared.stream.base with
    | .memory _ => (none, shared)
    | .blocks blocks =>
      let (result, after) := (Blocks.block index).run.run blocks
      let cause :=
        match result with
        | .ok _ => none
        | .error cause => if index < blocks.count then some cause else none
      (cause, { shared with stream := { shared.stream with base := .blocks after } })
  | .request request =>
    let (reply, after) := shared.handle .flat request
    (reply.bind Reply.cause?, after)

/-- Accesses one after the other: the causes for which some failed, and what is left in the end. -/
def accessAll : Shared Cursor → List Access → List Error × Shared Cursor
  | shared, [] => ([], shared)
  | shared, access :: rest =>
    let (cause, between) := shared.access access
    let (causes, final) := accessAll between rest
    (cause.toList ++ causes, final)

variable {shared : Shared Cursor} {before : Blocks}

/-- An access leaves the same resource, on which something was spent. -/
theorem access_spends (based : shared.stream.base = .blocks before) (sound : before.Sound)
    (whole : before.data.length % before.key.blockSize = 0) (access : Access) :
    ∃ after, (shared.access access).2.stream.base = .blocks after ∧
      before.SameResource after ∧ before.Spends after (shared.access access).1.toList := by
  cases access with
  | block index =>
    have reaches :=
      ((Blocks.block_reaches sound index).and (Blocks.block_spends whole index)).ends
    simp only [Shared.access, based]
    generalize (Blocks.block index).run.run before = outcome at reaches
    obtain ⟨cause | payload, after⟩ := outcome
    · obtain ⟨⟨same, _⟩, spends⟩ := reaches
      refine ⟨after, rfl, same, ?_⟩
      dsimp only
      split <;> simpa [*] using spends
    · obtain ⟨⟨same, _⟩, spends⟩ := reaches
      exact ⟨after, rfl, same, spends⟩
  | request request =>
    have unspent : ∃ after, shared.stream.base = .blocks after ∧ before.SameResource after ∧
        before.Spends after [] := ⟨before, based, sound.refl, .refl before⟩
    cases request with
    | cursor rule => exact unspent
    | call index call =>
      simp only [Shared.access, handle]
      split
      · exact unspent
      · rename_i cursor there
        have here : shared.stream.Same shared.stream := by
          refine ⟨?_, rfl⟩
          rw [based]
          exact .blocks sound.refl
        have kept := (Call.onCursor_answered here call cursor).1.base
        obtain ⟨after, is, spends⟩ := Call.onCursor_spends based sound whole call cursor
        rw [is, based] at kept
        obtain _ | same := kept
        exact ⟨after, is, same, spends⟩

theorem accessAll_spends (based : shared.stream.base = .blocks before) (sound : before.Sound)
    (whole : before.data.length % before.key.blockSize = 0) (accesses : List Access) :
    ∃ after, (shared.accessAll accesses).2.stream.base = .blocks after ∧
      before.SameResource after ∧ before.Spends after (shared.accessAll accesses).1 := by
  induction accesses generalizing shared before with
  | nil => exact ⟨before, based, sound.refl, .refl before⟩
  | cons access rest ih =>
    obtain ⟨between, there, same, spends⟩ := access_spends based sound whole access
    have whole' : between.data.length % between.key.blockSize = 0 := by
      rw [same.data, same.key]
      exact whole
    obtain ⟨after, is, again, more⟩ := ih there same.sound whole'
    exact ⟨after, is, same.trans again, spends.trans more⟩

end Shared

/-- Whatever blocks, reads and seeks an opened resource is asked for by any cursors, the payloads it
keeps and the starts it has learnt are those of its blocks, a lookup finds the block that holds a
position, and each decryption was the only successful one of its block or failed. What is kept once
is kept. -/
theorem Blocks.accounted_accessAll {key : PublicKey} {data : Bytes} {blocks : Blocks}
    (opened : ofResource key data = .ok blocks) (maskKey : Option UInt32) (accesses : List Access)
    {causes : List Error} {shared : Shared Cursor}
    (ran : Shared.accessAll { stream := { base := .blocks blocks, maskKey } } accesses =
      (causes, shared)) :
    ∃ now, shared.stream.base = .blocks now ∧ now.Accounted key data causes ∧
      ∀ more, ∃ later, (shared.accessAll more).2.stream.base = .blocks later ∧
        now.cache <:+ later.cache := by
  have found := opened_of_ofResource opened
  obtain ⟨whole, first⟩ := ofResource_spends opened
  have whole' : blocks.data.length % blocks.key.blockSize = 0 := by
    rw [found.hasKey, found.hasData]
    exact whole
  let fresh : Shared Cursor := { stream := { base := .blocks blocks, maskKey } }
  obtain ⟨now, is, same, spends⟩ :=
    Shared.accessAll_spends (show fresh.stream.base = .blocks blocks from rfl) found.sound whole'
      accesses
  rw [ran] at is spends
  refine ⟨now, is, (first.trans spends).accounted same.sound, fun more => ?_⟩
  rw [← same.key, ← same.data] at whole'
  obtain ⟨later, there, _, added⟩ := Shared.accessAll_spends is same.sound whole' more
  exact ⟨later, there, added.kept⟩

namespace BrokenBlock

def key : PublicKey := ⟨0x573bcf441eb0c26137fcc9b0, 3⟩

def opened : Blocks :=
  (Blocks.ofResource key resource.data).toOption.getD { key, data := resource.data }

/-- The broken block twice by its number and once by a read behind the others, a block out of range,
and the third block before the empty one. -/
def accesses : List Access :=
  [.block 3, .block 7, .block 2, .request (.cursor .position), .request (.call 0 (.read 9)),
    .request (.call 0 (.seek .start 5)), .request (.call 0 (.read 1)), .block 3, .block 2]

theorem accounted_accessAll_brokenBlock :
    Blocks.ofResource key resource.data = .ok opened ∧
    (Shared.accessAll { stream := { base := .blocks opened } } accesses).1 =
      List.replicate 3 (.crypto "Unsupported PKCS#1 block type 0") ∧
    (Shared.accessAll { stream := { base := .blocks opened } } accesses).2.stream.blocks?.map
      (fun now => (now.cache.map Prod.fst, now.offsets, now.decryptions)) =
        some ([1, 2, 0], [0, 6, 6, 9], 6) ∧
    ∃ now, (Shared.accessAll { stream := { base := .blocks opened } } accesses).2.stream.base =
        .blocks now ∧
      now.Accounted key resource.data
        (Shared.accessAll { stream := { base := .blocks opened } } accesses).1 := by
  have opens : Blocks.ofResource key resource.data = .ok opened :=
    eq_ok_of_isSome (by decide +kernel) { key, data := resource.data }
  obtain ⟨now, is, accounted, _⟩ :=
    Blocks.accounted_accessAll opens none accesses (Prod.eta _).symm
  exact ⟨opens, by decide +kernel, by decide +kernel, now, is, accounted⟩

end BrokenBlock

end Stream

end CilRecovery
