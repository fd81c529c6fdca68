import Mathlib.Logic.Relation
import CilRecovery.Proofs.Stability

/-!
Records that refer to each other in circles. Whatever has been resolved before, a position that is
needed to resolve itself is not resolved: that ends where the depth is used up, and no position on
the circle is noted. Resolving ends in any case, as each level of references counts.
-/
namespace CilRecovery

open Relation (ReflTransGen TransGen)

/-- What a reference of a record is to. -/
inductive Referent where
  | type
  | method
  deriving DecidableEq, Repr

/-- A reference of a record: a position, and what must be there. -/
structure Reference where
  kind : Referent
  position : Int32
  deriving DecidableEq, Repr

/-- The type that was found, if it is one. -/
def Resolved.type? : Resolved → Option TypeSig
  | type sig => some sig
  | _ => none

/-- The kind of reference that something can be taken for. -/
def Resolved.referent? : Resolved → Option Referent
  | type _ => some .type
  | method _ => some .method
  | _ => none

namespace OperandRecord

/-- The kind of reference that what a record describes can be taken for. -/
def referent? : OperandRecord → Option Referent
  | type _ => some .type
  | method _ | packedCall _ => some .method
  | _ => none

/-- The references of a record in the order in which they are resolved. A type of which the name
cannot be read has none. -/
def references? : OperandRecord → Option (List Reference)
  | token _ | userString _ => some []
  | type record =>
    match record.param, TypeName.parse record.name.toList with
    | some _, _ => some []
    | none, .ok _ => some (record.args.map (⟨.type, ·⟩))
    | none, .error _ => none
  | field record => some [⟨.type, record.declaring⟩]
  | method record =>
    some (⟨.type, record.declaring⟩ :: ⟨.type, record.ret⟩ ::
      (record.params.map (⟨.type, ·⟩) ++ record.args.map (⟨.type, ·⟩)))
  | packedCall record => some (⟨.method, record.method⟩ :: record.args.map (⟨.type, ·⟩))

end OperandRecord

namespace Resolver

section Graph

variable (resolver : Resolver) (host : Host)

/-- A position comes to something of a kind, if any depth will do: by a token, by the hint of its
record, or because each of the references of its record does. -/
inductive Yields : Int32 → Referent → Prop where
  | token {position : Int32} {token : Token} {kind : Referent} (proper : ¬ position < 0)
    (reads : resolver.readRecord position.toInt.toNat = .ok (.token token))
    (is : (host.lookupToken? token).bind Resolved.referent? = some kind) : Yields position kind
  | hinted {position : Int32} {record : OperandRecord} {found : Resolved} {kind : Referent}
    (proper : ¬ position < 0) (reads : resolver.readRecord position.toInt.toNat = .ok record)
    (hinted : hinted? host record = some found) (is : found.referent? = some kind) :
    Yields position kind
  | followed {position : Int32} {record : OperandRecord} {references : List Reference}
    {kind : Referent} (proper : ¬ position < 0)
    (reads : resolver.readRecord position.toInt.toNat = .ok record)
    (unhinted : hinted? host record = none) (refers : record.references? = some references)
    (is : record.referent? = some kind)
    (each : ∀ reference ∈ references, Yields reference.position reference.kind) :
    Yields position kind

/-- All of some references come to what they should. -/
def AllYield (references : List Reference) : Prop :=
  ∀ reference ∈ references, Yields resolver host reference.position reference.kind

/-- To resolve a position, another one is resolved: no hint makes up for the references of its
record, and those before the other one come to what they should. -/
inductive Requires (position : Int32) : Int32 → Prop where
  | follows {record : OperandRecord} {before after : List Reference} {reference : Reference}
    (proper : ¬ position < 0) (reads : resolver.readRecord position.toInt.toNat = .ok record)
    (unhinted : hinted? host record = none)
    (refers : record.references? = some (before ++ reference :: after))
    (each : AllYield resolver host before) : Requires position reference.position

/-- A position leads into a circle. -/
def Endless (position : Int32) : Prop :=
  ∃ entry, ReflTransGen (Requires resolver host) position entry ∧
    TransGen (Requires resolver host) entry entry

/-- Resolving some references one after the other leads into a circle. -/
def Stuck : List Reference → Prop
  | [] => False
  | reference :: rest =>
    Endless resolver host reference.position ∨
      Yields resolver host reference.position reference.kind ∧ Stuck rest

/-- What a position may come to. Nothing is found in a circle, and elsewhere something of a kind is
just if it would be at any depth. -/
structure Settles (position : Int32) (value : Option Resolved) : Prop where
  ends : ¬ Endless resolver host position
  yields : ∀ kind, value.bind Resolved.referent? = some kind ↔ Yields resolver host position kind

/-- A session in which nothing on the way into a circle is noted. -/
structure Clear (session : Session) : Prop where
  follows : host.Follows session.host
  settled : ∀ position value, ¬ position < 0 →
    session.memo.get? position.toInt.toNat = some value → Settles resolver host position value

end Graph

section Walks

variable {resolver : Resolver} {host : Host} {position : Int32} {record : OperandRecord}

theorem Endless.step (endless : resolver.Endless host position) :
    ∃ next, resolver.Requires host position next ∧ resolver.Endless host next := by
  obtain ⟨entry, way, circle⟩ := endless
  rcases ReflTransGen.cases_head way with rfl | ⟨next, first, rest⟩
  · obtain ⟨next, first, rest⟩ := TransGen.head'_iff.mp circle
    exact ⟨next, first, position, rest, circle⟩
  · exact ⟨next, first, entry, rest, circle⟩

theorem allYield_cons {reference : Reference} {rest : List Reference} :
    resolver.AllYield host (reference :: rest) ↔
      resolver.Yields host reference.position reference.kind ∧ resolver.AllYield host rest :=
  List.forall_mem_cons

theorem allYield_append {front back : List Reference} :
    resolver.AllYield host (front ++ back) ↔
      resolver.AllYield host front ∧ resolver.AllYield host back :=
  List.forall_mem_append

theorem stuck_append {front back : List Reference} :
    resolver.Stuck host (front ++ back) ↔
      resolver.Stuck host front ∨ resolver.AllYield host front ∧ resolver.Stuck host back := by
  induction front with
  | nil =>
    have none_ : resolver.AllYield host [] := List.forall_mem_nil _
    rw [List.nil_append, Stuck, false_or, and_iff_right none_]
  | cons reference rest ih =>
    rw [List.cons_append, Stuck, Stuck, ih, allYield_cons, or_assoc, and_assoc, and_or_left]

/-- A position that leads into a circle is stuck in the references of its record. -/
theorem Endless.stuck (endless : resolver.Endless host position)
    (reads : resolver.readRecord position.toInt.toNat = .ok record) :
    ¬ position < 0 ∧ hinted? host record = none ∧
      ∃ references, record.references? = some references ∧ resolver.Stuck host references := by
  obtain ⟨_, ⟨proper, reads', unhinted, refers, each⟩, later⟩ := endless.step
  cases reads.symm.trans reads'
  exact ⟨proper, unhinted, _, refers, stuck_append.mpr (.inr ⟨each, .inl later⟩)⟩

/-- What a position comes to is told by its record. -/
theorem yields_iff_of_readRecord {kind : Referent} (proper : ¬ position < 0)
    (reads : resolver.readRecord position.toInt.toNat = .ok record) :
    resolver.Yields host position kind ↔
      (∃ token, record = .token token ∧
        (host.lookupToken? token).bind Resolved.referent? = some kind) ∨
      (∃ found, hinted? host record = some found ∧ found.referent? = some kind) ∨
      hinted? host record = none ∧ record.referent? = some kind ∧
        ∃ references, record.references? = some references ∧
          resolver.AllYield host references := by
  constructor
  · intro yields
    cases yields with
    | token _ reads' is =>
      cases reads.symm.trans reads'
      exact .inl ⟨_, rfl, is⟩
    | hinted _ reads' hinted is =>
      cases reads.symm.trans reads'
      exact .inr (.inl ⟨_, hinted, is⟩)
    | followed _ reads' unhinted refers is each =>
      cases reads.symm.trans reads'
      exact .inr (.inr ⟨unhinted, is, _, refers, each⟩)
  · rintro (⟨token, rfl, is⟩ | ⟨found, hinted, is⟩ | ⟨unhinted, is, references, refers, each⟩)
    · exact .token proper reads is
    · exact .hinted proper reads hinted is
    · exact .followed proper reads unhinted refers is each

/-- Without a token or a hint, a record comes to something if its references do. -/
theorem yields_iff {references : List Reference} {kind : Referent} (proper : ¬ position < 0)
    (reads : resolver.readRecord position.toInt.toNat = .ok record)
    (unhinted : hinted? host record = none) (refers : record.references? = some references)
    (other : record.kind ≠ .token) :
    resolver.Yields host position kind ↔
      record.referent? = some kind ∧ resolver.AllYield host references := by
  rw [yields_iff_of_readRecord proper reads]
  constructor
  · rintro (⟨token, rfl, _⟩ | ⟨found, hinted, _⟩ | ⟨_, is, references', refers', each⟩)
    · exact absurd rfl other
    · cases unhinted.symm.trans hinted
    · cases refers.symm.trans refers'
      exact ⟨is, each⟩
  · rintro ⟨is, each⟩
    exact .inr (.inr ⟨unhinted, is, references, refers, each⟩)

/-- What resolving some references one after the other may come to. -/
structure Walked (resolver : Resolver) (host : Host) (references : List Reference)
    (good : β → Prop) (result : Option β) : Prop where
  ends : ¬ resolver.Stuck host references
  present : ∀ value, result = some value → resolver.AllYield host references ∧ good value
  absent : result = none → ¬ resolver.AllYield host references

/-- An operation that resolves some references one after the other and leaves off where one does not
come to what it should. Where it fails, though they all would or lead into a circle, it is because
the depth is used up. -/
def Walks (resolver : Resolver) (host : Host) (references : List Reference) (good : β → Prop)
    (operation : ResolveM (Option β)) : Prop :=
  ∀ session, resolver.Clear host session → Reaches operation session
    (fun result after => resolver.Clear host after ∧ resolver.Walked host references good result)
    (fun e after => resolver.Clear host after ∧
      (resolver.Stuck host references ∨ resolver.AllYield host references →
        e = .recursionLimit resolver.maxDepth))

namespace Walks

variable {front back references : List Reference} {good : β → Prop}

theorem pure {value : β} (holds : good value) :
    Walks resolver host [] good (Pure.pure (some value)) := fun _ clear =>
  .pure ⟨clear, id, fun _ is => ⟨List.forall_mem_nil _, Option.some.inj is ▸ holds⟩, nofun⟩

theorem map {operation : ResolveM (Option α)} {f : α → β} {first : α → Prop}
    (walks : Walks resolver host references first operation) (each : ∀ value, good (f value)) :
    Walks resolver host references good
      (operation >>= fun found => Pure.pure (found.map f)) := by
  intro session clear
  refine .bind <| (walks session clear).mono ?_ fun _ _ => id
  rintro result after ⟨clear, ends, present, absent⟩
  refine .pure ⟨clear, ends, fun value is => ?_,
    fun none => absent (Option.map_eq_none_iff.mp none)⟩
  obtain ⟨found, there, rfl⟩ := Option.map_eq_some_iff.mp is
  exact ⟨(present found there).1, each found⟩

/-- One after the other, references are resolved, unless the first ones do not come to what they
should. -/
theorem bind {first : ResolveM (Option α)} {next : Option α → ResolveM (Option β)}
    {now : α → Prop} (walks : Walks resolver host front now first)
    (leaves : next none = Pure.pure none)
    (later : ∀ value, Walks resolver host back good (next (some value))) :
    Walks resolver host (front ++ back) good (first >>= next) := by
  intro session clear
  refine .bind <| (walks session clear).mono ?_ ?_
  · rintro (_ | value) between ⟨clear, ends, present, absent⟩
    · rw [leaves]
      refine .pure ⟨clear, fun stuck => ?_, nofun, fun _ all => ?_⟩
      · rcases stuck_append.mp stuck with stuck | ⟨all, _⟩
        · exact ends stuck
        · exact absent rfl all
      · exact absent rfl (allYield_append.mp all).1
    · have all := (present value rfl).1
      refine (later value between clear).mono ?_ ?_
      · rintro result after ⟨clear, ends', present', absent'⟩
        refine ⟨clear, fun stuck => ?_, fun value is => ?_, fun is both => ?_⟩
        · rcases stuck_append.mp stuck with stuck | ⟨_, stuck⟩
          · exact ends stuck
          · exact ends' stuck
        · obtain ⟨rest, holds⟩ := present' value is
          exact ⟨allYield_append.mpr ⟨all, rest⟩, holds⟩
        · exact absent' is (allYield_append.mp both).2
      · rintro e after ⟨clear, limit⟩
        refine ⟨clear, fun would => limit ?_⟩
        rcases would with stuck | both
        · exact .inl ((stuck_append.mp stuck).resolve_left ends |>.2)
        · exact .inr (allYield_append.mp both).2
  · rintro e after ⟨clear, limit⟩
    refine ⟨clear, fun would => limit ?_⟩
    rcases would with stuck | both
    · exact (stuck_append.mp stuck).imp_right And.left
    · exact .inr (allYield_append.mp both).1

end Walks

/-- A lookup that minds circles. Where it fails, though the position would come to something or
leads into a circle, it is because the depth is used up. -/
def Minds (resolver : Resolver) (host : Host) (lookup : Lookup) : Prop :=
  ∀ position session, resolver.Clear host session → Reaches (lookup position) session
    (fun value after => resolver.Clear host after ∧ resolver.Settles host position value)
    (fun e after => resolver.Clear host after ∧
      (resolver.Endless host position ∨ (∃ kind, resolver.Yields host position kind) →
        e = .recursionLimit resolver.maxDepth))

namespace Minds

variable {lookup : Lookup}

/-- A lookup of which something of one kind is taken walks the one reference. -/
theorem pick (minds : resolver.Minds host lookup) {kind : Referent}
    {pick : Option Resolved → Option β}
    (picks : ∀ value, (pick value).isSome ↔ value.bind Resolved.referent? = some kind)
    (position : Int32) :
    Walks resolver host [⟨kind, position⟩] (fun _ => True)
      (lookup position >>= fun value => Pure.pure (pick value)) := by
  have only : resolver.AllYield host [⟨kind, position⟩] ↔ resolver.Yields host position kind :=
    List.forall_mem_singleton
  have stuck : resolver.Stuck host [⟨kind, position⟩] ↔ resolver.Endless host position := by
    rw [Stuck, Stuck, and_false, or_false]
  intro session clear
  refine .bind <| (minds position session clear).mono ?_ ?_
  · rintro value after ⟨clear, ends, yields⟩
    have found := (picks value).trans (yields kind)
    refine .pure ⟨clear, mt stuck.mp ends, fun taken is => ?_, fun none all => ?_⟩
    · exact ⟨only.mpr (found.mp (Option.isSome_of_eq_some is)), trivial⟩
    · have some_ := found.mpr (only.mp all)
      rw [none] at some_
      cases some_
  · rintro e after ⟨clear, limit⟩
    exact ⟨clear, fun would => limit (would.imp stuck.mp fun all => ⟨kind, only.mp all⟩)⟩

theorem typeAt (minds : resolver.Minds host lookup) (position : Int32) :
    Walks resolver host [⟨.type, position⟩] (fun _ => True) (typeAt lookup position) := by
  have taken : Resolver.typeAt lookup position =
      lookup position >>= fun value => Pure.pure (value.bind Resolved.type?) := by
    rw [Resolver.typeAt]
    congr
    funext value
    rcases value with _ | (_ | _ | _ | _) <;> rfl
  rw [taken]
  refine minds.pick (fun value => ?_) position
  rcases value with _ | (_ | _ | _ | _) <;> simp [Resolved.type?, Resolved.referent?]

theorem methodAt (minds : resolver.Minds host lookup) (position : Int32) :
    Walks resolver host [⟨.method, position⟩] (fun _ => True) (methodAt lookup position) := by
  have taken : Resolver.methodAt lookup position =
      lookup position >>= fun value => Pure.pure (value.bind Resolved.method?) := by
    rw [Resolver.methodAt]
    congr
    funext value
    rcases value with _ | (_ | _ | _ | _) <;> rfl
  rw [taken]
  refine minds.pick (fun value => ?_) position
  rcases value with _ | (_ | _ | _ | _) <;> simp [Resolved.method?, Resolved.referent?]

theorem typesAt (minds : resolver.Minds host lookup) (positions : List Int32) :
    Walks resolver host (positions.map (⟨.type, ·⟩)) (fun _ => True)
      (typesAt lookup positions) := by
  induction positions with
  | nil => exact .pure trivial
  | cons position rest ih =>
    exact .bind (minds.typeAt position) rfl fun sig => .map ih fun _ => trivial

end Minds

/-- Whatever is found for a demand can be taken for one kind of reference, or for none. -/
def FindsOnly (resolver : Resolver) (kind? : Option Referent) (demand : Demand) : Prop :=
  ∀ left host found after, find resolver left host demand = .ok (found, after) →
    found.bind Resolved.referent? = kind?

theorem findsOnly_resolved (found : Resolved) :
    FindsOnly resolver found.referent? (.resolved found) := by
  intro left host found' after finds
  cases finds
  rfl

theorem findsOnly_type (name : TypeName) (args : List TypeSig) :
    FindsOnly resolver (some .type) (.type name args) := by
  intro left host found after finds
  rw [find] at finds
  obtain ⟨sig, _, finds⟩ := exists_of_bind_eq_ok finds
  cases finds
  rfl

theorem findsOnly_field (declaring : TypeSig) (name : String) :
    FindsOnly resolver none (.field declaring name) := by
  intro left host found after finds
  rw [find_field] at finds
  cases finds
  rcases (host.resolveField declaring name).1 with _ | field <;> rfl

theorem findsOnly_method (query : MethodQuery) :
    FindsOnly resolver (some .method) (.method query) := by
  intro left host found after finds
  rw [find_method] at finds
  cases finds
  rfl

theorem walks_packedCall {lookup : Lookup} (minds : resolver.Minds host lookup)
    (record : CallRecord) :
    Walks resolver host (⟨.method, record.method⟩ :: record.args.map (⟨.type, ·⟩)) (fun _ => True)
      (packedCall lookup record) := by
  refine .bind (minds.methodAt record.method) rfl fun method => ?_
  dsimp only
  split
  · rename_i isEmpty
    rw [List.isEmpty_iff.mp isEmpty]
    exact .pure trivial
  · rw [← List.append_nil (record.args.map _)]
    refine .bind (minds.typesAt record.args) rfl fun args => ?_
    dsimp only
    split
    · exact .pure trivial
    · exact .pure trivial

theorem walks_demand {lookup : Lookup} (minds : resolver.Minds host lookup)
    {references : List Reference} (refers : record.references? = some references)
    (other : record.kind ≠ .token) :
    Walks resolver host references (FindsOnly resolver record.referent?)
      (demand lookup record) := by
  cases record with
  | token token => exact absurd rfl other
  | userString text =>
    cases refers
    exact .pure (findsOnly_resolved _)
  | type record =>
    rw [OperandRecord.references?] at refers
    rw [demand, typeDemand]
    cases param : record.param with
    | some param =>
      rw [param] at refers
      cases refers
      refine .pure ?_
      split <;> exact findsOnly_resolved _
    | none =>
      rw [param] at refers
      cases parsed : TypeName.parse record.name.toList with
      | error e =>
        rw [parsed] at refers
        cases refers
      | ok name =>
        rw [parsed] at refers
        cases refers
        exact .map (minds.typesAt record.args) fun args => findsOnly_type name args
  | field record =>
    cases refers
    exact .map (minds.typeAt record.declaring) fun declaring => findsOnly_field declaring _
  | method record =>
    cases refers
    refine .bind (minds.typeAt record.declaring) rfl fun declaring => ?_
    refine .bind (minds.typeAt record.ret) rfl fun ret => ?_
    refine .bind (minds.typesAt record.params) rfl fun params => ?_
    exact .map (minds.typesAt record.args) fun args => findsOnly_method _
  | packedCall record =>
    cases refers
    exact .map (walks_packedCall minds record) fun found => findsOnly_resolved (.method found.1)

/-- A record of which the references cannot be told fails at once. -/
theorem exists_demand_eq_throw (lookup : Lookup) (unread : record.references? = none) :
    ∃ e, demand lookup record = throw e := by
  cases record with
  | type record =>
    rw [OperandRecord.references?] at unread
    rw [demand, typeDemand]
    cases param : record.param with
    | some param =>
      rw [param] at unread
      cases unread
    | none =>
      rw [param] at unread
      cases parsed : TypeName.parse record.name.toList with
      | ok name =>
        rw [parsed] at unread
        cases unread
      | error e => exact ⟨e, rfl⟩
  | _ => cases unread

section Records

variable {lookup : Lookup} {left : Nat} {session : Session}

theorem Clear.module {after : Host} (clear : resolver.Clear host session)
    (follows : session.host.Follows after) :
    resolver.Clear host { session with host := after } :=
  ⟨trans_of Host.Follows clear.follows follows, clear.settled⟩

theorem Clear.lookupToken? (clear : resolver.Clear host session) (token : Token) :
    session.host.lookupToken? token = host.lookupToken? token := by
  rw [Host.lookupToken?, clear.follows.tokens, Host.lookupToken?]

/-- What is found for the references of a record is found for its position. -/
theorem meet_settles {references : List Reference} (proper : ¬ position < 0)
    (reads : resolver.readRecord position.toInt.toNat = .ok record)
    (unhinted : hinted? host record = none) (refers : record.references? = some references)
    (other : record.kind ≠ .token) {demand? : Option Demand} (clear : resolver.Clear host session)
    (walked : resolver.Walked host references (FindsOnly resolver record.referent?) demand?) :
    Reaches (meet resolver left demand?) session
      (fun value after => resolver.Clear host after ∧ resolver.Settles host position value)
      (fun e after => resolver.Clear host after ∧ e = .recursionLimit resolver.maxDepth) := by
  have yields (kind : Referent) :
      resolver.Yields host position kind ↔
        record.referent? = some kind ∧ resolver.AllYield host references :=
    yields_iff proper reads unhinted refers other
  have ends : ¬ resolver.Endless host position := fun endless => by
    obtain ⟨_, _, _, refers', stuck⟩ := endless.stuck reads
    cases refers.symm.trans refers'
    exact walked.ends stuck
  cases demand? with
  | none =>
    refine .pure ⟨clear, ends, fun kind => ⟨nofun, fun yielded => ?_⟩⟩
    exact absurd ((yields kind).mp yielded).2 (walked.absent rfl)
  | some demand =>
    obtain ⟨all, only⟩ := walked.present demand rfl
    cases finds : find resolver left session.host demand with
    | error e =>
      constructor
      rw [run_meet_error finds]
      exact ⟨clear, find_fails resolver left session.host demand e finds⟩
    | ok pair =>
      constructor
      rw [run_meet_ok finds]
      refine ⟨clear.module (grows_find finds).follows, ends, fun kind => ?_⟩
      rw [only _ _ _ _ finds, yields kind, and_iff_left all]

/-- A hint settles its position, whatever the record refers to. -/
theorem settles_hinted {found : Resolved} (proper : ¬ position < 0)
    (reads : resolver.readRecord position.toInt.toNat = .ok record)
    (hinted : hinted? host record = some found) :
    resolver.Settles host position (some found) := by
  refine ⟨fun endless => ?_, fun kind => ?_⟩
  · cases hinted.symm.trans (endless.stuck reads).2.1
  · rw [yields_iff_of_readRecord proper reads, Option.bind_some]
    constructor
    · exact fun is => .inr (.inl ⟨found, hinted, is⟩)
    · rintro (⟨token, rfl, _⟩ | ⟨found', hinted', is⟩ | ⟨unhinted, _⟩)
      · cases hinted
      · cases hinted.symm.trans hinted'
        exact is
      · cases hinted.symm.trans unhinted

theorem settles_token {token : Token} (proper : ¬ position < 0)
    (reads : resolver.readRecord position.toInt.toNat = .ok (.token token)) :
    resolver.Settles host position (host.lookupToken? token) := by
  refine ⟨fun endless => ?_, fun kind => ?_⟩
  · obtain ⟨_, _, _, refers, stuck⟩ := endless.stuck reads
    cases refers
    exact stuck
  · rw [yields_iff_of_readRecord proper reads]
    constructor
    · exact fun is => .inl ⟨token, rfl, is⟩
    · rintro (⟨_, same, is⟩ | ⟨_, hinted, _⟩ | ⟨_, is, _⟩)
      · cases same
        exact is
      · cases hinted
      · cases is

/-- A type of which the name cannot be read yields nothing and leads nowhere. -/
theorem not_yields_of_unread (proper : ¬ position < 0)
    (reads : resolver.readRecord position.toInt.toNat = .ok record)
    (unhinted : hinted? host record = none) (unread : record.references? = none) :
    ¬ (resolver.Endless host position ∨ ∃ kind, resolver.Yields host position kind) := by
  rintro (endless | ⟨kind, yields⟩)
  · obtain ⟨_, _, _, refers, _⟩ := endless.stuck reads
    cases unread.symm.trans refers
  · rcases (yields_iff_of_readRecord proper reads).mp yields with
      ⟨token, rfl, _⟩ | ⟨_, hinted, _⟩ | ⟨_, _, _, refers, _⟩
    · cases unread
    · cases unhinted.symm.trans hinted
    · cases unread.symm.trans refers

/-- A record is resolved to what its position comes to. -/
theorem resolveRecord_settles (minds : resolver.Minds host lookup) (proper : ¬ position < 0)
    (reads : resolver.readRecord position.toInt.toNat = .ok record)
    (clear : resolver.Clear host session) :
    Reaches (resolver.resolveRecord left lookup record) session
      (fun value after => resolver.Clear host after ∧ resolver.Settles host position value)
      (fun e after => resolver.Clear host after ∧
        (resolver.Endless host position ∨ (∃ kind, resolver.Yields host position kind) →
          e = .recursionLimit resolver.maxDepth)) := by
  refine .get_bind ?_
  rw [hinted?_of_follows clear.follows record]
  split
  · rename_i found hinted
    exact .pure ⟨clear, settles_hinted proper reads hinted⟩
  · rename_i unhinted
    cases refers : record.references? with
    | none =>
      obtain ⟨e, throws⟩ := exists_demand_eq_throw lookup refers
      rw [throws]
      refine .bind (.throw ⟨clear, fun would => ?_⟩)
      exact absurd would (not_yields_of_unread proper reads unhinted refers)
    | some references =>
      by_cases other : record.kind = .token
      · cases record with
        | token token =>
          have settled := @settles_token _ host _ token proper reads
          rw [← clear.lookupToken? token] at settled
          exact .bind (.pure (.get_bind (.bind (.pure (.set_bind (.pure ⟨clear, settled⟩))))))
        | _ => cases other
      · refine .bind <| (walks_demand minds refers other session clear).mono ?_ ?_
        · rintro demand? between ⟨clear, walked⟩
          exact (meet_settles proper reads unhinted refers other clear walked).mono
            (fun _ _ => id) fun _ _ ⟨clear, limit⟩ => ⟨clear, fun _ => limit⟩
        · rintro e after ⟨clear, limit⟩
          refine ⟨clear, fun would => limit (would.imp (fun endless => ?_) ?_)⟩
          · obtain ⟨_, _, _, refers', stuck⟩ := endless.stuck reads
            cases refers.symm.trans refers'
            exact stuck
          · rintro ⟨kind, yields⟩
            exact ((yields_iff proper reads unhinted refers other).mp yields).2

theorem eq_of_toNat_eq {one other : Int32} (proper : ¬ one < 0) (proper' : ¬ other < 0)
    (same : one.toInt.toNat = other.toInt.toNat) : one = other := by
  rw [Int32.lt_iff_toInt_lt, Int32.toInt_zero] at proper proper'
  exact Int32.toInt_inj.mp (by omega)

/-- What settles a position may be noted under it. -/
theorem Clear.note {value : Option Resolved} (clear : resolver.Clear host session)
    (proper : ¬ position < 0) (settled : resolver.Settles host position value) :
    resolver.Clear host (session.note position.toInt.toNat value) := by
  refine ⟨clear.follows, fun other found proper' known => ?_⟩
  rw [Session.note, Table.get?_insert] at known
  split at known
  · rename_i same
    cases eq_of_toNat_eq proper' proper same
    cases known
    exact settled
  · exact clear.settled other found proper' known

/-- Where there is something to be minded, there is a record. -/
theorem exists_record
    (would : resolver.Endless host position ∨ ∃ kind, resolver.Yields host position kind) :
    ¬ position < 0 ∧ ∃ record, resolver.readRecord position.toInt.toNat = .ok record := by
  rcases would with endless | ⟨kind, yields⟩
  · obtain ⟨_, ⟨proper, reads, _, _, _⟩, _⟩ := endless.step
    exact ⟨proper, _, reads⟩
  · cases yields with
    | token proper reads _ => exact ⟨proper, _, reads⟩
    | hinted proper reads _ _ => exact ⟨proper, _, reads⟩
    | followed proper reads _ _ _ _ => exact ⟨proper, _, reads⟩

/-- To whatever depth a position is resolved, circles are minded. -/
theorem minds_resolveWithin (resolver : Resolver) (host : Host) (left : Nat) :
    resolver.Minds host (resolver.resolveWithin left) := by
  induction left with
  | zero => exact fun position session clear => .throw ⟨clear, fun _ => rfl⟩
  | succ left ih =>
    intro position session clear
    constructor
    by_cases negative : position < 0
    · rw [run_resolveWithin_negative negative]
      refine ⟨clear, fun endless => ?_, fun kind => ⟨nofun, fun yields => ?_⟩⟩
      · exact (exists_record (.inl endless)).1 negative
      · exact absurd negative (exists_record (.inr ⟨kind, yields⟩)).1
    · cases known : session.memo.get? position.toInt.toNat with
      | some value =>
        rw [run_resolveWithin_known negative known]
        exact ⟨clear, clear.settled position value negative known⟩
      | none =>
        cases reads : resolver.readRecord position.toInt.toNat with
        | error e =>
          rw [run_resolveWithin_unreadable negative known reads]
          refine ⟨clear, fun would => ?_⟩
          obtain ⟨record, reads'⟩ := (exists_record would).2
          cases reads.symm.trans reads'
        | ok record =>
          have ends := (@resolveRecord_settles _ _ _ _ _ (left + 1) _ ih negative reads clear).ends
          generalize outcome : (resolver.resolveRecord (left + 1) (resolver.resolveWithin left)
            record).run.run session = pair at ends
          obtain ⟨e | value, between⟩ := pair
          · rw [run_resolveWithin_error negative known reads outcome]
            exact ends
          · rw [run_resolveWithin_ok negative known reads outcome]
            exact ⟨ends.1.note negative ends.2, ends.2⟩

end Records

end Walks

section Requests

variable {resolver : Resolver} {host : Host} {session : Session}

/-- A session stays clear of circles. -/
def StaysClear (resolver : Resolver) (host : Host) (before after : Session) : Prop :=
  resolver.Clear host before → resolver.Clear host after

instance (resolver : Resolver) (host : Host) : IsPreorder Session (resolver.StaysClear host) where
  refl _ := id
  trans _ _ _ first second := second ∘ first

theorem Clear.answer (clear : resolver.Clear host session) (request : Request) :
    resolver.Clear host ((resolver.answer request).run.run session).2 := by
  have looks (left : Nat) (position : Int32) :
      Always (resolver.StaysClear host) (fun _ => True) (resolver.resolveWithin left position) := by
    refine fun session => ⟨fun clear => ?_, fun _ _ => trivial⟩
    have ends := (minds_resolveWithin resolver host left position session clear).ends
    generalize (resolver.resolveWithin left position).run.run session = outcome at ends
    obtain ⟨_ | _, after⟩ := outcome <;> exact ends.1
  exact ((resolver.asks_answer request).always (fun _ _ => trivial) looks session).1 clear

theorem Clear.answerAll (clear : resolver.Clear host session) (requests : List Request) :
    resolver.Clear host (resolver.answerAll session requests).2 := by
  induction requests generalizing session with
  | nil => exact clear
  | cons request rest ih => exact ih (clear.answer request)

theorem clear_fresh (resolver : Resolver) (host : Host) : resolver.Clear host { host } := by
  refine ⟨refl_of Host.Follows host, fun position value _ known => ?_⟩
  cases known

/-- In a clear session, a position that leads into a circle is not resolved and not noted. -/
theorem Clear.endless {position : Int32} (clear : resolver.Clear host session)
    (endless : resolver.Endless host position) :
    session.memo.get? position.toInt.toNat = none ∧ ∀ left, ∃ after,
      (resolver.resolveWithin left position).run.run session =
        (.error (.recursionLimit resolver.maxDepth), after) := by
  constructor
  · cases known : session.memo.get? position.toInt.toNat with
    | none => rfl
    | some value =>
      have proper := (exists_record (.inl endless)).1
      exact absurd endless (clear.settled position value proper known).ends
  · intro left
    have ends := (minds_resolveWithin resolver host left position session clear).ends
    generalize (resolver.resolveWithin left position).run.run session = outcome at ends
    obtain ⟨e | value, after⟩ := outcome
    · cases ends.2 (.inl endless)
      exact ⟨after, rfl⟩
    · exact absurd endless ends.2.ends

end Requests

section Depth

variable (resolver : Resolver)

/-- Resolves a position at some depth, if positions at the next depth are resolved as `go` says. -/
def level (go : Nat → Lookup) (depth : Nat) : Lookup := fun position =>
  if resolver.maxDepth < depth then throw (.recursionLimit resolver.maxDepth)
  else do
    if position < 0 then return none
    let key := position.toInt.toNat
    match (← get).memo.get? key with
    | some known => return known
    | none =>
      let record ← lift (resolver.readRecord key)
      let resolved ← resolver.resolveRecord (resolver.maxDepth + 1 - depth) (go (depth + 1)) record
      modify fun session => { session with memo := session.memo.insert key resolved }
      return resolved

/-- A level that another one looks at. -/
structure Deeper (resolver : Resolver) (next depth : Nat) : Prop where
  inside : depth ≤ resolver.maxDepth
  is : next = depth + 1

theorem wellFounded_deeper : WellFounded resolver.Deeper := by
  have shorter : ∀ next depth, resolver.Deeper next depth →
      resolver.maxDepth + 1 - next < resolver.maxDepth + 1 - depth := by
    rintro _ depth ⟨inside, rfl⟩
    omega
  exact Subrelation.wf (shorter _ _) (measure (resolver.maxDepth + 1 - ·)).wf

theorem level_congr {go go' : Nat → Lookup} {depth : Nat}
    (same : ∀ next, resolver.Deeper next depth → go next = go' next) :
    resolver.level go depth = resolver.level go' depth := by
  funext position
  rw [level, level]
  split
  · rfl
  · rename_i shallow
    rw [same (depth + 1) ⟨Nat.not_lt.mp shallow, rfl⟩]

/-- Counting the depth up is counting down the levels that are left. -/
theorem level_resolveWithin (depth : Nat) :
    resolver.level (fun other => resolver.resolveWithin (resolver.maxDepth + 1 - other)) depth =
      resolver.resolveWithin (resolver.maxDepth + 1 - depth) := by
  funext position
  rw [level]
  split
  · rename_i deep
    rw [Nat.sub_eq_zero_of_le deep, resolveWithin]
  · rename_i shallow
    rw [Nat.add_sub_add_right, Nat.succ_sub (Nat.not_lt.mp shallow)]
    rfl

/-- The levels have one solution. -/
theorem eq_level_iff (go : Nat → Lookup) :
    (∀ depth, go depth = resolver.level go depth) ↔
      ∀ depth, go depth = resolver.resolveWithin (resolver.maxDepth + 1 - depth) := by
  constructor
  · intro levels depth
    induction depth using resolver.wellFounded_deeper.induction with
    | _ depth ih => rw [levels, level_congr resolver ih, level_resolveWithin]
  · intro solves depth
    rw [solves depth, level_congr resolver fun next _ => solves next, level_resolveWithin]

end Depth

/-- Resolving ends, whatever the records refer to: each level of references looks at the next one
only, there are no levels for ever, and what they come to is the one thing that they can come to.
Whatever has been asked for before, what is found at a position is what the position yields, and a
position that is needed to resolve itself is not resolved, whatever it is asked for as: the depth is
used up, and no position on the circle is noted. -/
theorem answerAll_circle (resolver : Resolver) (host : Host) :
    WellFounded resolver.Deeper ∧
    (∀ (go go' : Nat → Lookup) (depth : Nat),
      (∀ next, resolver.Deeper next depth → go next = go' next) →
      resolver.level go depth = resolver.level go' depth) ∧
    (∀ go : Nat → Lookup, (∀ depth, go depth = resolver.level go depth) ↔
      ∀ depth, go depth = resolver.resolveWithin (resolver.maxDepth + 1 - depth)) ∧
    ∀ requests : List Request,
      let session := (resolver.answerAll { host } requests).2
      let limit := Error.recursionLimit resolver.maxDepth
      (∀ (position : UInt32) (found : Option Resolved) (after : Session),
        (resolver.resolve position).run.run session = (.ok found, after) → ∀ kind,
          found.bind Resolved.referent? = some kind ↔
            resolver.Yields host position.toInt32 kind) ∧
      ∀ position : UInt32, TransGen (resolver.Requires host) position.toInt32 position.toInt32 →
        ((resolver.resolve position).run.run session).1 = .error limit ∧
        ((resolver.resolveType position.toInt32).run.run session).1 = .error limit ∧
        ((resolver.resolveField position).run.run session).1 = .error limit ∧
        ((resolver.resolveMethod position).run.run session).1 = .error limit ∧
        ∀ other, ReflTransGen (resolver.Requires host) position.toInt32 other →
          ReflTransGen (resolver.Requires host) other position.toInt32 →
          session.memo.get? other.toInt.toNat = none := by
  refine ⟨resolver.wellFounded_deeper, fun _ _ _ => resolver.level_congr, resolver.eq_level_iff, ?_⟩
  intro requests session limit
  have clear : resolver.Clear host session := (resolver.clear_fresh host).answerAll requests
  constructor
  · intro position found after finds
    have ends := (minds_resolveWithin resolver host (resolver.maxDepth + 1) position.toInt32
      session clear).ends
    rw [resolve] at finds
    rw [finds] at ends
    exact ends.2.yields
  · intro position circle
    have endless : resolver.Endless host position.toInt32 := ⟨_, .refl, circle⟩
    obtain ⟨after, fails⟩ := (clear.endless endless).2 (resolver.maxDepth + 1)
    have resolve : (resolver.resolve position).run.run session = (.error limit, after) := fails
    refine ⟨congrArg Prod.fst resolve, congrArg Prod.fst (run_bind_error fails),
      congrArg Prod.fst (run_bind_error resolve), congrArg Prod.fst (run_bind_error fails), ?_⟩
    intro other _ back
    exact (clear.endless ⟨_, back, circle⟩).1

namespace Circle

/-- The type `E`, a method `E::g` behind it at 17 that returns what stands at 41, and there a field
of what stands at 17. -/
def records : Bytes :=
  [1, 0, 0, 0, 0, 1, 69, 0, 0, 0, 0, 0, 0, 0, 0, 0, 0] ++
    [3, 0, 0, 0, 0, 0, 0, 0, 0, 1, 103, 1, 41, 0, 0, 0, 0, 0, 0, 0, 0, 0, 0, 0] ++
    [2, 0, 0, 0, 0, 17, 0, 0, 0, 1, 120]

def resolver : Resolver := { stream := { base := .memory records }, maxDepth := 4 }

def host : Host := { name := "module" }

def requests : List Request := [.resolve 17, .type 0, .field 41, .method 17]

theorem yields_type : resolver.Yields host 0 .type := by
  have reads : resolver.readRecord (Int32.toInt 0).toNat = .ok (.type ⟨"E", [], none, none⟩) := by
    decide +kernel
  have refers : (OperandRecord.type ⟨"E", [], none, none⟩).references? = some [] := by
    decide +kernel
  exact .followed (by decide) reads rfl refers rfl (List.forall_mem_nil _)

theorem requires_field : resolver.Requires host 17 41 := by
  have reads : resolver.readRecord (Int32.toInt 17).toNat =
      .ok (.method ⟨0, "g", true, false, 41, [], [], none⟩) := by decide +kernel
  have refers : (OperandRecord.method ⟨0, "g", true, false, 41, [], [], none⟩).references? =
      some ([⟨.type, 0⟩] ++ ⟨.type, 41⟩ :: []) := rfl
  exact .follows (by decide) reads rfl refers (List.forall_mem_singleton.mpr yields_type)

theorem requires_method : resolver.Requires host 41 17 := by
  have reads : resolver.readRecord (Int32.toInt 41).toNat = .ok (.field ⟨17, "x", none⟩) := by
    decide +kernel
  have refers : (OperandRecord.field ⟨17, "x", none⟩).references? =
      some ([] ++ ⟨.type, 17⟩ :: []) := rfl
  exact .follows (by decide) reads rfl refers (List.forall_mem_nil _)

theorem answerAll_circle_member :
    TransGen (resolver.Requires host) (UInt32.toInt32 41) (UInt32.toInt32 41) ∧
    ((resolver.resolveField 41).run.run (resolver.answerAll { host } requests).2).1 =
      .error (.recursionLimit 4) ∧
    (resolver.answerAll { host } requests).2.memo.get? 17 = none ∧
    ((resolver.answerAll { host } requests).2.memo.get? 0).isSome := by
  have circle : TransGen (resolver.Requires host) (UInt32.toInt32 41) (UInt32.toInt32 41) :=
    .tail (.single requires_method) requires_field
  obtain ⟨_, _, field, _, unnoted⟩ :=
    ((resolver.answerAll_circle host).2.2.2 requests).2 41 circle
  exact ⟨circle, field, unnoted 17 (.single requires_method) (.single requires_field),
    by decide +kernel⟩

end Circle

end Resolver

end CilRecovery
