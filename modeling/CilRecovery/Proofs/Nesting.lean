import Mathlib.Order.WellFounded
import CilRecovery.Pattern.Match

/-!
Verifiers that match signatures against methods which are called, while these may call each other
in circles. A verifier may ask for any signature, its own among them, so that only the depth of the
context in which it runs bounds how verifiers are nested. No context is deeper than the limit, every
search comes to an end, and a signature that always asks for itself has no match.
-/
namespace CilRecovery

/-- A context, and in how many verifiers matching is nested there. -/
structure NestedContext extends MatchContext where
  depth : Nat

namespace NestedContext

def top (context : MatchContext) : NestedContext := ⟨context, 0⟩

/-- The context one level deeper, if that is not past the limit. -/
def descend? (context : NestedContext) : Option NestedContext :=
  if context.depth < MatchContext.maxDepth then some { context with depth := context.depth + 1 }
  else none

theorem descend?_eq_some {context deeper : NestedContext} :
    context.descend? = some deeper ↔ context.depth < MatchContext.maxDepth ∧
      deeper = ⟨context.toMatchContext, context.depth + 1⟩ := by
  rw [descend?]
  split_ifs with more
  · simp [more, eq_comm]
  · simp [more]

end NestedContext

/-- Signatures that may refer to each other in circles. A verifier is any function of its context,
of whether methods that are called match signatures of the family, and of the window. -/
structure Family (ι : Type) where
  /-- What a window has to be like before the verifier runs. -/
  shape : ι → Signature
  verifier : ι → NestedContext → (MethodRef → ι → Bool) → List Instruction → Bool

/-- A search for a signature in a body. -/
structure Search (ι : Type) where
  context : NestedContext
  signature : ι
  body : List Instruction

/-! ### How searches are nested -/

namespace Search

/-- A search may lead to any search one level deeper in the body of a method of the module. -/
structure Leads (search next : Search ι) : Prop where
  deeper : search.context.descend? = some next.context
  defined : ∃ method, search.context.host.calleeBody? method = some next.body

/-- The searches to which one may lead, and how many levels deeper they are. -/
inductive Reaches (start : Search ι) : Nat → Search ι → Prop where
  | here : Reaches start 0 start
  | next {levels : Nat} {search later : Search ι} (before : Reaches start levels search)
      (leads : search.Leads later) : Reaches start (levels + 1) later

variable {start search next : Search ι} {levels : Nat}

theorem Leads.depth (leads : search.Leads next) :
    next.context.depth = search.context.depth + 1 ∧
      next.context.depth ≤ MatchContext.maxDepth := by
  obtain ⟨more, same⟩ := NestedContext.descend?_eq_some.mp leads.deeper
  rw [same]
  exact ⟨rfl, more⟩

theorem Reaches.depth_eq (reaches : start.Reaches levels search) :
    search.context.depth = start.context.depth + levels := by
  induction reaches with
  | here => rfl
  | next _ leads ih => rw [leads.depth.1, ih, Nat.add_assoc]

theorem Reaches.depth_le (reaches : start.Reaches levels search)
    (within : start.context.depth ≤ MatchContext.maxDepth) :
    search.context.depth ≤ MatchContext.maxDepth := by
  cases reaches with
  | here => exact within
  | next _ leads => exact leads.depth.2

/-- What the next search reaches is reached. -/
theorem Leads.reaches (leads : start.Leads next) (reaches : next.Reaches levels search) :
    start.Reaches (levels + 1) search := by
  induction reaches with
  | here => exact .next .here leads
  | next _ later ih => exact .next ih later

theorem wellFounded_leads : WellFounded fun next search : Search ι => search.Leads next := by
  refine Subrelation.wf (fun {next search} leads => ?_)
    (InvImage.wf (fun search => MatchContext.maxDepth - search.context.depth) Nat.lt_wfRel.wf)
  obtain ⟨deeper, within⟩ := leads.depth
  change MatchContext.maxDepth - next.context.depth < MatchContext.maxDepth - search.context.depth
  omega

end Search

/-! ### What searches come to -/

/-- Whether a signature matches the body of a method one level deeper, where searches come to what
`go` says. -/
def NestedContext.calleeMatches (context : NestedContext) (go : Search ι → Option Match)
    (method : MethodRef) (signature : ι) : Bool :=
  match context.descend?, context.host.calleeBody? method with
  | some deeper, some body => (go ⟨deeper, signature, body⟩).isSome
  | _, _ => false

theorem NestedContext.calleeMatches_iff {context : NestedContext} {go : Search ι → Option Match}
    {method : MethodRef} {signature : ι} :
    context.calleeMatches go method signature = true ↔
      ∃ deeper body, context.descend? = some deeper ∧
        context.host.calleeBody? method = some body ∧ (go ⟨deeper, signature, body⟩).isSome := by
  rw [calleeMatches]
  cases context.descend? <;> cases context.host.calleeBody? method <;> simp

namespace Family

/-- What a search comes to, if the searches to which it leads come to what `go` says. -/
def turn (family : Family ι) (go : Search ι → Option Match) (search : Search ι) : Option Match :=
  (family.shape search.signature).findWith?
    (family.verifier search.signature search.context (search.context.calleeMatches go)) search.body

/-- The first match of a signature in a body. -/
def find? (family : Family ι) (search : Search ι) : Option Match :=
  (family.shape search.signature).findWith?
    (family.verifier search.signature search.context fun method signature =>
      match _deeper : search.context.descend?, search.context.host.calleeBody? method with
      | some deeper, some body => (family.find? ⟨deeper, signature, body⟩).isSome
      | _, _ => false)
    search.body
termination_by MatchContext.maxDepth - search.context.depth
decreasing_by
  obtain ⟨more, rfl⟩ := NestedContext.descend?_eq_some.mp _deeper
  change MatchContext.maxDepth - (search.context.depth + 1) < _
  omega

variable (family : Family ι)

theorem turn_congr {go go' : Search ι → Option Match} {search : Search ι}
    (agree : ∀ next, search.Leads next → go next = go' next) :
    family.turn go search = family.turn go' search := by
  have same : search.context.calleeMatches go = search.context.calleeMatches go' := by
    funext method signature
    rw [NestedContext.calleeMatches, NestedContext.calleeMatches]
    split
    · rename_i deeper body descends defined
      rw [agree _ ⟨descends, method, defined⟩]
    · rfl
  rw [turn, turn, same]

theorem find?_eq_turn (search : Search ι) :
    family.find? search = family.turn family.find? search := by
  rw [find?, turn]
  congr 2
  funext method signature
  rw [NestedContext.calleeMatches]
  split <;> simp [*]

/-- There is one way for a search to come to an end. -/
theorem eq_find?_of_turn {go : Search ι → Option Match} {start : Search ι}
    (obeys : ∀ levels search, start.Reaches levels search → go search = family.turn go search) :
    go start = family.find? start := by
  induction start using Search.wellFounded_leads.induction with
  | _ start ih =>
    rw [obeys 0 start .here, find?_eq_turn]
    exact family.turn_congr fun next leads =>
      ih next leads fun levels search reaches => obeys _ search (leads.reaches reaches)

end Family

/-! ### Signatures that ask for themselves -/

theorem Signature.findWith?_eq_none {signature : Signature} {verify : List Instruction → Bool}
    (fails : ∀ window, signature.hasShape window = true → verify window = false)
    (body : List Instruction) : signature.findWith? verify body = none := by
  have passes (window : List Instruction) :
      (signature.hasShape window && verify window) = false := by
    cases shaped : signature.hasShape window with
    | false => rfl
    | true => exact fails window shaped
  have nowhere (width start : Nat) : firstWindow?
      (fun window => signature.hasShape window && verify window) width start body = none := by
    induction body generalizing start with
    | nil => rfl
    | cons instruction rest ih => rw [firstWindow?, passes, if_neg nofun, ih]
  rw [findWith?]
  split
  · exact if_neg (by simp [passes])
  · rw [nowhere, ite_self]

namespace Family

/-- The verifier of a signature, on a window of its shape, holds only where some method that is
called there matches the signature again. -/
def Demands (family : Family ι) (context : MatchContext) (signature : ι) : Prop :=
  ∀ (nested : NestedContext) (window : List Instruction),
    nested.toMatchContext = context → nested.depth ≤ MatchContext.maxDepth →
      (family.shape signature).hasShape window = true →
        family.verifier signature nested (nested.calleeMatches family.find?) window = true →
          ∃ (index : Nat) (method : MethodRef),
            window[index]?.bind Instruction.method? = some method ∧
              nested.calleeMatches family.find? method signature = true

/-- At every depth the signature is sought one level deeper, and at the limit in vain. -/
theorem Demands.find?_eq_none {family : Family ι} {context : MatchContext} {search : Search ι}
    (demands : family.Demands context search.signature)
    (same : search.context.toMatchContext = context)
    (within : search.context.depth ≤ MatchContext.maxDepth) : family.find? search = none := by
  induction search using Search.wellFounded_leads.induction with
  | _ search ih =>
    rw [find?_eq_turn, turn]
    refine Signature.findWith?_eq_none (fun window shaped => ?_) search.body
    by_contra holds
    obtain ⟨_, method, _, again⟩ :=
      demands search.context window same within shaped (Bool.eq_true_of_not_eq_false holds)
    obtain ⟨deeper, body, descends, defined, found⟩ := NestedContext.calleeMatches_iff.mp again
    have leads : search.Leads ⟨deeper, search.signature, body⟩ := ⟨descends, method, defined⟩
    have kept : deeper.toMatchContext = context := by
      obtain ⟨_, rfl⟩ := NestedContext.descend?_eq_some.mp descends
      exact same
    rw [ih _ leads demands kept leads.depth.2] at found
    cases found

/-! ### Checks as verifiers -/

/-- The signatures of which the verifiers are checks. -/
def checks : Family Signature where
  shape := id
  verifier signature context test window :=
    signature.check.holds context.anchors context.depth test signature window

/-- As many levels are left to a check as lie between its depth and the limit. -/
theorem calleeMatches_checks (nested : NestedContext)
    (within : nested.depth ≤ MatchContext.maxDepth) :
    nested.calleeMatches checks.find? =
      nested.toMatchContext.calleeMatches (MatchContext.maxDepth - nested.depth) := by
  induction left : MatchContext.maxDepth - nested.depth generalizing nested with
  | zero =>
    funext method signature
    have deepest : nested.descend? = none := if_neg (by omega)
    rw [NestedContext.calleeMatches, deepest, MatchContext.calleeMatches]
  | succ remaining ih =>
    funext method signature
    have descends : nested.descend? = some ⟨nested.toMatchContext, nested.depth + 1⟩ :=
      if_pos (by omega)
    rw [NestedContext.calleeMatches, descends, MatchContext.calleeMatches]
    cases nested.host.calleeBody? method with
    | none => rfl
    | some body =>
      have depth : MatchContext.maxDepth - remaining = nested.depth + 1 := by omega
      have deeper : NestedContext.calleeMatches ⟨nested.toMatchContext, nested.depth + 1⟩
          checks.find? = nested.toMatchContext.calleeMatches remaining :=
        ih ⟨nested.toMatchContext, nested.depth + 1⟩ (by simp; omega) (by simp; omega)
      simp only [find?_eq_turn, turn, deeper, depth]
      rfl

theorem find?_checks (context : MatchContext) (signature : Signature) (body : List Instruction) :
    checks.find? ⟨.top context, signature, body⟩ = context.find? signature body := by
  have answers := calleeMatches_checks (.top context) (Nat.zero_le _)
  rw [find?_eq_turn, turn, answers]
  rfl

/-- What asks for itself by its check demands that it matches again. -/
theorem demands_again (context : MatchContext) {signature : Signature} {index : Nat}
    (again : signature.check = .again index) : checks.Demands context signature := by
  intro nested window _ _ _ holds
  change signature.check.holds _ _ _ _ _ = true at holds
  rw [again, Check.holds, Check.methodAt, Option.any_eq_true] at holds
  obtain ⟨method, called, matches_⟩ := holds
  exact ⟨index, method, called, matches_⟩

/-- However verifiers are nested, no context is deeper than the limit, and a search comes to an end
that its turn and the searches below it determine. If the verifier of a signature demands that it
matches again, the signature has no match. Matching with checks is a case of this. -/
theorem find?_nested (family : Family ι) (context : MatchContext) (signature : ι)
    (body : List Instruction) :
    let start : Search ι := ⟨.top context, signature, body⟩
    (∀ levels search, start.Reaches levels search →
      search.context.depth = levels ∧ levels ≤ MatchContext.maxDepth ∧
        family.find? search = family.turn family.find? search) ∧
    (∀ go : Search ι → Option Match, (∀ levels search, start.Reaches levels search →
      go search = family.turn go search) → go start = family.find? start) ∧
    (family.Demands context signature → family.find? start = none) ∧
    ∀ signature, checks.find? ⟨.top context, signature, body⟩ = context.find? signature body := by
  intro start
  refine ⟨fun levels search reaches => ?_, fun go => family.eq_find?_of_turn, fun demands => ?_,
    fun signature => find?_checks context signature body⟩
  · have depth : search.context.depth = 0 + levels := reaches.depth_eq
    rw [Nat.zero_add] at depth
    refine ⟨depth, ?_, family.find?_eq_turn search⟩
    rw [← depth]
    exact reaches.depth_le (Nat.zero_le _)
  · exact demands.find?_eq_none rfl (Nat.zero_le _)

end Family

namespace Recursive

def machine : TypeSig := .named false (.top .local "" "Recursive")

def loop : MethodRef := ⟨machine, "Loop", ⟨true, .primitive .void, [], 0⟩, []⟩

def call : Instruction := ⟨.call, .method loop, none⟩

def body : List Instruction := [call, ⟨.ret, .none, none⟩]

/-- A module with a method that calls itself. -/
def host : Host := (Host.defineMethod { name := "m" } loop body).2

def context : MatchContext :=
  ⟨host, loop, loop, loop, ⟨machine, "locals", none⟩, ⟨machine, "arguments", none⟩⟩

/-- A call of a method that matches again. -/
def again : Signature := .mk "self" [.op .call] .window (.again 0)

/-- At every depth up to the limit the method is searched again. -/
theorem reaches_again (levels : Nat) (within : levels ≤ MatchContext.maxDepth) :
    Search.Reaches ⟨.top context, again, body⟩ levels ⟨⟨context, levels⟩, again, body⟩ := by
  induction levels with
  | zero => exact .here
  | succ levels ih =>
    have defined : host.calleeBody? loop = some body := by decide
    exact .next (ih (Nat.le_of_succ_le within)) ⟨if_pos within, loop, defined⟩

/-- The calls of the method lead down to the limit, and there is no match. -/
theorem find?_nested_again :
    Search.Reaches ⟨.top context, again, body⟩ 8 ⟨⟨context, 8⟩, again, body⟩ ∧
      8 ≤ MatchContext.maxDepth ∧ Family.checks.Demands context again ∧
      context.find? again body = none := by
  obtain ⟨bounded, _, noMatch, same⟩ := Family.checks.find?_nested context again body
  have reaches := reaches_again 8 (by decide)
  have demands : Family.checks.Demands context again := Family.demands_again context rfl
  refine ⟨reaches, (bounded 8 _ reaches).2.1, demands, ?_⟩
  rw [← same]
  exact noMatch demands

/-- A verifier that is content at some depth is so at the limit, and never below it. -/
example : [8, 9].map (fun limit =>
    (context.find? (.mk "deep" [.op .call] .window (.depthAtLeast limit)) body).isSome) =
      [true, false] := by
  decide

end Recursive

end CilRecovery
