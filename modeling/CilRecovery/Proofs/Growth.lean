import CilRecovery.Proofs.Imports
import CilRecovery.Proofs.Lookups

/-!
What resolving does to a module. It adds imported members at the end of its lists and leaves all
else alone, however it ends, and its errors are ordinary ones.
-/
namespace CilRecovery

/-- What a session may become: the module grows, and the memo table may be any. -/
def Session.Grows (before after : Session) : Prop := before.host.Grows after.host

instance : IsPreorder Session Session.Grows where
  refl session := refl_of Host.Grows session.host
  trans _ _ _ first second := trans_of Host.Grows first second

namespace Resolver

/-- A resolving operation that lets the module grow and fails with ordinary errors only. -/
abbrev Tame (operation : ResolveM α) : Prop := Always Session.Grows Error.Ordinary operation

/-- A name means something unless the depth is used up. -/
theorem namedType_fails (resolver : Resolver) (host : Host) (left : Nat) (name : TypeName)
    (given : List TypeSig) :
    OnlyFails (· = .recursionLimit resolver.maxDepth)
      (namedType resolver host left name given) := by
  induction left generalizing name given with
  | zero => exact .error rfl
  | succ left ih =>
    rw [namedType]
    split
    · exact .bind (.mapM fun arg _ => ih arg []) fun _ => .ok _
    · exact .bind (.ok given) fun _ => .ok _

theorem find_fails (resolver : Resolver) (left : Nat) (host : Host) (demand : Demand) :
    OnlyFails (· = .recursionLimit resolver.maxDepth) (find resolver left host demand) := by
  cases demand with
  | type name args => exact .bind (namedType_fails resolver host left name args) fun _ => .ok _
  | _ => exact .ok _

theorem find_onlyFails (resolver : Resolver) (left : Nat) (host : Host) (demand : Demand) :
    OnlyFails Error.Ordinary (find resolver left host demand) := by
  intro e fails
  cases find_fails resolver left host demand e fails
  constructor <;> simp [Error.kind]

theorem grows_find {resolver : Resolver} {left : Nat} {host after : Host} {demand : Demand}
    {found : Option Resolved} (finds : find resolver left host demand = .ok (found, after)) :
    host.Grows after := by
  cases demand with
  | resolved known =>
    cases finds
    exact refl_of Host.Grows host
  | token token =>
    cases finds
    exact refl_of Host.Grows host
  | type name args =>
    rw [find] at finds
    cases named : namedType resolver host left name args with
    | error e =>
      rw [named] at finds
      cases finds
    | ok sig =>
      rw [named] at finds
      cases finds
      exact refl_of Host.Grows host
  | field declaring name =>
    cases finds
    exact host.grows_resolveField declaring name
  | method query =>
    cases finds
    exact query.grows_resolve host

theorem tame_lift {result : Except Error α} (fails : OnlyFails Error.Ordinary result) :
    Tame (lift result) := by
  cases result with
  | ok value => exact .pure value
  | error e => exact .throw (fails e rfl)

theorem run_meet_ok {resolver : Resolver} {left : Nat} {session : Session} {demand : Demand}
    {found : Option Resolved} {host : Host}
    (finds : find resolver left session.host demand = .ok (found, host)) :
    (meet resolver left (some demand)).run.run session = (.ok found, { session with host }) := by
  rw [meet, run_get_bind, finds]
  rfl

theorem run_meet_error {resolver : Resolver} {left : Nat} {session : Session} {demand : Demand}
    {e : Error} (finds : find resolver left session.host demand = .error e) :
    (meet resolver left (some demand)).run.run session = (.error e, session) := by
  rw [meet, run_get_bind, finds]
  rfl

theorem tame_meet (resolver : Resolver) (left : Nat) (demand? : Option Demand) :
    Tame (meet resolver left demand?) := by
  intro session
  cases demand? with
  | none => exact .pure none
  | some demand =>
    cases finds : find resolver left session.host demand with
    | error e =>
      rw [Obeys, run_meet_error finds]
      exact ⟨refl_of Session.Grows session, .error (find_onlyFails _ _ _ _ e finds)⟩
    | ok pair =>
      rw [Obeys, run_meet_ok finds]
      exact ⟨grows_find finds, .ok _⟩

theorem tame_resolveRecord {lookup : Lookup} (looks : ∀ position, Tame (lookup position))
    (resolver : Resolver) (left : Nat) (record : OperandRecord) :
    Tame (resolveRecord resolver left lookup record) := by
  have demands : Tame (demand lookup record) :=
    (@Mirrors.demand (fun _ => lookup) (fun _ => lookup) 0 record).always (fun _ => id) fun _ => looks
  refine fun session => .get_bind ?_
  split
  · exact .pure _
  · exact .bind (demands session) fun demand? between _ => tame_meet resolver left demand? between

theorem tame_resolveWithin (resolver : Resolver) (left : Nat) (position : Int32) :
    Tame (resolver.resolveWithin left position) := by
  induction left generalizing position with
  | zero => exact .throw (by constructor <;> simp [Error.kind])
  | succ left ih =>
    rw [resolveWithin]
    split
    · exact .pure none
    · refine fun session => .get_bind ?_
      split
      · exact .pure _
      · refine .bind (tame_lift (resolver.readRecord_onlyFails _) session) fun record _ _ => ?_
        refine .bind (tame_resolveRecord ih resolver (left + 1) record _) fun resolved after _ => ?_
        exact .modify_bind (refl_of Host.Grows after.host) (.pure _)

theorem Asks.tame {resolver : Resolver} {operation : ResolveM α} (asks : Asks resolver operation) :
    Tame operation :=
  asks.always (fun _ => id) resolver.tame_resolveWithin

end Resolver

end CilRecovery
