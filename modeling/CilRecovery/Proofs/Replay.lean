import CilRecovery.Proofs.Memory

/-!
Requests to a resolver, one after the other, and the same requests again with nothing remembered.
The second time the module holds all that was imported the first time. Every search ends at the same
member as before, since what was imported after it comes behind it, so each request comes to the
same, errors too, and nothing more is imported.
-/
namespace CilRecovery

/-- The results so far, in another module. -/
def Session.inModule (session : Session) (host : Host) : Session := { session with host }

namespace Resolver

/-! ### Requests -/

/-- What is asked of a resolver about a position. -/
inductive Request where
  | resolve (position : UInt32)
  | type (position : Int32)
  | field (position : UInt32)
  | method (position : UInt32)
  | call (position : UInt32)
  deriving DecidableEq, Repr

/-- What a request comes to, absent where nothing is found. -/
inductive Answer where
  | resolved (found : Option Resolved)
  | type (found : Option TypeSig)
  | field (found : Option FieldRef)
  | method (found : Option MethodRef)
  | call (found : Option (MethodRef × Bool))
  deriving DecidableEq, Repr

/-- Answers one request. -/
def answer (resolver : Resolver) : Request → ResolveM Answer
  | .resolve position => return .resolved (← resolver.resolve position)
  | .type position => return .type (← resolver.resolveType position)
  | .field position => return .field (← resolver.resolveField position)
  | .method position => return .method (← resolver.resolveMethod position)
  | .call position => return .call (← resolver.resolveCall position)

/-- Answers requests one after the other. A request that fails ends with an error of its own; what
was found and imported for it stays. -/
def answerAll (resolver : Resolver) : Session → List Request → List (Except Error Answer) × Session
  | session, [] => ([], session)
  | session, request :: rest =>
    let (result, between) := (resolver.answer request).run.run session
    let (results, last) := resolver.answerAll between rest
    (result :: results, last)

theorem answerAll_cons (resolver : Resolver) (session : Session) (request : Request)
    (rest : List Request) :
    resolver.answerAll session (request :: rest) =
      (((resolver.answer request).run.run session).1 ::
          (resolver.answerAll ((resolver.answer request).run.run session).2 rest).1,
        (resolver.answerAll ((resolver.answer request).run.run session).2 rest).2) := rfl

theorem asks_answer (resolver : Resolver) (request : Request) :
    Asks resolver (resolver.answer request) := by
  cases request with
  | resolve position => exact .map (resolver.asks_resolve position) _
  | type position => exact .map (resolver.asks_resolveType position) _
  | field position => exact .map (resolver.asks_resolveField position) _
  | method position => exact .map (resolver.asks_resolveMethod position) _
  | call position => exact .map (resolver.asks_resolveCall position) _

/-- However requests end, the module has only grown. -/
theorem grows_answerAll (resolver : Resolver) (session : Session) (requests : List Request) :
    session.Grows (resolver.answerAll session requests).2 := by
  induction requests generalizing session with
  | nil => exact refl_of Session.Grows session
  | cons request rest ih =>
    exact trans_of Session.Grows ((resolver.asks_answer request).tame session).1 (ih _)

/-! ### The same again -/

/-- Run again with the same results at hand, in a module that its first run has led to, an operation
comes to the same and leaves that module alone. -/
def Replays (operation : ResolveM α) : Prop :=
  ∀ session later, (operation.run.run session).2.host.Follows later →
    operation.run.run (session.inModule later) =
      ((operation.run.run session).1, (operation.run.run session).2.inModule later)

namespace Replays

theorem pure (value : α) : Replays (Pure.pure value) := by
  intro session later _
  rfl

theorem throw (e : Error) : Replays (MonadExcept.throw e : ResolveM α) := by
  intro session later _
  rfl

/-- A sequence is replayed step by step. What its second step imports comes behind what its first
step has found. -/
theorem bind {first : ResolveM α} {next : α → ResolveM β} (now : Replays first)
    (afterwards : ∀ value, Replays (next value)) (tame : ∀ value, Tame (next value)) :
    Replays (first >>= next) := by
  intro session later follows
  have again := now session later
  generalize ends : first.run.run session = outcome at again
  obtain ⟨result, between⟩ := outcome
  cases result with
  | error e =>
    rw [run_bind_error ends] at follows ⊢
    rw [run_bind_error (again follows)]
  | ok value =>
    rw [run_bind_ok ends] at follows ⊢
    have since : between.host.Follows later :=
      trans_of Host.Follows (tame value between).1.follows follows
    rw [run_bind_ok (again since)]
    exact afterwards value between later follows

end Replays

/-- Operations whose lookups can be replayed can be replayed. -/
theorem Mirrors.replays {first second : Nat → Lookup}
    (tame : ∀ left position, Tame (first left position))
    (looks : ∀ left position, Replays (first left position)) {a b : ResolveM α}
    (mirrors : Mirrors first second a b) : Replays a := by
  induction mirrors with
  | pure value => exact .pure value
  | throw is => exact .throw _
  | look left position => exact looks left position
  | bind _ mirrors now later =>
    exact .bind now later fun value => (mirrors value).always (fun _ => id) tame

section Searches

variable (resolver : Resolver)

/-- What was not found for want of depth is not found later either. -/
theorem find_error_again {host after : Host} {left : Nat} {demand : Demand} {e : Error}
    (fails : find resolver left host demand = .error e) (follows : host.Follows after) :
    find resolver left after demand = .error e := by
  cases demand with
  | type name args =>
    rw [find] at fails ⊢
    rw [resolver.namedType_of_follows follows]
    cases named : namedType resolver host left name args with
    | error limit =>
      rw [named] at fails
      cases fails
      rfl
    | ok sig =>
      rw [named] at fails
      cases fails
  | _ => cases fails

theorem replays_meet (left : Nat) (demand? : Option Demand) :
    Replays (meet resolver left demand?) := by
  intro session later
  cases demand? with
  | none => exact fun _ => rfl
  | some demand =>
    cases finds : find resolver left session.host demand with
    | error e =>
      rw [run_meet_error finds]
      exact fun follows => run_meet_error (resolver.find_error_again finds follows)
    | ok pair =>
      rw [run_meet_ok finds]
      exact fun follows => run_meet_ok (resolver.find_again finds follows)

theorem replays_resolveRecord {lookup : Lookup} (tame : ∀ position, Tame (lookup position))
    (looks : ∀ position, Replays (lookup position)) (left : Nat) (record : OperandRecord) :
    Replays (resolver.resolveRecord left lookup record) := by
  have demands : Replays (demand lookup record) :=
    (@Mirrors.demand (fun _ => lookup) (fun _ => lookup) 0 record).replays (fun _ => tame)
      fun _ => looks
  intro session later follows
  have since : session.host.Follows later :=
    trans_of Host.Follows (tame_resolveRecord tame resolver left record session).1.follows follows
  have same : hinted? (session.inModule later).host record = hinted? session.host record :=
    hinted?_of_follows since record
  cases hinted : hinted? session.host record with
  | some resolved =>
    rw [run_resolveRecord_hinted hinted]
    exact run_resolveRecord_hinted (same.trans hinted)
  | none =>
    rw [run_resolveRecord hinted] at follows ⊢
    rw [run_resolveRecord (same.trans hinted)]
    exact demands.bind (resolver.replays_meet left) (tame_meet resolver left) session later follows

theorem replays_resolveWithin (left : Nat) (position : Int32) :
    Replays (resolver.resolveWithin left position) := by
  induction left generalizing position with
  | zero => exact .throw _
  | succ left ih =>
    intro session later
    by_cases negative : position < 0
    · rw [run_resolveWithin_negative negative]
      exact fun _ => run_resolveWithin_negative negative
    · have same : (session.inModule later).memo.get? position.toInt.toNat =
          session.memo.get? position.toInt.toNat := rfl
      cases known : session.memo.get? position.toInt.toNat with
      | some value =>
        rw [run_resolveWithin_known negative known]
        exact fun _ => run_resolveWithin_known negative (same.trans known)
      | none =>
        have unknown := same.trans known
        cases reads : resolver.readRecord position.toInt.toNat with
        | error e =>
          rw [run_resolveWithin_unreadable negative known reads]
          exact fun _ => run_resolveWithin_unreadable negative unknown reads
        | ok record =>
          have again := resolver.replays_resolveRecord (resolver.tame_resolveWithin left) ih
            (left + 1) record session later
          generalize outcome : (resolver.resolveRecord (left + 1) (resolver.resolveWithin left)
            record).run.run session = pair at again
          obtain ⟨result, between⟩ := pair
          cases result with
          | error e =>
            rw [run_resolveWithin_error negative known reads outcome]
            exact fun follows => run_resolveWithin_error negative unknown reads (again follows)
          | ok value =>
            rw [run_resolveWithin_ok negative known reads outcome]
            exact fun follows => run_resolveWithin_ok negative unknown reads (again follows)

theorem replays_answer (request : Request) : Replays (resolver.answer request) :=
  (resolver.asks_answer request).replays resolver.tame_resolveWithin resolver.replays_resolveWithin

theorem answerAll_inModule (session : Session) (requests : List Request) (later : Host)
    (follows : (resolver.answerAll session requests).2.host.Follows later) :
    resolver.answerAll (session.inModule later) requests =
      ((resolver.answerAll session requests).1,
        (resolver.answerAll session requests).2.inModule later) := by
  induction requests generalizing session with
  | nil => rfl
  | cons request rest ih =>
    rw [answerAll_cons] at follows ⊢
    have since := trans_of Host.Follows (resolver.grows_answerAll _ rest).follows follows
    rw [answerAll_cons, resolver.replays_answer request session later since, ih _ follows]

/-- Requests made again, with nothing remembered, of the module that they have led to: each comes to
the same as the first time, and the module stays as it is. -/
theorem answerAll_again (host : Host) (requests : List Request) :
    resolver.answerAll { host := (resolver.answerAll { host } requests).2.host } requests =
      resolver.answerAll { host } requests :=
  resolver.answerAll_inModule { host } requests _ (refl_of Host.Follows _)

end Searches

namespace GenericCall

def host : Host := Host.addToken { name := "module" } ⟨0x02000001⟩ (.type .void)

/-- The type `void`, the type `E` at 5, a method `E::f<void>` that returns its argument at 22, a
virtual call of it with the argument `E` at 50, a type that is its own argument at 63, and a text
at 84. -/
def records : Bytes :=
  [0, 1, 0, 0, 2] ++
    [1, 0, 0, 0, 0, 1, 69, 0, 0, 0, 0, 0, 0, 0, 0, 0, 0] ++
    [3, 0, 0, 0, 0, 5, 0, 0, 0, 1, 102, 1, 0, 0, 0, 0, 0, 0, 0, 0, 1, 0, 0, 0, 0, 0, 0, 0] ++
    [4, 22, 0, 0, 0xC0, 1, 0, 0, 0, 5, 0, 0, 0] ++
    [1, 0, 0, 0, 0, 1, 70, 1, 0, 0, 0, 63, 0, 0, 0, 0, 0, 0, 0, 0, 0] ++
    [5, 1, 120]

def resolver : Resolver := { stream := { base := .memory records }, maxDepth := 4 }

def requests : List Request :=
  [.call 50, .resolve 63, .field 84, .method 50, .type (-1), .field 84, .call 50]

def typeE : TypeSig := .named false (.top .local "" "E")

/-- The method is put together from its record and imported, once. -/
example : (resolver.answerAll { host } requests).2.host.importedMethods =
    [⟨typeE, "f", { ret := .methodParam 0, genericParams := 1 }, [.void]⟩] := by decide +kernel

end GenericCall

end Resolver

end CilRecovery
