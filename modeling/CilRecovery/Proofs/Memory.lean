import CilRecovery.Proofs.Growth

/-!
The memo table of a session. What stands in it under a position is what the record there stands
for, in that session and in every later one, so resolving a position can be repeated by looking it
up in the table.
-/
namespace CilRecovery

/-- A session that another may become. Its results so far stay. -/
structure Session.Follows (before after : Session) : Prop where
  host : before.host.Follows after.host
  memo : ∀ key value, before.memo.get? key = some value → after.memo.get? key = some value

/-- Notes what the record under a key stands for. -/
def Session.note (session : Session) (key : Nat) (value : Option Resolved) : Session :=
  { session with memo := session.memo.insert key value }

instance : IsPreorder Session Session.Follows where
  refl session := ⟨refl_of Host.Follows session.host, fun _ _ => id⟩
  trans _ _ _ first second :=
    ⟨trans_of Host.Follows first.host second.host, fun key value known =>
      second.memo key value (first.memo key value known)⟩

namespace Resolver

section Levels

variable (resolver : Resolver)

theorem namedType_of_follows {before after : Host} (follows : before.Follows after) (left : Nat)
    (name : TypeName) (given : List TypeSig) :
    namedType resolver after left name given = namedType resolver before left name given := by
  induction left generalizing name given with
  | zero => rfl
  | succ left ih => simp only [namedType, follows.findType?, ih]

/-- A list whose elements come to the same under another function, or run out of depth there. -/
theorem mapM_level {f g : α → Except Error β} {list : List α}
    (each : ∀ a ∈ list, ∀ b, f a = .ok b →
      g a = .ok b ∨ g a = .error (.recursionLimit resolver.maxDepth)) {bs : List β}
    (ends : list.mapM f = .ok bs) :
    list.mapM g = .ok bs ∨ list.mapM g = .error (.recursionLimit resolver.maxDepth) := by
  induction list generalizing bs with
  | nil => exact .inl ends
  | cons a rest ih =>
    rw [List.mapM_cons] at ends ⊢
    cases first : f a with
    | error e =>
      rw [first] at ends
      cases ends
    | ok b =>
      cases others : rest.mapM f with
      | error e =>
        rw [first, others] at ends
        cases ends
      | ok more =>
        rw [first, others] at ends
        cases ends
        rcases each a (by simp) b first with same | deep
        · rw [same]
          rcases ih (fun c member => each c (by simp [member])) others with same | deep
          · exact .inl (by rw [same]; rfl)
          · exact .inr (by rw [deep]; rfl)
        · exact .inr (by rw [deep]; rfl)

/-- A name means the same at every depth at which it means anything. -/
theorem namedType_level {host : Host} {left : Nat} {name : TypeName} {given : List TypeSig}
    {sig : TypeSig} (named : namedType resolver host left name given = .ok sig) (other : Nat) :
    namedType resolver host other name given = .ok sig ∨
      namedType resolver host other name given = .error (.recursionLimit resolver.maxDepth) := by
  induction other generalizing left name given sig with
  | zero => exact .inr rfl
  | succ other ih =>
    cases left with
    | zero => cases named
    | succ left =>
      rw [namedType] at named ⊢
      split at named
      · rename_i isEmpty
        rw [if_pos isEmpty]
        cases args : name.args.mapM fun arg => namedType resolver host left arg [] with
        | error e =>
          rw [args] at named
          cases named
        | ok sigs =>
          rw [args] at named
          cases named
          rcases resolver.mapM_level (fun arg _ sig named => ih named) args with same | deep
          · exact .inl (by rw [same]; rfl)
          · exact .inr (by rw [deep]; rfl)
      · rename_i isEmpty
        rw [if_neg isEmpty]
        exact .inl named

/-- What is asked for is the same at every depth at which it is found. -/
theorem find_level {host : Host} {left : Nat} {demand : Demand} {result : Option Resolved × Host}
    (finds : find resolver left host demand = .ok result) (other : Nat) :
    find resolver other host demand = .ok result ∨
      find resolver other host demand = .error (.recursionLimit resolver.maxDepth) := by
  cases demand with
  | type name args =>
    rw [find] at finds ⊢
    cases named : namedType resolver host left name args with
    | error e =>
      rw [named] at finds
      cases finds
    | ok sig =>
      rw [named] at finds
      cases finds
      rcases resolver.namedType_level named other with same | deep
      · exact .inl (by rw [same]; rfl)
      · exact .inr (by rw [deep]; rfl)
  | _ => exact .inl finds

theorem find_field (left : Nat) (host : Host) (declaring : TypeSig) (name : String) :
    find resolver left host (.field declaring name) =
      .ok ((host.resolveField declaring name).1.map .field,
        (host.resolveField declaring name).2) := rfl

theorem find_method (left : Nat) (host : Host) (query : MethodQuery) :
    find resolver left host (.method query) =
      .ok (some (.method (query.resolve host).1), (query.resolve host).2) := rfl

/-- What was found is found again. -/
theorem find_again {host between after : Host} {left : Nat} {demand : Demand}
    {found : Option Resolved} (finds : find resolver left host demand = .ok (found, between))
    (follows : between.Follows after) :
    find resolver left after demand = .ok (found, after) := by
  have whole := trans_of Host.Follows (grows_find finds).follows follows
  cases demand with
  | resolved known =>
    cases finds
    rfl
  | token token =>
    cases finds
    simp only [find, Host.lookupToken?, whole.tokens]
  | type name args =>
    rw [find] at finds ⊢
    rw [resolver.namedType_of_follows whole]
    cases named : namedType resolver host left name args with
    | error e =>
      rw [named] at finds
      cases finds
    | ok sig =>
      rw [named] at finds
      cases finds
      rfl
  | field declaring name =>
    rw [find_field] at finds ⊢
    obtain ⟨rfl, rfl⟩ := Prod.mk.inj (Except.ok.inj finds)
    rw [Host.resolveField_again follows]
  | method query =>
    rw [find_method] at finds ⊢
    obtain ⟨rfl, rfl⟩ := Prod.mk.inj (Except.ok.inj finds)
    rw [query.resolve_again follows]

theorem hinted?_of_follows {before after : Host} (follows : before.Follows after)
    (record : OperandRecord) : hinted? after record = hinted? before record := by
  have same : after.lookupToken? = before.lookupToken? := by
    funext token
    rw [Host.lookupToken?, follows.tokens, Host.lookupToken?]
  unfold hinted?
  rw [same]

end Levels

/-- Looks a position up in the memo table and nowhere else. -/
def consult : Lookup := fun position => do
  if position < 0 then return none
  match (← get).memo.get? position.toInt.toNat with
  | some known => return known
  | none => throw .outOfBounds

/-- The record under a key stands for a value, in a session and in every later one. -/
def Recalls (resolver : Resolver) (session : Session) (key : Nat) (value : Option Resolved) : Prop :=
  ∃ record left, resolver.readRecord key = .ok record ∧ ∀ after, session.Follows after →
    (resolver.resolveRecord left consult record).run.run after = (.ok value, after)

/-- A session whose memo table holds what the records stand for. -/
def Sound (resolver : Resolver) (session : Session) : Prop :=
  ∀ key value, session.memo.get? key = some value → resolver.Recalls session key value

/-- A sound session becomes a later one that is sound. -/
def Keeps (resolver : Resolver) (before after : Session) : Prop :=
  resolver.Sound before → resolver.Sound after ∧ before.Follows after

instance (resolver : Resolver) : IsPreorder Session resolver.Keeps where
  refl session sound := ⟨sound, refl_of Session.Follows session⟩
  trans _ _ _ first second sound := by
    obtain ⟨sound, now⟩ := first sound
    obtain ⟨sound, later⟩ := second sound
    exact ⟨sound, trans_of Session.Follows now later⟩

/-- Another operation repeats what an operation comes to, in every later session, and leaves that
session alone. -/
structure Repeats (resolver : Resolver) (operation again : ResolveM α) (session : Session) :
    Prop where
  keeps : resolver.Keeps session (operation.run.run session).2
  again : resolver.Sound session → ∀ value after,
    (operation.run.run session).1 = .ok value → (operation.run.run session).2.Follows after →
      again.run.run after = (.ok value, after)

section Repeats

variable {resolver : Resolver} {session : Session}

theorem Repeats.of_ok {operation again : ResolveM α} {value : α} {after : Session}
    (ends : operation.run.run session = (.ok value, after)) (keeps : resolver.Keeps session after)
    (repeated : resolver.Sound session → ∀ later, after.Follows later →
      again.run.run later = (.ok value, later)) : Repeats resolver operation again session := by
  constructor
  · rw [ends]
    exact keeps
  · intro sound value' later ends' follows
    rw [ends] at ends' follows
    cases ends'
    exact repeated sound later follows

theorem Repeats.of_error {operation again : ResolveM α} {e : Error} {after : Session}
    (ends : operation.run.run session = (.error e, after)) (keeps : resolver.Keeps session after) :
    Repeats resolver operation again session := by
  constructor
  · rw [ends]
    exact keeps
  · intro _ _ _ ends'
    rw [ends] at ends'
    cases ends'

theorem Repeats.pure (value : α) : Repeats resolver (Pure.pure value) (Pure.pure value) session :=
  .of_ok rfl (refl_of resolver.Keeps session) fun _ _ _ => rfl

theorem Repeats.throw (e : Error) {again : ResolveM α} :
    Repeats resolver (MonadExcept.throw e) again session :=
  .of_error rfl (refl_of resolver.Keeps session)

theorem Repeats.bind {first again : ResolveM α} {next nextAgain : α → ResolveM β}
    (now : Repeats resolver first again session)
    (later : ∀ value between, first.run.run session = (.ok value, between) →
      Repeats resolver (next value) (nextAgain value) between) :
    Repeats resolver (first >>= next) (again >>= nextAgain) session := by
  obtain ⟨keeps, repeated⟩ := now
  generalize ends : first.run.run session = outcome at keeps repeated later
  obtain ⟨result, between⟩ := outcome
  cases result with
  | error e => exact .of_error (run_bind_error ends) keeps
  | ok value =>
    obtain ⟨keeps', repeated'⟩ := later value between rfl
    constructor
    · rw [run_bind_ok ends]
      exact trans_of resolver.Keeps keeps keeps'
    · intro sound final after last follows
      rw [run_bind_ok ends] at last follows
      have sound' := (keeps sound).1
      have since := trans_of Session.Follows (keeps' sound').2 follows
      rw [run_bind_ok (repeated sound value after rfl since)]
      exact repeated' sound' final after last follows

/-- Operations that mirror each other repeat each other if their lookups do. -/
theorem Mirrors.repeats {first second : Nat → Lookup}
    (looks : ∀ left position session, Repeats resolver (first left position)
      (second left position) session) {a b : ResolveM α} (mirrors : Mirrors first second a b) :
    Repeats resolver a b session := by
  induction mirrors generalizing session with
  | pure value => exact .pure value
  | throw is => exact .throw _
  | look left position => exact looks left position session
  | bind _ _ now later => exact .bind now fun value _ _ => later value

theorem Recalls.mono {before after : Session} {key : Nat} {value : Option Resolved}
    (recalls : resolver.Recalls before key value) (follows : before.Follows after) :
    resolver.Recalls after key value := by
  obtain ⟨record, left, reads, again⟩ := recalls
  exact ⟨record, left, reads, fun later since =>
    again later (trans_of Session.Follows follows since)⟩

/-- A session whose memo table is as before is as sound as before. -/
theorem Sound.host {host : Host} (sound : resolver.Sound session)
    (follows : session.host.Follows host) :
    resolver.Sound { session with host } ∧ session.Follows { session with host } := by
  have after : session.Follows { session with host } := ⟨follows, fun _ _ => id⟩
  exact ⟨fun key value known => (sound key value known).mono after, after⟩

theorem repeats_meet (left : Nat) (demand? : Option Demand) :
    Repeats resolver (meet resolver left demand?) (meet resolver left demand?) session := by
  cases demand? with
  | none => exact .pure none
  | some demand =>
    cases finds : find resolver left session.host demand with
    | error e => exact .of_error (run_meet_error finds) (refl_of resolver.Keeps session)
    | ok pair =>
      refine .of_ok (run_meet_ok finds) (fun sound => sound.host (grows_find finds).follows) ?_
      exact fun _ later follows => run_meet_ok (resolver.find_again finds follows.host)

theorem run_resolveRecord_hinted {lookup : Lookup} {left : Nat} {record : OperandRecord}
    {resolved : Resolved} (hinted : hinted? session.host record = some resolved) :
    (resolver.resolveRecord left lookup record).run.run session =
      (.ok (some resolved), session) := by
  rw [resolveRecord, run_get_bind, hinted]
  rfl

theorem run_resolveRecord {lookup : Lookup} {left : Nat} {record : OperandRecord}
    (hinted : hinted? session.host record = none) :
    (resolver.resolveRecord left lookup record).run.run session =
      (demand lookup record >>= meet resolver left).run.run session := by
  rw [resolveRecord, run_get_bind, hinted]

/-- Resolving a record is repeated by resolving it from the memo table. -/
theorem repeats_resolveRecord {lookup : Lookup}
    (looks : ∀ position session, Repeats resolver (lookup position) (consult position) session)
    (left : Nat) (record : OperandRecord) :
    Repeats resolver (resolver.resolveRecord left lookup record)
      (resolver.resolveRecord left consult record) session := by
  have demands : Repeats resolver (demand lookup record) (demand consult record) session :=
    (@Mirrors.demand (fun _ => lookup) (fun _ => consult) 0 record).repeats fun _ => looks
  cases hinted : hinted? session.host record with
  | some resolved =>
    refine .of_ok (run_resolveRecord_hinted hinted) (refl_of resolver.Keeps session) ?_
    exact fun _ later follows =>
      run_resolveRecord_hinted ((hinted?_of_follows follows.host record).trans hinted)
  | none =>
    obtain ⟨keeps, again⟩ := Repeats.bind demands fun demand? between _ =>
      repeats_meet left demand?
    constructor
    · rw [run_resolveRecord hinted]
      exact keeps
    · intro sound value after ends follows
      rw [run_resolveRecord hinted] at ends follows
      have since := trans_of Session.Follows (keeps sound).2 follows
      rw [run_resolveRecord ((hinted?_of_follows since.host record).trans hinted)]
      exact again sound value after ends follows

/-- A record stands for the same at every depth at which it stands for anything. -/
theorem resolveRecord_level {record : OperandRecord} {left other : Nat}
    {value value' : Option Resolved} {after after' : Session}
    (ends : (resolver.resolveRecord left consult record).run.run session = (.ok value, after))
    (ends' : (resolver.resolveRecord other consult record).run.run session = (.ok value', after')) :
    value = value' := by
  cases hinted : hinted? session.host record with
  | some resolved =>
    rw [run_resolveRecord_hinted hinted] at ends ends'
    cases ends
    cases ends'
    rfl
  | none =>
    rw [run_resolveRecord hinted, run_bind] at ends ends'
    cases demands : (demand consult record).run.run session with
    | mk result between =>
      rw [demands] at ends ends'
      cases result with
      | error e => cases ends
      | ok demand? =>
        dsimp only at ends ends'
        cases demand? with
        | none =>
          cases ends
          cases ends'
          rfl
        | some demand =>
          cases finds : find resolver left between.host demand with
          | error e =>
            rw [run_meet_error finds] at ends
            cases ends
          | ok pair =>
            rw [run_meet_ok finds] at ends
            cases ends
            rcases resolver.find_level finds other with same | deep
            · rw [run_meet_ok same] at ends'
              cases ends'
              rfl
            · rw [run_meet_error deep] at ends'
              cases ends'

section Positions

variable {position : Int32} {left : Nat} {record : OperandRecord} {value : Option Resolved}

theorem run_consult_negative (negative : position < 0) :
    (consult position).run.run session = (.ok none, session) := by
  rw [consult, if_pos negative]
  rfl

theorem run_consult (proper : ¬ position < 0)
    (known : session.memo.get? position.toInt.toNat = some value) :
    (consult position).run.run session = (.ok value, session) := by
  rw [consult, if_neg proper, run_get_bind, known]
  rfl

theorem run_resolveWithin_negative (negative : position < 0) :
    (resolver.resolveWithin (left + 1) position).run.run session = (.ok none, session) := by
  rw [resolveWithin, if_pos negative]
  rfl

theorem run_resolveWithin_known (proper : ¬ position < 0)
    (known : session.memo.get? position.toInt.toNat = some value) :
    (resolver.resolveWithin (left + 1) position).run.run session = (.ok value, session) := by
  rw [resolveWithin, if_neg proper, run_get_bind, known]
  rfl

theorem run_resolveWithin_unreadable (proper : ¬ position < 0)
    (unknown : session.memo.get? position.toInt.toNat = none) {e : Error}
    (reads : resolver.readRecord position.toInt.toNat = .error e) :
    (resolver.resolveWithin (left + 1) position).run.run session = (.error e, session) := by
  rw [resolveWithin, if_neg proper, run_get_bind, unknown, reads]
  rfl

theorem run_resolveWithin_error (proper : ¬ position < 0)
    (unknown : session.memo.get? position.toInt.toNat = none)
    (reads : resolver.readRecord position.toInt.toNat = .ok record) {e : Error} {after : Session}
    (fails : (resolver.resolveRecord (left + 1) (resolver.resolveWithin left) record).run.run
      session = (.error e, after)) :
    (resolver.resolveWithin (left + 1) position).run.run session = (.error e, after) := by
  rw [resolveWithin, if_neg proper, run_get_bind, unknown, reads]
  exact (run_bind_ok rfl).trans (run_bind_error fails)

theorem run_resolveWithin_ok (proper : ¬ position < 0)
    (unknown : session.memo.get? position.toInt.toNat = none)
    (reads : resolver.readRecord position.toInt.toNat = .ok record) {after : Session}
    (ends : (resolver.resolveRecord (left + 1) (resolver.resolveWithin left) record).run.run
      session = (.ok value, after)) :
    (resolver.resolveWithin (left + 1) position).run.run session =
      (.ok value, after.note position.toInt.toNat value) := by
  rw [resolveWithin, if_neg proper, run_get_bind, unknown, reads]
  exact (run_bind_ok rfl).trans (run_bind_ok ends)

end Positions

/-- A value that its record stands for may be noted. -/
theorem Sound.note {key : Nat} {value : Option Resolved} {record : OperandRecord} {left : Nat}
    (sound : resolver.Sound session) (reads : resolver.readRecord key = .ok record)
    (again : ∀ after, session.Follows after →
      (resolver.resolveRecord left consult record).run.run after = (.ok value, after)) :
    resolver.Sound (session.note key value) ∧ session.Follows (session.note key value) := by
  have found (other : Nat) : (session.note key value).memo.get? other =
      if other = key then some value else session.memo.get? other := Table.get?_insert _ _ _ _
  -- An entry that is there holds the same value, as both come from the same record.
  have follows : session.Follows (session.note key value) := by
    refine ⟨refl_of Host.Follows session.host, fun other known is => ?_⟩
    rw [found]
    split
    · rename_i same
      subst same
      obtain ⟨record', left', reads', again'⟩ := sound other known is
      cases reads.symm.trans reads'
      have here := refl_of Session.Follows session
      rw [resolveRecord_level (again session here) (again' session here)]
    · exact is
  refine ⟨fun other known is => ?_, follows⟩
  rw [found] at is
  split at is
  · rename_i same
    subst same
    cases is
    exact Recalls.mono ⟨record, left, reads, again⟩ follows
  · exact (sound other known is).mono follows

/-- What a record was resolved to may be noted. -/
theorem Sound.note_of_resolveRecord {lookup : Lookup} {key left : Nat} {record : OperandRecord}
    {value : Option Resolved} {after : Session} (sound : resolver.Sound session)
    (looks : ∀ position session, Repeats resolver (lookup position) (consult position) session)
    (reads : resolver.readRecord key = .ok record)
    (ends : (resolver.resolveRecord left lookup record).run.run session = (.ok value, after)) :
    resolver.Sound (after.note key value) ∧ after.Follows (after.note key value) := by
  obtain ⟨keeps, again⟩ := @repeats_resolveRecord resolver session lookup looks left record
  rw [ends] at keeps again
  exact (keeps sound).1.note reads fun later => again sound value later rfl

/-- Resolving a position is repeated by looking it up in the memo table. -/
theorem repeats_resolveWithin (left : Nat) (position : Int32) (session : Session) :
    Repeats resolver (resolver.resolveWithin left position) (consult position) session := by
  induction left generalizing position session with
  | zero => exact .throw _
  | succ left ih =>
    have same := refl_of resolver.Keeps session
    by_cases negative : position < 0
    · exact .of_ok (run_resolveWithin_negative negative) same fun _ _ _ =>
        run_consult_negative negative
    · cases known : session.memo.get? position.toInt.toNat with
      | some value =>
        exact .of_ok (run_resolveWithin_known negative known) same fun _ _ follows =>
          run_consult negative (follows.memo _ _ known)
      | none =>
        cases reads : resolver.readRecord position.toInt.toNat with
        | error e => exact .of_error (run_resolveWithin_unreadable negative known reads) same
        | ok record =>
          have keeps := (@repeats_resolveRecord resolver session _ ih (left + 1) record).keeps
          generalize outcome : (resolver.resolveRecord (left + 1) (resolver.resolveWithin left)
            record).run.run session = pair at keeps
          obtain ⟨result, between⟩ := pair
          cases result with
          | error e => exact .of_error (run_resolveWithin_error negative known reads outcome) keeps
          | ok value =>
            have noted (sound : resolver.Sound session) :=
              sound.note_of_resolveRecord ih reads outcome
            refine .of_ok (run_resolveWithin_ok negative known reads outcome) (fun sound => ?_)
              fun _ later follows => ?_
            · exact ⟨(noted sound).1, trans_of Session.Follows (keeps sound).2 (noted sound).2⟩
            · refine run_consult negative (follows.memo _ _ ?_)
              rw [Session.note, Table.get?_insert, if_pos rfl]

theorem keeps_resolveWithin (left : Nat) (position : Int32) (session : Session) :
    resolver.Keeps session ((resolver.resolveWithin left position).run.run session).2 :=
  (repeats_resolveWithin left position session).keeps

/-- An operation keeps a sound session sound if its lookups do. -/
theorem Mirrors.keeps {first second : Nat → Lookup}
    (looks : ∀ left position session,
      resolver.Keeps session ((second left position).run.run session).2)
    {a b : ResolveM α} (mirrors : Mirrors first second a b) (session : Session) :
    resolver.Keeps session (b.run.run session).2 := by
  have always (left : Nat) (position : Int32) :
      Always resolver.Keeps (fun _ => True) (second left position) :=
    fun session => ⟨looks left position session, fun _ _ => trivial⟩
  exact (mirrors.symm.always (fun _ _ => trivial) always session).1

end Repeats

end Resolver

end CilRecovery
