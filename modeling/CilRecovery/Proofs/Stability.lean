import CilRecovery.Proofs.Replay

/-!
Answers that last. Once a request has been answered, all that it needs stands in the memo table, and
what stands there stays, so the request is answered alike from then on. A call and a method at one
position come from one record, so they agree whenever both are answered.
-/
namespace CilRecovery

/-- The method that was found, if it is one. -/
def Resolved.method? : Resolved → Option MethodRef
  | method ref => some ref
  | _ => none

namespace Resolver

section Sessions

variable {resolver : Resolver} {session : Session}

/-! ### What lasts -/

theorem get?_of_consult {position : Int32} {value : Option Resolved} (proper : ¬ position < 0)
    (found : (consult position).run.run session = (.ok value, session)) :
    session.memo.get? position.toInt.toNat = some value := by
  cases known : session.memo.get? position.toInt.toNat with
  | none =>
    rw [consult, if_neg proper, run_get_bind, known] at found
    cases found
  | some noted =>
    rw [run_consult proper known] at found
    cases found
    rfl

/-- A position that stands in the memo table is resolved without going further down. -/
theorem run_resolveWithin_of_consult {position : Int32} {value : Option Resolved} (left : Nat)
    (found : (consult position).run.run session = (.ok value, session)) :
    (resolver.resolveWithin (left + 1) position).run.run session = (.ok value, session) := by
  by_cases negative : position < 0
  · rw [run_consult_negative negative] at found
    cases found
    exact run_resolveWithin_negative negative
  · exact run_resolveWithin_known negative (get?_of_consult negative found)

/-- A position that was resolved to some depth is resolved to that depth again. -/
theorem repeats_resolveWithin_self (left : Nat) (position : Int32) (session : Session) :
    Repeats resolver (resolver.resolveWithin left position) (resolver.resolveWithin left position)
      session := by
  cases left with
  | zero => exact .throw _
  | succ left =>
    obtain ⟨keeps, again⟩ := @repeats_resolveWithin resolver (left + 1) position session
    refine ⟨keeps, fun sound value after ends follows => ?_⟩
    exact run_resolveWithin_of_consult left (again sound value after ends follows)

theorem repeats_answer (resolver : Resolver) (request : Request) (session : Session) :
    Repeats resolver (resolver.answer request) (resolver.answer request) session :=
  (resolver.asks_answer request).repeats repeats_resolveWithin_self

/-- A request has its answer, in a session and in every later one. -/
def Settled (resolver : Resolver) (session : Session) (request : Request) (answer : Answer) : Prop :=
  ∀ after, session.Follows after → (resolver.answer request).run.run after = (.ok answer, after)

theorem Settled.mono {request : Request} {answer : Answer} {after : Session}
    (settled : resolver.Settled session request answer) (follows : session.Follows after) :
    resolver.Settled after request answer :=
  fun later since => settled later (trans_of Session.Follows follows since)

/-- An answer settles its request. -/
theorem settled_of_answer {request : Request} {answer : Answer} (sound : resolver.Sound session)
    (ends : ((resolver.answer request).run.run session).1 = .ok answer) :
    resolver.Settled ((resolver.answer request).run.run session).2 request answer :=
  fun after => (resolver.repeats_answer request session).again sound answer after ends

theorem keeps_answerAll (resolver : Resolver) (session : Session) (requests : List Request) :
    resolver.Keeps session (resolver.answerAll session requests).2 := by
  induction requests generalizing session with
  | nil => exact refl_of resolver.Keeps session
  | cons request rest ih =>
    exact trans_of resolver.Keeps (resolver.repeats_answer request session).keeps (ih _)

theorem sound_fresh (resolver : Resolver) (host : Host) : resolver.Sound { host } := by
  intro key value known
  cases known

/-! ### Requests in a row -/

/-- A request that is settled has its answer wherever it is made. -/
theorem getElem?_answerAll_of_settled {request : Request} {answer : Answer} {requests : List Request}
    {index : Nat} (sound : resolver.Sound session)
    (settled : resolver.Settled session request answer) (made : requests[index]? = some request) :
    (resolver.answerAll session requests).1[index]? = some (.ok answer) := by
  induction requests generalizing session index with
  | nil => cases made
  | cons head rest ih =>
    rw [answerAll_cons]
    cases index with
    | zero =>
      cases made
      rw [settled session (refl_of Session.Follows session)]
      rfl
    | succ index =>
      obtain ⟨sound', follows⟩ := (resolver.repeats_answer head session).keeps sound
      exact ih sound' (settled.mono follows) made

/-- A request that was answered is answered alike from then on. -/
theorem getElem?_answerAll_later {request : Request} {answer : Answer} {requests : List Request}
    {first later : Nat} (sound : resolver.Sound session) (order : first ≤ later)
    (made : requests[first]? = some request) (again : requests[later]? = some request)
    (answered : (resolver.answerAll session requests).1[first]? = some (.ok answer)) :
    (resolver.answerAll session requests).1[later]? = some (.ok answer) := by
  induction requests generalizing session first later with
  | nil => cases made
  | cons head rest ih =>
    have sound' := ((resolver.repeats_answer head session).keeps sound).1
    rw [answerAll_cons] at answered ⊢
    cases later with
    | zero =>
      cases Nat.le_zero.mp order
      exact answered
    | succ later =>
      cases first with
      | zero =>
        cases made
        have settled := settled_of_answer sound (Option.some.inj answered)
        exact getElem?_answerAll_of_settled sound' settled again
      | succ first => exact ih sound' (Nat.le_of_succ_le_succ order) made again answered

/-- What was answered on the way is settled in the end. -/
theorem settled_answerAll {request : Request} {answer : Answer} {requests : List Request}
    {index : Nat} (sound : resolver.Sound session) (made : requests[index]? = some request)
    (answered : (resolver.answerAll session requests).1[index]? = some (.ok answer)) :
    resolver.Settled (resolver.answerAll session requests).2 request answer := by
  induction requests generalizing session index with
  | nil => cases made
  | cons head rest ih =>
    have sound' := ((resolver.repeats_answer head session).keeps sound).1
    rw [answerAll_cons] at answered ⊢
    cases index with
    | zero =>
      cases made
      have settled := settled_of_answer sound (Option.some.inj answered)
      exact settled.mono (resolver.keeps_answerAll _ rest sound').2
    | succ index => exact ih sound' made answered

/-! ### Calls and methods -/

theorem run_methodAt {lookup : Lookup} {position : Int32} {value : Option Resolved}
    {after : Session} (found : (lookup position).run.run session = (.ok value, after)) :
    (methodAt lookup position).run.run session = (.ok (value.bind Resolved.method?), after) := by
  rw [methodAt, run_bind_ok found]
  rcases value with _ | (_ | _ | _ | _) <;> rfl

/-- A call record stands for the method that the call means. -/
theorem run_resolveRecord_packedCall {record : CallRecord} {found : Option (MethodRef × Bool)}
    (calls : (packedCall consult record).run.run session = (.ok found, session)) (left : Nat) :
    (resolver.resolveRecord left consult (.packedCall record)).run.run session =
      (.ok (found.map fun call => .method call.1), session) := by
  have unhinted : hinted? session.host (.packedCall record) = none := rfl
  rw [run_resolveRecord unhinted, demand, bind_assoc, run_bind_ok calls]
  cases found <;> rfl

theorem toInt_toInt32 {position : UInt32} (low : position.toNat < 0x80000000) :
    position.toInt32.toInt = position.toNat := by
  have value : (UInt32.ofNat position.toNat).toInt32.toInt = position.toNat := by
    rw [UInt32.toInt32_ofNat', Int32.toInt_ofNat_of_lt low]
  rwa [UInt32.ofNat_toNat] at value

theorem not_toInt32_neg {position : UInt32} (low : position.toNat < 0x80000000) :
    ¬ position.toInt32 < 0 := by
  rw [Int32.lt_iff_toInt_lt, toInt_toInt32 low, Int32.toInt_zero]
  omega

/-- A method that was found at a position is what the record there stands for. -/
theorem exists_value_of_resolveMethod {position : UInt32} {record : OperandRecord}
    {method : Option MethodRef} (sound : resolver.Sound session)
    (low : position.toNat < 0x80000000) (reads : resolver.readRecord position.toNat = .ok record)
    (ends : (resolver.resolveMethod position).run.run session = (.ok method, session)) :
    ∃ value left, method = value.bind Resolved.method? ∧
      (resolver.resolveRecord left consult record).run.run session = (.ok value, session) := by
  obtain ⟨value, between, found, _⟩ := exists_of_run_bind_eq_ok ends
  rw [resolveMethod, run_methodAt found] at ends
  cases ends
  have proper := not_toInt32_neg low
  have repeats := @repeats_resolveWithin resolver (resolver.maxDepth + 1) position.toInt32 session
  have again := repeats.again sound value session
  rw [found] at again
  have noted := get?_of_consult proper (again rfl (refl_of Session.Follows session))
  rw [toInt_toInt32 low, Int.toNat_natCast] at noted
  obtain ⟨record', left, reads', recalled⟩ := sound _ _ noted
  cases reads.symm.trans reads'
  exact ⟨value, left, rfl, recalled session (refl_of Session.Follows session)⟩

/-- A call and a method found at one position are of one method. -/
theorem map_fst_of_resolveCall {position : UInt32} {record : OperandRecord}
    {found : Option (MethodRef × Bool)} {method : Option MethodRef} (sound : resolver.Sound session)
    (low : position.toNat < 0x80000000) (reads : resolver.readRecord position.toNat = .ok record)
    (kind : record.kind = .packedCall ∨ record.kind = .method)
    (calls : (resolver.resolveCall position).run.run session = (.ok found, session))
    (ends : (resolver.resolveMethod position).run.run session = (.ok method, session)) :
    found.map Prod.fst = method := by
  rw [resolveCall, reads] at calls
  cases record with
  | packedCall record =>
    have repeats : Repeats resolver (packedCall (resolver.resolveWithin resolver.maxDepth) record)
        (packedCall consult record) session :=
      (@Mirrors.packedCall resolver.resolveWithin (fun _ => consult) _ record).repeats
        repeats_resolveWithin
    have called : (packedCall (resolver.resolveWithin resolver.maxDepth) record).run.run session =
        (.ok found, session) := calls
    have again := repeats.again sound found session
    rw [called] at again
    have consulted := again rfl (refl_of Session.Follows session)
    obtain ⟨value, left, rfl, recalled⟩ := exists_value_of_resolveMethod sound low reads ends
    rw [run_resolveRecord_packedCall consulted] at recalled
    cases recalled
    cases found <;> rfl
  | method record =>
    have mapped : (resolver.resolveMethod position >>= fun found => Pure.pure
        (found.map fun method => (method, record.isVirtual))).run.run session =
          (.ok found, session) := calls
    rw [run_bind_ok ends] at mapped
    cases mapped
    cases method <;> rfl
  | _ => rcases kind with kind | kind <;> cases kind

end Sessions

/-- Whatever is asked of a resolver in whatever order: a request that was answered, if only that
nothing is there, gets the same answer from then on; and where a position in the lower half holds a
call or a method, the call and the method that are found there agree. -/
theorem answerAll_stable {resolver : Resolver} {host : Host} {requests : List Request}
    {results : List (Except Error Answer)} {last : Session}
    (ran : resolver.answerAll { host } requests = (results, last)) :
    (∀ (first later : Nat) (request : Request) (answer : Answer), first ≤ later →
      requests[first]? = some request → requests[later]? = some request →
      results[first]? = some (.ok answer) → results[later]? = some (.ok answer)) ∧
    ∀ (one other : Nat) (position : UInt32) (record : OperandRecord)
      (found : Option (MethodRef × Bool)) (method : Option MethodRef),
      position.toNat < 0x80000000 → resolver.readRecord position.toNat = .ok record →
      (record.kind = .packedCall ∨ record.kind = .method) →
      requests[one]? = some (.call position) → requests[other]? = some (.method position) →
      results[one]? = some (.ok (.call found)) → results[other]? = some (.ok (.method method)) →
      found.map Prod.fst = method := by
  obtain rfl : (resolver.answerAll { host } requests).1 = results := by rw [ran]
  obtain rfl : (resolver.answerAll { host } requests).2 = last := by rw [ran]
  have fresh := resolver.sound_fresh host
  have sound := (resolver.keeps_answerAll { host } requests fresh).1
  constructor
  · intro first later request answer order made again answered
    exact getElem?_answerAll_later fresh order made again answered
  · intro one other position record found method low reads kind called asked call plain
    have here := refl_of Session.Follows (resolver.answerAll { host } requests).2
    obtain ⟨_, _, calls, same⟩ :=
      exists_of_run_bind_eq_ok (settled_answerAll fresh called call _ here)
    cases same
    obtain ⟨_, _, ends, same⟩ :=
      exists_of_run_bind_eq_ok (settled_answerAll fresh asked plain _ here)
    cases same
    exact map_fst_of_resolveCall sound low reads kind calls ends

namespace GenericCall

/-- The method that the call means: its argument is `E` now. -/
def called : MethodRef := ⟨typeE, "f", { ret := .methodParam 0, genericParams := 1 }, [typeE]⟩

theorem answerAll_stable_call :
    (resolver.answerAll { host } requests).1[1]? = some (.error (.recursionLimit 4)) ∧
    (resolver.answerAll { host } requests).1[5]? = some (.ok (.field none)) ∧
    (resolver.answerAll { host } requests).1[6]? = some (.ok (.call (some (called, true)))) ∧
    Option.map Prod.fst (some (called, true)) = some called := by
  obtain ⟨reads, first, deep, absent, plain⟩ :
      resolver.readRecord 50 = .ok (.packedCall ⟨22, [5], true⟩) ∧
      (resolver.answerAll { host } requests).1[0]? = some (.ok (.call (some (called, true)))) ∧
      (resolver.answerAll { host } requests).1[1]? = some (.error (.recursionLimit 4)) ∧
      (resolver.answerAll { host } requests).1[2]? = some (.ok (.field none)) ∧
      (resolver.answerAll { host } requests).1[3]? = some (.ok (.method (some called))) := by
    decide +kernel
  have stable := answerAll_stable (Prod.eta (resolver.answerAll { host } requests)).symm
  refine ⟨deep, stable.1 2 5 (.field 84) _ (by decide) rfl rfl absent,
    stable.1 0 6 (.call 50) _ (by decide) rfl rfl first, ?_⟩
  exact stable.2 0 3 50 _ _ _ (by decide) reads (.inl rfl) rfl rfl first plain

end GenericCall

end Resolver

end CilRecovery
