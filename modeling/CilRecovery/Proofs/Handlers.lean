import CilRecovery.Recovery.Labels
import CilRecovery.Proofs.Growth

/-!
Exception handlers over a decoded body. Where the handlers of a body are found, each stands for its
record, and each boundary has the number of instructions before it as its label.
-/
namespace CilRecovery

theorem Resolver.lift_reaches {result : Except Error α} {start session : Session}
    {done : α → Session → Prop} (fails : OnlyFails Error.Ordinary result)
    (grows : start.Grows session) (holds : ∀ value, result = .ok value → done value session) :
    Reaches (lift result) session done fun e after => e.Ordinary ∧ start.Grows after := by
  cases result with
  | ok value => exact .pure (holds value rfl)
  | error e => exact .throw ⟨fails e rfl, grows⟩

namespace DecodedBody

theorem boundary_onlyFails (body : DecodedBody) (offset : Nat) :
    OnlyFails Error.Ordinary (body.boundary offset) := by
  rw [boundary]
  split
  · exact .ok _
  · split
    · exact .ok _
    · exact .error (Error.IsMalformed.ordinary ⟨_, rfl⟩)

theorem labelRange_onlyFails (body : DecodedBody) (range : OffsetRange) :
    OnlyFails Error.Ordinary (body.labelRange range) :=
  .bind (body.boundary_onlyFails _) fun _ => .bind (body.boundary_onlyFails _) fun _ => .ok _

end DecodedBody

namespace HandlerRecord

theorem kind_onlyFails (record : HandlerRecord) : OnlyFails Error.Ordinary record.kind := by
  rw [kind]
  split
  · exact .ok _
  · exact .error (Error.IsMalformed.ordinary ⟨_, rfl⟩)

theorem filterLabel_onlyFails (body : DecodedBody) (record : HandlerRecord) (kind : HandlerKind) :
    OnlyFails Error.Ordinary (record.filterLabel body kind) := by
  cases kind with
  | filter => exact .bind (body.boundary_onlyFails _) fun _ => .ok _
  | _ => exact .ok none

theorem asks_caughtType (resolver : Resolver) (record : HandlerRecord) (kind : HandlerKind) :
    Resolver.Asks resolver (record.caughtType resolver kind) := by
  cases kind with
  | typed =>
    refine .bind (resolver.asks_resolveType _) fun found => ?_
    cases found with
    | some sig => exact .pure _
    | none => exact .throw (by constructor <;> simp [Error.kind])
  | _ => exact .pure none

theorem asks_toHandler (resolver : Resolver) (body : DecodedBody) (record : HandlerRecord) :
    Resolver.Asks resolver (record.toHandler resolver body) :=
  .bind (.lift record.kind_onlyFails) fun kind =>
    .bind (record.asks_caughtType resolver kind) fun _ =>
      .bind (.lift (record.filterLabel_onlyFails body kind)) fun _ =>
        .bind (.lift (body.labelRange_onlyFails _)) fun _ =>
          .map (.lift (body.labelRange_onlyFails _)) _

/-- A clause has a caught type exactly if it is a typed one. -/
theorem isSome_of_caughtType {resolver : Resolver} {record : HandlerRecord} {kind : HandlerKind}
    {catchType : Option TypeSig} {session after : Session}
    (ends : (record.caughtType resolver kind).run.run session = (.ok catchType, after)) :
    catchType.isSome ↔ kind = .typed := by
  cases kind with
  | typed =>
    obtain ⟨found, between, _, ends⟩ := exists_of_run_bind_eq_ok ends
    cases found with
    | none => cases ends
    | some sig =>
      cases ends
      simp
  | _ =>
    cases ends
    simp

/-- A handler stands for a record over a body. -/
structure Links (body : DecodedBody) (record : HandlerRecord) (handler : ExceptionHandler) :
    Prop where
  kind : record.kind = .ok handler.kind
  caught : handler.catchType.isSome ↔ handler.kind = .typed
  filter : record.filterLabel body handler.kind = .ok handler.filter
  guarded : body.labelRange record.guarded = .ok handler.guarded
  handler : body.labelRange record.handler = .ok handler.handler

theorem toHandler_reaches (resolver : Resolver) (body : DecodedBody) (record : HandlerRecord)
    (session : Session) :
    Reaches (record.toHandler resolver body) session
      (fun handler after => session.Grows after ∧ record.Links body handler)
      (fun e after => e.Ordinary ∧ session.Grows after) := by
  refine .bind (Resolver.lift_reaches record.kind_onlyFails (refl_of _ session) fun kind is => ?_)
  refine .bind (.of_obeys ((record.asks_caughtType resolver kind).tame session)
    (fun catchType between ends grows => ?_) fun e after fault grows => ⟨fault, grows⟩)
  refine .bind (Resolver.lift_reaches (record.filterLabel_onlyFails body kind) grows
    fun filter filtered => ?_)
  refine .bind (Resolver.lift_reaches (body.labelRange_onlyFails _) grows fun guarded start => ?_)
  refine .bind (Resolver.lift_reaches (body.labelRange_onlyFails _) grows fun handler finish => ?_)
  exact .pure ⟨grows, is, isSome_of_caughtType ends, filtered, start, finish⟩

end HandlerRecord

theorem DecodedBody.asks_fixHandlers (resolver : Resolver) (body : DecodedBody)
    (records : List HandlerRecord) : Resolver.Asks resolver (body.fixHandlers resolver records) :=
  .mapM fun record _ => record.asks_toHandler resolver body

/-- The handlers of a body stand for their records, in order. -/
theorem DecodedBody.fixHandlers_reaches (resolver : Resolver) (body : DecodedBody)
    (records : List HandlerRecord) (session : Session) :
    Reaches (body.fixHandlers resolver records) session
      (fun handlers after =>
        session.Grows after ∧ List.Forall₂ (HandlerRecord.Links body) records handlers)
      (fun e after => e.Ordinary ∧ session.Grows after) :=
  .mapM (HandlerRecord.toHandler_reaches resolver body) records session

end CilRecovery
