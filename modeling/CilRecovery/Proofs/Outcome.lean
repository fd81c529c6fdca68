import Mathlib.Data.List.Forall2
import Mathlib.Order.Defs.Unbundled

/-!
How operations end. An operation that may fail and changes a state is run to a result and a
state; what it may do to the state and which errors it may end in come together from its steps.
-/
namespace CilRecovery

variable {ε σ α β : Type}

/-- A result that, if it is an error, is one of some kind. -/
def OnlyFails (fault : ε → Prop) (result : Except ε α) : Prop := ∀ e, result = .error e → fault e

namespace OnlyFails

variable {fault : ε → Prop}

theorem ok (value : α) : OnlyFails fault (.ok value) := by
  intro e fails
  cases fails

theorem error {e : ε} (is : fault e) : OnlyFails fault (.error e : Except ε α) := by
  intro e' fails
  cases fails
  exact is

theorem bind {first : Except ε α} {next : α → Except ε β} (now : OnlyFails fault first)
    (later : ∀ value, OnlyFails fault (next value)) : OnlyFails fault (first >>= next) := by
  cases first with
  | error e => exact error (now e rfl)
  | ok value => exact later value

theorem map {result : Except ε α} (now : OnlyFails fault result) (f : α → β) :
    OnlyFails fault (result.map f) := by
  cases result with
  | error e => exact error (now e rfl)
  | ok value => exact ok (f value)

theorem mapM {f : α → Except ε β} {list : List α} (each : ∀ a ∈ list, OnlyFails fault (f a)) :
    OnlyFails fault (list.mapM f) := by
  induction list with
  | nil => exact ok []
  | cons a rest ih =>
    rw [List.mapM_cons]
    apply bind (each a (by simp))
    intro first
    apply bind (ih fun b member => each b (by simp [member]))
    intro others
    exact ok _

theorem foldlM {f : β → α → Except ε β} {list : List α} (each : ∀ b a, OnlyFails fault (f b a))
    (start : β) : OnlyFails fault (list.foldlM f start) := by
  induction list generalizing start with
  | nil => exact ok start
  | cons a rest ih =>
    rw [List.foldlM_cons]
    exact bind (each start a) ih

end OnlyFails

/-- A sequence that does not fail has a first step that does not fail. -/
theorem exists_of_bind_eq_ok {first : Except ε α} {next : α → Except ε β} {result : β}
    (ends : (first >>= next) = .ok result) :
    ∃ value, first = .ok value ∧ next value = .ok result := by
  cases first with
  | error e => cases ends
  | ok value => exact ⟨value, rfl, ends⟩

theorem exists_of_map_eq_ok {first : Except ε α} {f : α → β} {result : β}
    (ends : first.map f = .ok result) : ∃ value, first = .ok value ∧ f value = result := by
  cases first with
  | error e => cases ends
  | ok value => exact ⟨value, rfl, Except.ok.inj ends⟩

theorem toOption_bind (first : Except ε α) (next : α → Except ε β) :
    (first >>= next).toOption = first.toOption.bind fun value => (next value).toOption := by
  cases first <;> rfl

theorem eq_ok_of_isSome {result : Except ε α} (there : result.toOption.isSome = true) (other : α) :
    result = .ok (result.toOption.getD other) := by
  cases result with
  | error e => cases there
  | ok value => rfl

/-- Where a list is worked off without an error, so is each of its elements. -/
theorem exists_ok_of_mapM {f : α → Except ε β} {list : List α} {results : List β}
    (ends : list.mapM f = .ok results) {a : α} (member : a ∈ list) : ∃ b, f a = .ok b := by
  induction list generalizing results with
  | nil => cases member
  | cons first rest ih =>
    rw [List.mapM_cons] at ends
    cases head : f first with
    | error e => rw [head] at ends; cases ends
    | ok b =>
      rw [head] at ends
      cases tail : rest.mapM f with
      | error e => rw [tail] at ends; cases ends
      | ok others =>
        rcases List.mem_cons.mp member with rfl | later
        · exact ⟨b, head⟩
        · exact ih tail later

/-- Each result of a list that was worked off is that of one of its elements. -/
theorem exists_of_mem_mapM {f : α → Except ε β} {list : List α} {results : List β}
    (ends : list.mapM f = .ok results) {b : β} (member : b ∈ results) : ∃ a ∈ list, f a = .ok b := by
  induction list generalizing results with
  | nil =>
    cases ends
    cases member
  | cons first rest ih =>
    rw [List.mapM_cons] at ends
    obtain ⟨value, head, ends⟩ := exists_of_bind_eq_ok ends
    obtain ⟨others, tail, ends⟩ := exists_of_bind_eq_ok ends
    cases ends
    rcases List.mem_cons.mp member with rfl | later
    · exact ⟨first, by simp, head⟩
    · obtain ⟨a, there, is⟩ := ih tail later
      exact ⟨a, by simp [there], is⟩

theorem forall₂_of_mapM {f : α → Except ε β} {list : List α} {results : List β}
    (ends : list.mapM f = .ok results) : List.Forall₂ (fun a b => f a = .ok b) list results := by
  induction list generalizing results with
  | nil =>
    cases ends
    exact .nil
  | cons first rest ih =>
    rw [List.mapM_cons] at ends
    obtain ⟨value, head, ends⟩ := exists_of_bind_eq_ok ends
    obtain ⟨others, tail, ends⟩ := exists_of_bind_eq_ok ends
    cases ends
    exact .cons head (ih tail)

/-- A sequence goes on with the value of its first step, or ends with its error. -/
theorem run_bind (first : ExceptT ε (StateM σ) α) (next : α → ExceptT ε (StateM σ) β) (state : σ) :
    (first >>= next).run.run state =
      match first.run.run state with
      | (.ok value, after) => (next value).run.run after
      | (.error e, after) => (.error e, after) := by
  change (StateT.run (ExceptT.run (first >>= next)) state : Except ε β × σ) = _
  rw [ExceptT.run_bind, StateT.run_bind]
  change (match first.run.run state with | (_, _) => _ : Except ε β × σ) = _
  rcases first.run.run state with ⟨_ | _, _⟩ <;> rfl

theorem run_bind_ok {first : ExceptT ε (StateM σ) α} {next : α → ExceptT ε (StateM σ) β}
    {state after : σ} {value : α} (ends : first.run.run state = (.ok value, after)) :
    (first >>= next).run.run state = (next value).run.run after := by
  rw [run_bind, ends]

theorem run_bind_error {first : ExceptT ε (StateM σ) α} {next : α → ExceptT ε (StateM σ) β}
    {state after : σ} {e : ε} (ends : first.run.run state = (.error e, after)) :
    (first >>= next).run.run state = (.error e, after) := by
  rw [run_bind, ends]

/-- A sequence that ends without an error has a first step that does, and goes on from there. -/
theorem exists_of_run_bind_eq_ok {first : ExceptT ε (StateM σ) α}
    {next : α → ExceptT ε (StateM σ) β} {state after : σ} {result : β}
    (ends : (first >>= next).run.run state = (.ok result, after)) :
    ∃ value between, first.run.run state = (.ok value, between) ∧
      (next value).run.run between = (.ok result, after) := by
  rw [run_bind] at ends
  generalize first.run.run state = outcome at ends
  obtain ⟨value | e, between⟩ := outcome
  · cases ends
  · exact ⟨_, _, rfl, ends⟩

@[simp]
theorem run_pure (value : α) (state : σ) :
    (pure value : ExceptT ε (StateM σ) α).run.run state = (.ok value, state) := rfl

@[simp]
theorem run_get_bind (next : σ → ExceptT ε (StateM σ) β) (state : σ) :
    (get >>= next).run.run state = (next state).run.run state := rfl

@[simp]
theorem run_set_bind (next : PUnit → ExceptT ε (StateM σ) β) (state after : σ) :
    (set after >>= next).run.run state = (next ⟨⟩).run.run after := rfl

@[simp]
theorem run_modify_bind (change : σ → σ) (next : PUnit → ExceptT ε (StateM σ) β) (state : σ) :
    (modify change >>= next).run.run state = (next ⟨⟩).run.run (change state) := rfl

/-- However an operation ends, it changes the state only in some way and fails only with errors of
some kind. -/
def Obeys (change : σ → σ → Prop) (fault : ε → Prop) (operation : ExceptT ε (StateM σ) α)
    (state : σ) : Prop :=
  change state (operation.run.run state).2 ∧ OnlyFails fault (operation.run.run state).1

namespace Obeys

variable {change : σ → σ → Prop} {fault : ε → Prop} {state : σ}

section

variable [IsPreorder σ change]

theorem pure (value : α) : Obeys change fault (Pure.pure value) state :=
  ⟨refl_of change state, .ok value⟩

theorem throw {e : ε} (is : fault e) :
    Obeys change fault (MonadExcept.throw e : ExceptT ε (StateM σ) α) state :=
  ⟨refl_of change state, .error is⟩

theorem bind {first : ExceptT ε (StateM σ) α} {next : α → ExceptT ε (StateM σ) β}
    (now : Obeys change fault first state)
    (later : ∀ value after, first.run.run state = (.ok value, after) →
      Obeys change fault (next value) after) :
    Obeys change fault (first >>= next) state := by
  unfold Obeys at now ⊢
  rw [run_bind]
  generalize ends : first.run.run state = outcome at now later
  obtain ⟨result, after⟩ := outcome
  cases result with
  | error e => exact ⟨now.1, .error (now.2 e rfl)⟩
  | ok value =>
    obtain ⟨changed, fails⟩ := later value after rfl
    exact ⟨trans_of change now.1 changed, fails⟩

end

theorem get_bind {next : σ → ExceptT ε (StateM σ) β} (later : Obeys change fault (next state) state) :
    Obeys change fault (get >>= next) state := later

theorem modify_bind [IsTrans σ change] {f : σ → σ} {next : PUnit → ExceptT ε (StateM σ) β}
    (changed : change state (f state)) (later : Obeys change fault (next ⟨⟩) (f state)) :
    Obeys change fault (modify f >>= next) state :=
  ⟨trans_of change changed later.1, later.2⟩

end Obeys

/-- An operation that obeys in every state. -/
def Always (change : σ → σ → Prop) (fault : ε → Prop) (operation : ExceptT ε (StateM σ) α) : Prop :=
  ∀ state, Obeys change fault operation state

namespace Always

variable {change : σ → σ → Prop} {fault : ε → Prop} [IsPreorder σ change]

theorem pure (value : α) : Always change fault (Pure.pure value) := fun _ => .pure value

theorem throw {e : ε} (is : fault e) :
    Always change fault (MonadExcept.throw e : ExceptT ε (StateM σ) α) := fun _ => .throw is

theorem bind {first : ExceptT ε (StateM σ) α} {next : α → ExceptT ε (StateM σ) β}
    (now : Always change fault first) (later : ∀ value, Always change fault (next value)) :
    Always change fault (first >>= next) := fun state =>
  .bind (now state) fun value after _ => later value after

end Always

/-- An operation reaches a result with one property or an error with another. -/
structure Reaches (operation : ExceptT ε (StateM σ) α) (state : σ) (done : α → σ → Prop)
    (failed : ε → σ → Prop) : Prop where
  ends :
    match operation.run.run state with
    | (.ok value, after) => done value after
    | (.error e, after) => failed e after

namespace Reaches

variable {state : σ} {failed : ε → σ → Prop}

theorem pure {value : α} {done : α → σ → Prop} (holds : done value state) :
    Reaches (Pure.pure value) state done failed := ⟨holds⟩

theorem throw {e : ε} {done : α → σ → Prop} (holds : failed e state) :
    Reaches (MonadExcept.throw e) state done failed := ⟨holds⟩

theorem bind {first : ExceptT ε (StateM σ) α} {next : α → ExceptT ε (StateM σ) β}
    {done : β → σ → Prop}
    (now : Reaches first state (fun value between => Reaches (next value) between done failed)
      failed) :
    Reaches (first >>= next) state done failed := by
  constructor
  rw [run_bind]
  have ends := now.ends
  generalize first.run.run state = outcome at ends
  obtain ⟨result, between⟩ := outcome
  cases result with
  | error e => exact ends
  | ok value => exact ends.ends

theorem get_bind {next : σ → ExceptT ε (StateM σ) β} {done : β → σ → Prop}
    (later : Reaches (next state) state done failed) :
    Reaches (get >>= next) state done failed := ⟨later.ends⟩

theorem set_bind {after : σ} {next : PUnit → ExceptT ε (StateM σ) β} {done : β → σ → Prop}
    (later : Reaches (next ⟨⟩) after done failed) :
    Reaches (set after >>= next) state done failed := ⟨later.ends⟩

theorem modify_bind {change : σ → σ} {next : PUnit → ExceptT ε (StateM σ) β}
    {done : β → σ → Prop} (later : Reaches (next ⟨⟩) (change state) done failed) :
    Reaches (modify change >>= next) state done failed := ⟨later.ends⟩

theorem trivial {operation : ExceptT ε (StateM σ) α} :
    Reaches operation state (fun _ _ => True) fun _ _ => True := by
  constructor
  generalize operation.run.run state = outcome
  obtain ⟨result, after⟩ := outcome
  cases result <;> exact True.intro

theorem of_obeys {change : σ → σ → Prop} {fault : ε → Prop} {operation : ExceptT ε (StateM σ) α}
    {done : α → σ → Prop} (obeys : Obeys change fault operation state)
    (ends : ∀ value after, operation.run.run state = (.ok value, after) → change state after →
      done value after)
    (fails : ∀ e after, fault e → change state after → failed e after) :
    Reaches operation state done failed := by
  unfold Obeys at obeys
  constructor
  generalize operation.run.run state = outcome at obeys ends
  obtain ⟨result, after⟩ := outcome
  cases result with
  | error e => exact fails e after (obeys.2 e rfl) obeys.1
  | ok value => exact ends value after rfl obeys.1

theorem mono {operation : ExceptT ε (StateM σ) α} {done done' : α → σ → Prop}
    {failed' : ε → σ → Prop} (holds : Reaches operation state done failed)
    (ends : ∀ value after, done value after → done' value after)
    (fails : ∀ e after, failed e after → failed' e after) :
    Reaches operation state done' failed' := by
  have reached := holds.ends
  constructor
  generalize operation.run.run state = outcome at reached
  obtain ⟨result, after⟩ := outcome
  cases result with
  | error e => exact fails e after reached
  | ok value => exact ends value after reached

/-- Two properties of how an operation ends hold together. -/
theorem and {operation : ExceptT ε (StateM σ) α} {done done' : α → σ → Prop}
    {failed' : ε → σ → Prop} (first : Reaches operation state done failed)
    (second : Reaches operation state done' failed') :
    Reaches operation state (fun value after => done value after ∧ done' value after)
      (fun e after => failed e after ∧ failed' e after) := by
  have reached := first.ends
  have reached' := second.ends
  constructor
  generalize operation.run.run state = outcome at reached reached'
  obtain ⟨result, after⟩ := outcome
  cases result <;> exact ⟨reached, reached'⟩

/-- After a step of which nothing is asked, what holds of all results holds of the result. -/
theorem any_bind {first : ExceptT ε (StateM σ) α} {next : α → ExceptT ε (StateM σ) β}
    {done : β → σ → Prop}
    (later : ∀ value between, Reaches (next value) between done fun _ _ => True) :
    Reaches (first >>= next) state done fun _ _ => True :=
  bind (trivial.mono (fun value between _ => later value between) fun _ _ => id)

/-- Where each element of a list comes to a result that stands in some relation to it, so does the
list. -/
theorem mapM {change : σ → σ → Prop} [IsPreorder σ change] {fault : ε → Prop}
    {relates : α → β → Prop} {f : α → ExceptT ε (StateM σ) β}
    (each : ∀ a state, Reaches (f a) state (fun b after => change state after ∧ relates a b)
      (fun e after => fault e ∧ change state after)) (list : List α) (state : σ) :
    Reaches (list.mapM f) state (fun bs after => change state after ∧ List.Forall₂ relates list bs)
      (fun e after => fault e ∧ change state after) := by
  induction list generalizing state with
  | nil => exact pure ⟨refl_of change state, .nil⟩
  | cons a rest ih =>
    rw [List.mapM_cons]
    refine bind <| (each a state).mono (fun b between ⟨now, related⟩ => ?_) fun _ _ => id
    refine bind <| (ih between).mono (fun bs after ⟨later, others⟩ => ?_) fun e after ⟨is, later⟩ =>
      ⟨is, trans_of change now later⟩
    exact pure ⟨trans_of change now later, .cons related others⟩

end Reaches

end CilRecovery
