import CilRecovery.Proofs.Memory

/-!
One method recovered twice: among others, in a session that others have used before, and alone.
The two sessions go side by side. What others imported changes nothing if it answers none of the
queries of the method otherwise, and their results change nothing unless the method alone runs out
of depth.
-/
namespace CilRecovery

/-- The query in a demand for a method. -/
def Demand.query? : Demand → Option MethodQuery
  | method query => some query
  | _ => none

/-- The query that a record comes to, read off the memo table. -/
def Session.query? (session : Session) (record : OperandRecord) : Option MethodQuery :=
  if (Resolver.hinted? session.host record).isSome then none
  else
    let (result, _) := (Resolver.demand Resolver.consult record).run.run session
    result.toOption.join.bind Demand.query?

theorem Session.query?_eq_some {session after : Session} {record : OperandRecord}
    {query : MethodQuery} (unhinted : Resolver.hinted? session.host record = none)
    (demands : (Resolver.demand Resolver.consult record).run.run session =
      (.ok (some (.method query)), after)) : session.query? record = some query := by
  rw [query?, unhinted, demands]
  rfl

/-- What is fixed while a method is recovered among others and alone. -/
structure Twin where
  resolver : Resolver
  /-- The module at the start. -/
  start : Host
  /-- The references imported for other methods. -/
  foreign : List MethodRef
  /-- Whether the results of other methods are there too. -/
  shared : Bool
  /-- The session that the method comes to alone. -/
  last : Session

namespace Twin

/-- No reference imported for another method answers a query otherwise. -/
def Fair (twin : Twin) (query : MethodQuery) (method : MethodRef) : Prop :=
  query.isInternal twin.start = false → query.findImported? twin.start.importedMethods = none →
    ∀ other ∈ twin.foreign, query.answeredBy other = true → other.sig = method.sig

/-- No query of the method alone is answered otherwise. -/
def Undisturbed (twin : Twin) : Prop :=
  ∀ key record query method, twin.last.memo.get? key = some (some (.method method)) →
    twin.resolver.readRecord key = .ok record → twin.last.query? record = some query →
      twin.Fair query method

/-- A session among others, and the session alone. -/
structure Beside (twin : Twin) (among alone : Session) : Prop where
  host : twin.start.Follows among.host
  hostAlone : twin.start.Follows alone.host
  sound : twin.resolver.Sound among
  soundAlone : twin.resolver.Sound alone
  methods : ∃ own, alone.host.importedMethods = twin.start.importedMethods ++ own ∧
    among.host.importedMethods =
      twin.start.importedMethods ++ twin.foreign ++ own.filter (· ∉ twin.foreign)
  memo : ∀ key value, alone.memo.get? key = some value → among.memo.get? key = some value
  same : twin.shared = false → ∀ key, among.memo.get? key = alone.memo.get? key

/-- Two operations agree: the one alone runs out of depth where results are shared, or they come
to the same and the sessions stay side by side. An idle operation is one of which it is known that
it does not fail. -/
def Agrees (twin : Twin) (idle : Bool) (a b : ResolveM α) (among alone : Session) : Prop :=
  (idle = true → ∃ value, (a.run.run among).1 = .ok value) →
    (b.run.run alone).2.Follows twin.last →
      twin.shared = true ∧ (b.run.run alone).1 = .error (.recursionLimit twin.resolver.maxDepth) ∨
        (a.run.run among).1 = (b.run.run alone).1 ∧
          twin.Beside (a.run.run among).2 (b.run.run alone).2

section Hosts

variable {twin : Twin} {among alone : Session}

/-- The import list of the method alone, and that among others, after one more import. -/
theorem exists_addNew_own (method : MethodRef) (start foreign own : List MethodRef) :
    ∃ own', addNew method (start ++ own) = start ++ own' ∧
      addNew method (start ++ foreign ++ own.filter (· ∉ foreign)) =
        start ++ foreign ++ own'.filter (· ∉ foreign) := by
  by_cases here : method ∈ start ++ own
  · refine ⟨own, Host.addNew_of_mem here, Host.addNew_of_mem ?_⟩
    by_cases foreign' : method ∈ foreign
    · simp [foreign']
    · simpa [foreign'] using here
  · refine ⟨own ++ [method], ?_, ?_⟩
    · rw [addNew, if_neg here, List.append_assoc]
    · by_cases foreign' : method ∈ foreign
      · rw [Host.addNew_of_mem (by simp [foreign'])]
        simp [foreign']
      · have absent : method ∉ start ++ foreign ++ own.filter (· ∉ foreign) := by
          simpa [foreign'] using here
        rw [addNew, if_neg absent]
        simp [foreign']

/-- If none of some elements passes a test, leaving them out does not change what is found. -/
theorem find?_filter_notMem [DecidableEq α] {test : α → Bool} {out : List α}
    (none : out.find? test = none) (list : List α) :
    (list.filter (· ∉ out)).find? test = list.find? test := by
  induction list with
  | nil => rfl
  | cons a rest ih =>
    by_cases member : a ∈ out
    · have fails : test a = false := by
        simpa using List.find?_eq_none.mp none a member
      rw [List.filter_cons_of_neg (by simpa using member), ih, List.find?_cons, fails]
    · rw [List.filter_cons_of_pos (by simpa using member), List.find?_cons, List.find?_cons, ih]

theorem Beside.fst_resolve (beside : twin.Beside among alone) {query : MethodQuery}
    (fair : twin.Fair query (query.resolve alone.host).1) :
    (query.resolve among.host).1 = (query.resolve alone.host).1 := by
  have defined := (query.definition?_of_follows beside.host).trans
    (query.definition?_of_follows beside.hostAlone).symm
  have internal := query.isInternal_of_follows beside.host
  have internalAlone := query.isInternal_of_follows beside.hostAlone
  cases isInternal : query.isInternal twin.start with
  | true =>
    rw [query.resolve_internal (internal.trans isInternal),
      query.resolve_internal (internalAlone.trans isInternal), defined]
  | false =>
    rw [query.fst_resolve_external (internalAlone.trans isInternal)] at fair ⊢
    rw [query.fst_resolve_external (internal.trans isInternal), defined]
    obtain ⟨own, imported, importedAmong⟩ := beside.methods
    simp only [imported, importedAmong, MethodQuery.findImported?, List.find?_append,
      List.append_assoc] at fair ⊢
    cases first : twin.start.importedMethods.find? query.answeredBy with
    | some method => simp
    | none =>
      rw [first] at fair
      cases other : twin.foreign.find? query.answeredBy with
      | none => rw [find?_filter_notMem other, Option.none_or]
      | some method =>
        have none : query.findImported? twin.start.importedMethods = none := by
          rw [MethodQuery.findImported?, first]
          rfl
        have answer := fair isInternal none method (List.mem_of_find?_eq_some other)
          (List.find?_some other)
        simp only [Option.none_or, Option.some_or, Option.map_some, Option.getD_some] at answer ⊢
        rw [answer]

/-- The modules change side by side. -/
theorem Beside.hosts (beside : twin.Beside among alone) {host hostAlone : Host}
    (follows : among.host.Follows host) (followsAlone : alone.host.Follows hostAlone)
    (methods : ∃ own, hostAlone.importedMethods = twin.start.importedMethods ++ own ∧
      host.importedMethods =
        twin.start.importedMethods ++ twin.foreign ++ own.filter (· ∉ twin.foreign)) :
    twin.Beside { among with host } { alone with host := hostAlone } where
  host := trans_of Host.Follows beside.host follows
  hostAlone := trans_of Host.Follows beside.hostAlone followsAlone
  sound := (beside.sound.host follows).1
  soundAlone := (beside.soundAlone.host followsAlone).1
  methods := methods
  memo := beside.memo
  same := beside.same

theorem Beside.resolve (beside : twin.Beside among alone) {query : MethodQuery}
    (fair : twin.Fair query (query.resolve alone.host).1) :
    twin.Beside { among with host := (query.resolve among.host).2 }
      { alone with host := (query.resolve alone.host).2 } := by
  refine beside.hosts (query.grows_resolve _).follows (query.grows_resolve _).follows ?_
  have internal := query.isInternal_of_follows beside.host
  have internalAlone := query.isInternal_of_follows beside.hostAlone
  cases isInternal : query.isInternal twin.start with
  | true =>
    rw [query.resolve_internal (internal.trans isInternal),
      query.resolve_internal (internalAlone.trans isInternal)]
    exact beside.methods
  | false =>
    rw [query.snd_resolve_external (internal.trans isInternal),
      query.snd_resolve_external (internalAlone.trans isInternal), beside.fst_resolve fair]
    obtain ⟨own, imported, importedAmong⟩ := beside.methods
    obtain ⟨own', added, addedAmong⟩ := exists_addNew_own (query.resolve alone.host).1
      twin.start.importedMethods twin.foreign own
    refine ⟨own', ?_, ?_⟩
    · rw [Host.importMethod, imported, added]
    · rw [Host.importMethod, importedAmong, addedAmong]

/-- Among others and alone, the same is found. -/
theorem Beside.find (beside : twin.Beside among alone) (left : Nat) {demand : Demand}
    (fair : ∀ query, demand = .method query → twin.Fair query (query.resolve alone.host).1) :
    (∃ e, Resolver.find twin.resolver left among.host demand = .error e ∧
      Resolver.find twin.resolver left alone.host demand = .error e) ∨
    ∃ found host hostAlone, Resolver.find twin.resolver left among.host demand = .ok (found, host) ∧
      Resolver.find twin.resolver left alone.host demand = .ok (found, hostAlone) ∧
      twin.Beside { among with host } { alone with host := hostAlone } := by
  cases demand with
  | resolved found => exact .inr ⟨some found, _, _, rfl, rfl, beside⟩
  | token token =>
    refine .inr ⟨alone.host.lookupToken? token, _, _, ?_, rfl, beside⟩
    rw [Resolver.find, Host.lookupToken?, beside.host.tokens, ← beside.hostAlone.tokens]
    rfl
  | type name args =>
    rw [Resolver.find, Resolver.find, twin.resolver.namedType_of_follows beside.host,
      twin.resolver.namedType_of_follows beside.hostAlone]
    cases Resolver.namedType twin.resolver twin.start left name args with
    | error e => exact .inl ⟨e, rfl, rfl⟩
    | ok sig => exact .inr ⟨some (.type sig), _, _, rfl, rfl, beside⟩
  | field declaring name =>
    have same := (Host.fst_resolveField_of_follows beside.host declaring name).trans
      (Host.fst_resolveField_of_follows beside.hostAlone declaring name).symm
    rw [Resolver.find_field, Resolver.find_field, same]
    refine .inr ⟨_, _, _, rfl, rfl, beside.hosts (among.host.grows_resolveField _ _).follows
      (alone.host.grows_resolveField _ _).follows ?_⟩
    rw [Host.importedMethods_resolveField, Host.importedMethods_resolveField]
    exact beside.methods
  | method query =>
    have fair := fair query rfl
    rw [Resolver.find_method, Resolver.find_method, beside.fst_resolve fair]
    exact .inr ⟨_, _, _, rfl, rfl, beside.resolve fair⟩

end Hosts

section Agrees

variable {twin : Twin} {idle : Bool} {among alone : Session}

theorem Agrees.of_same {a b : ResolveM α} {result : Except Error α} {among' alone' : Session}
    (ends : a.run.run among = (result, among')) (endsAlone : b.run.run alone = (result, alone'))
    (beside : twin.Beside among' alone') : twin.Agrees idle a b among alone := by
  intro _ _
  rw [ends, endsAlone]
  exact .inr ⟨rfl, beside⟩

theorem Agrees.of_deep {a b : ResolveM α} {alone' : Session} (shared : twin.shared = true)
    (ends : b.run.run alone = (.error (.recursionLimit twin.resolver.maxDepth), alone')) :
    twin.Agrees idle a b among alone := by
  intro _ _
  rw [ends]
  exact .inl ⟨shared, rfl⟩

theorem Agrees.bind {a b : ResolveM α} {f g : α → ResolveM β}
    (soundAlone : twin.resolver.Sound alone)
    (keeps : twin.resolver.Keeps alone (b.run.run alone).2)
    (keepsNext : ∀ value session, twin.resolver.Keeps session ((g value).run.run session).2)
    (now : twin.Agrees idle a b among alone)
    (later : ∀ value among' alone', b.run.run alone = (.ok value, alone') →
      twin.Beside among' alone' → twin.Agrees idle (f value) (g value) among' alone') :
    twin.Agrees idle (a >>= f) (b >>= g) among alone := by
  intro must follows
  rw [Agrees] at now
  generalize ran : a.run.run among = outcome at now
  generalize ranAlone : b.run.run alone = outcomeAlone at now keeps later
  obtain ⟨result, among'⟩ := outcome
  obtain ⟨resultAlone, alone'⟩ := outcomeAlone
  have ended : idle = true → ∃ value, result = .ok value := by
    intro isIdle
    obtain ⟨value, ends⟩ := must isIdle
    cases result with
    | ok first => exact ⟨first, rfl⟩
    | error e =>
      rw [run_bind_error ran] at ends
      cases ends
  cases resultAlone with
  | error e =>
    rw [run_bind_error ranAlone] at follows ⊢
    rcases now ended follows with ⟨shared, deep⟩ | ⟨same, beside⟩
    · cases deep
      exact .inl ⟨shared, rfl⟩
    · cases same
      rw [run_bind_error ran]
      exact .inr ⟨rfl, beside⟩
  | ok value =>
    rw [run_bind_ok ranAlone] at follows ⊢
    have since := (keepsNext value alone' (keeps soundAlone).1).2
    rcases now ended (trans_of Session.Follows since follows) with ⟨_, fails⟩ | ⟨same, beside⟩
    · cases fails
    · cases same
      rw [run_bind_ok ran] at must ⊢
      exact later value among' alone' rfl beside must follows

/-- Operations that mirror each other agree if their lookups do. -/
theorem agrees_of_mirrors {first second : Nat → Lookup}
    (keeps : ∀ left position session,
      twin.resolver.Keeps session ((second left position).run.run session).2)
    (looks : ∀ left position among alone, twin.Beside among alone →
      twin.Agrees idle (first left position) (second left position) among alone)
    {a b : ResolveM α} (mirrors : Resolver.Mirrors first second a b)
    (beside : twin.Beside among alone) : twin.Agrees idle a b among alone := by
  induction mirrors generalizing among alone with
  | pure value => exact .of_same rfl rfl beside
  | throw is => exact .of_same rfl rfl beside
  | look left position => exact looks left position among alone beside
  | bind mirrors mirrors' now later =>
    exact .bind beside.soundAlone (mirrors.keeps keeps alone)
      (fun value => (mirrors' value).keeps keeps) (now beside)
      fun value among' alone' _ beside => later value beside

/-- What is asked for is found alike, also at another depth if it is known to be found. -/
theorem agrees_meet {level level' : Nat} {demand? : Option Demand}
    (beside : twin.Beside among alone)
    (fair : ∀ query, demand? = some (.method query) →
      twin.Fair query (query.resolve alone.host).1)
    (levels : idle = false → level = level') (shares : idle = true → twin.shared = true) :
    twin.Agrees idle (Resolver.meet twin.resolver level demand?)
      (Resolver.meet twin.resolver level' demand?) among alone := by
  cases demand? with
  | none => exact .of_same rfl rfl beside
  | some demand =>
    have found := beside.find level' fun query is => fair query (congrArg some is)
    have same (ends : Resolver.find twin.resolver level among.host demand =
        Resolver.find twin.resolver level' among.host demand) :
        twin.Agrees idle (Resolver.meet twin.resolver level (some demand))
          (Resolver.meet twin.resolver level' (some demand)) among alone := by
      rcases found with ⟨e, fails, failsAlone⟩ | ⟨result, host, hostAlone, finds, findsAlone, after⟩
      · exact .of_same (Resolver.run_meet_error (ends.trans fails))
          (Resolver.run_meet_error failsAlone) beside
      · exact .of_same (Resolver.run_meet_ok (ends.trans finds))
          (Resolver.run_meet_ok findsAlone) after
    cases idle with
    | false => exact same (by rw [levels rfl])
    | true =>
      cases finds : Resolver.find twin.resolver level among.host demand with
      | error e =>
        intro must
        obtain ⟨value, ends⟩ := must rfl
        rw [Resolver.run_meet_error finds] at ends
        cases ends
      | ok result =>
        rcases twin.resolver.find_level finds level' with again | deep
        · exact same (finds.trans again.symm)
        · rcases found with ⟨e, fails, failsAlone⟩ | ⟨_, _, _, finds', _⟩
          · cases deep.symm.trans fails
            exact .of_deep (shares rfl) (Resolver.run_meet_error failsAlone)
          · cases deep.symm.trans finds'

/-- A record is resolved alike if its lookups agree. -/
theorem agrees_resolveRecord {lookup : Lookup} {left : Nat} {record : OperandRecord}
    (level level' : Nat)
    (looks : ∀ position among alone, twin.Beside among alone →
      twin.Agrees idle (lookup position) (twin.resolver.resolveWithin left position) among alone)
    (beside : twin.Beside among alone)
    (fair : ∀ query between, Resolver.hinted? alone.host record = none →
      (Resolver.demand (twin.resolver.resolveWithin left) record).run.run alone =
        (.ok (some (.method query)), between) →
      twin.Fair query (query.resolve between.host).1)
    (levels : idle = false → level = level') (shares : idle = true → twin.shared = true) :
    twin.Agrees idle (twin.resolver.resolveRecord level lookup record)
      (twin.resolver.resolveRecord level' (twin.resolver.resolveWithin left) record)
      among alone := by
  have same := Resolver.hinted?_of_follows beside.host record
  have sameAlone := Resolver.hinted?_of_follows beside.hostAlone record
  cases hinted : Resolver.hinted? twin.start record with
  | some resolved =>
    exact .of_same (Resolver.run_resolveRecord_hinted (same.trans hinted))
      (Resolver.run_resolveRecord_hinted (sameAlone.trans hinted)) beside
  | none =>
    have mirrors := @Resolver.Mirrors.demand (fun _ => lookup)
      (fun _ => twin.resolver.resolveWithin left) 0 record
    have keeps (_ : Nat) := @Resolver.keeps_resolveWithin twin.resolver left
    have demands := agrees_of_mirrors keeps (fun _ => looks) mirrors beside
    rw [Agrees, Resolver.run_resolveRecord (same.trans hinted),
      Resolver.run_resolveRecord (sameAlone.trans hinted)]
    refine Agrees.bind beside.soundAlone (mirrors.keeps keeps alone)
      (fun demand? session => (Resolver.repeats_meet level' demand?).keeps) demands
      fun demand? among' alone' ends beside => ?_
    refine agrees_meet beside (fun query is => ?_) levels shares
    subst is
    exact fair query alone' (sameAlone.trans hinted) ends

section Positions

variable {left : Nat} {position : Int32} {record : OperandRecord}

/-- A query that the method alone comes to is among those that its last session holds. -/
theorem fair_of_follows (undisturbed : twin.Undisturbed) (sound : twin.resolver.Sound alone)
    (proper : ¬ position < 0) (unknown : alone.memo.get? position.toInt.toNat = none)
    (reads : twin.resolver.readRecord position.toInt.toNat = .ok record)
    (follows : ((twin.resolver.resolveWithin (left + 1) position).run.run alone).2.Follows twin.last)
    (query : MethodQuery) (between : Session)
    (hinted : Resolver.hinted? alone.host record = none)
    (demands : (Resolver.demand (twin.resolver.resolveWithin left) record).run.run alone =
      (.ok (some (.method query)), between)) :
    twin.Fair query (query.resolve between.host).1 := by
  have resolves : (twin.resolver.resolveRecord (left + 1) (twin.resolver.resolveWithin left)
      record).run.run alone = (.ok (some (.method (query.resolve between.host).1)),
        { between with host := (query.resolve between.host).2 }) := by
    rw [Resolver.run_resolveRecord hinted, run_bind_ok demands]
    exact Resolver.run_meet_ok (Resolver.find_method _ _ _ _)
  have since := (Resolver.keeps_resolveWithin (left + 1) position alone sound).2
  have noted := sound.note_of_resolveRecord (Resolver.repeats_resolveWithin left) reads resolves
  rw [Resolver.run_resolveWithin_ok proper unknown reads resolves] at follows since
  -- The query is read off the last session, as the demand is repeated there.
  have repeats : twin.resolver.Repeats
      (Resolver.demand (twin.resolver.resolveWithin left) record)
      (Resolver.demand Resolver.consult record) alone :=
    (@Resolver.Mirrors.demand (fun _ => twin.resolver.resolveWithin left)
      (fun _ => Resolver.consult) 0 record).repeats fun _ => Resolver.repeats_resolveWithin left
  obtain ⟨keeps, again⟩ := repeats
  rw [demands] at keeps again
  have soundBetween := (keeps sound).1
  have meets : between.Follows { between with host := (query.resolve between.host).2 } :=
    (soundBetween.host (query.grows_resolve between.host).follows).2
  have later := trans_of Session.Follows meets (trans_of Session.Follows noted.2 follows)
  refine undisturbed position.toInt.toNat record query _ (follows.memo _ _ ?_) reads ?_
  · rw [Session.note, Table.get?_insert, if_pos rfl]
  · have unhinted : Resolver.hinted? twin.last.host record = none := by
      rw [Resolver.hinted?_of_follows (trans_of Session.Follows since follows).host, hinted]
    exact Session.query?_eq_some unhinted (again sound _ _ rfl later)

theorem Beside.note_alone {key : Nat} {value : Option Resolved} (beside : twin.Beside among alone)
    (shared : twin.shared = true) (known : among.memo.get? key = some value)
    (sound : twin.resolver.Sound (alone.note key value)) :
    twin.Beside among (alone.note key value) where
  host := beside.host
  hostAlone := beside.hostAlone
  sound := beside.sound
  soundAlone := sound
  methods := beside.methods
  memo other found is := by
    rw [Session.note, Table.get?_insert] at is
    split at is
    · rename_i same
      cases is
      rw [same, known]
    · exact beside.memo other found is
  same alone := by
    rw [shared] at alone
    cases alone

theorem Beside.note {key : Nat} {value : Option Resolved} (beside : twin.Beside among alone)
    (sound : twin.resolver.Sound (among.note key value))
    (soundAlone : twin.resolver.Sound (alone.note key value)) :
    twin.Beside (among.note key value) (alone.note key value) where
  host := beside.host
  hostAlone := beside.hostAlone
  sound := sound
  soundAlone := soundAlone
  methods := beside.methods
  memo other found is := by
    rw [Session.note, Table.get?_insert] at is ⊢
    split at is
    · rename_i same
      rw [if_pos same, is]
    · rename_i differs
      rw [if_neg differs]
      exact beside.memo other found is
  same alone other := by
    rw [Session.note, Table.get?_insert, Session.note, Table.get?_insert, beside.same alone]

/-- What others have resolved and the method alone has not, it resolves to the same, or it runs out
of depth. -/
theorem agrees_consult_unknown (undisturbed : twin.Undisturbed) (shared : twin.shared = true)
    (looks : ∀ position among alone, twin.Beside among alone →
      twin.Agrees true (Resolver.consult position) (twin.resolver.resolveWithin left position)
        among alone)
    (beside : twin.Beside among alone) (proper : ¬ position < 0) {value : Option Resolved}
    (known : among.memo.get? position.toInt.toNat = some value)
    (unknown : alone.memo.get? position.toInt.toNat = none) :
    twin.Agrees true (Resolver.consult position) (twin.resolver.resolveWithin (left + 1) position)
      among alone := by
  intro _ follows
  obtain ⟨record, level, reads, again⟩ := beside.sound _ _ known
  have agrees := agrees_resolveRecord level (left + 1) looks beside
    (fair_of_follows undisturbed beside.soundAlone proper unknown reads follows)
    (by simp) fun _ => shared
  rw [Agrees, again among (refl_of Session.Follows among)] at agrees
  rw [Resolver.run_consult proper known]
  generalize outcome : (twin.resolver.resolveRecord (left + 1)
    (twin.resolver.resolveWithin left) record).run.run alone = pair at agrees
  obtain ⟨result, between⟩ := pair
  cases result with
  | error e =>
    rw [Resolver.run_resolveWithin_error proper unknown reads outcome] at follows ⊢
    rcases agrees (fun _ => ⟨value, rfl⟩) follows with deep | ⟨same, _⟩
    · exact .inl deep
    · cases same
  | ok value' =>
    have noted := beside.soundAlone.note_of_resolveRecord
      (Resolver.repeats_resolveWithin left) reads outcome
    rw [Resolver.run_resolveWithin_ok proper unknown reads outcome] at follows ⊢
    rcases agrees (fun _ => ⟨value, rfl⟩) (trans_of Session.Follows noted.2 follows) with
      ⟨_, fails⟩ | ⟨same, after⟩
    · cases fails
    · cases same
      exact .inr ⟨rfl, after.note_alone shared known noted.1⟩

/-- What others have resolved, the method alone resolves to the same, or it runs out of depth. -/
theorem agrees_consult (undisturbed : twin.Undisturbed) (shared : twin.shared = true) (left : Nat)
    (position : Int32) (among alone : Session) (beside : twin.Beside among alone) :
    twin.Agrees true (Resolver.consult position) (twin.resolver.resolveWithin left position)
      among alone := by
  induction left generalizing position among alone with
  | zero => exact .of_deep shared rfl
  | succ left ih =>
    by_cases negative : position < 0
    · exact .of_same (Resolver.run_consult_negative negative)
        (Resolver.run_resolveWithin_negative negative) beside
    · cases known : among.memo.get? position.toInt.toNat with
      | none =>
        intro must
        obtain ⟨value, ends⟩ := must rfl
        rw [Resolver.consult, if_neg negative, run_get_bind, known] at ends
        cases ends
      | some value =>
        cases knownAlone : alone.memo.get? position.toInt.toNat with
        | some value' =>
          cases known.symm.trans (beside.memo _ _ knownAlone)
          exact .of_same (Resolver.run_consult negative known)
            (Resolver.run_resolveWithin_known negative knownAlone) beside
        | none => exact agrees_consult_unknown undisturbed shared ih beside negative known knownAlone

/-- A position that nobody has resolved is resolved alike among others and alone. -/
theorem agrees_resolveWithin_unknown (undisturbed : twin.Undisturbed)
    (looks : ∀ position among alone, twin.Beside among alone →
      twin.Agrees false (twin.resolver.resolveWithin left position)
        (twin.resolver.resolveWithin left position) among alone)
    (beside : twin.Beside among alone) (proper : ¬ position < 0)
    (unknown : among.memo.get? position.toInt.toNat = none)
    (unknownAlone : alone.memo.get? position.toInt.toNat = none)
    (reads : twin.resolver.readRecord position.toInt.toNat = .ok record) :
    twin.Agrees false (twin.resolver.resolveWithin (left + 1) position)
      (twin.resolver.resolveWithin (left + 1) position) among alone := by
  intro _ follows
  have agrees := agrees_resolveRecord (left + 1) (left + 1) looks beside
    (fair_of_follows undisturbed beside.soundAlone proper unknownAlone reads follows)
    (fun _ => rfl) (by simp)
  rw [Agrees] at agrees
  generalize outcome : (twin.resolver.resolveRecord (left + 1)
    (twin.resolver.resolveWithin left) record).run.run among = pair at agrees
  generalize outcomeAlone : (twin.resolver.resolveRecord (left + 1)
    (twin.resolver.resolveWithin left) record).run.run alone = pairAlone at agrees
  obtain ⟨result, among'⟩ := pair
  obtain ⟨resultAlone, alone'⟩ := pairAlone
  cases resultAlone with
  | error e =>
    rw [Resolver.run_resolveWithin_error proper unknownAlone reads outcomeAlone] at follows ⊢
    rcases agrees (by simp) follows with deep | ⟨same, after⟩
    · exact .inl deep
    · cases same
      rw [Resolver.run_resolveWithin_error proper unknown reads outcome]
      exact .inr ⟨rfl, after⟩
  | ok value =>
    have notedAlone := beside.soundAlone.note_of_resolveRecord
      (Resolver.repeats_resolveWithin left) reads outcomeAlone
    rw [Resolver.run_resolveWithin_ok proper unknownAlone reads outcomeAlone] at follows ⊢
    rcases agrees (by simp) (trans_of Session.Follows notedAlone.2 follows) with
      ⟨_, fails⟩ | ⟨same, after⟩
    · cases fails
    · cases same
      have noted := beside.sound.note_of_resolveRecord
        (Resolver.repeats_resolveWithin left) reads outcome
      rw [Resolver.run_resolveWithin_ok proper unknown reads outcome]
      exact .inr ⟨rfl, after.note noted.1 notedAlone.1⟩

/-- A position is resolved alike among others and alone. -/
theorem agrees_resolveWithin (undisturbed : twin.Undisturbed) (left : Nat) (position : Int32)
    (among alone : Session) (beside : twin.Beside among alone) :
    twin.Agrees false (twin.resolver.resolveWithin left position)
      (twin.resolver.resolveWithin left position) among alone := by
  induction left generalizing position among alone with
  | zero => exact .of_same rfl rfl beside
  | succ left ih =>
    by_cases negative : position < 0
    · exact .of_same (Resolver.run_resolveWithin_negative negative)
        (Resolver.run_resolveWithin_negative negative) beside
    · cases knownAlone : alone.memo.get? position.toInt.toNat with
      | some value =>
        have known := beside.memo _ _ knownAlone
        exact .of_same (Resolver.run_resolveWithin_known negative known)
          (Resolver.run_resolveWithin_known negative knownAlone) beside
      | none =>
        cases known : among.memo.get? position.toInt.toNat with
        | some value =>
          have shared : twin.shared = true := by
            by_contra separate
            have same := beside.same (by simpa using separate) position.toInt.toNat
            rw [known, knownAlone] at same
            cases same
          have agrees := agrees_consult undisturbed shared (left + 1) position among alone beside
          rw [Agrees, Resolver.run_consult negative known] at agrees
          rw [Agrees, Resolver.run_resolveWithin_known negative known]
          exact fun _ => agrees fun _ => ⟨value, rfl⟩
        | none =>
          cases reads : twin.resolver.readRecord position.toInt.toNat with
          | error e =>
            exact .of_same (Resolver.run_resolveWithin_unreadable negative known reads)
              (Resolver.run_resolveWithin_unreadable negative knownAlone reads) beside
          | ok record =>
            exact agrees_resolveWithin_unknown undisturbed ih beside negative known knownAlone reads

/-- Whatever asks the resolver comes to the same among others and alone. -/
theorem agrees_of_asks (undisturbed : twin.Undisturbed) {operation : ResolveM α}
    (asks : Resolver.Asks twin.resolver operation) (beside : twin.Beside among alone) :
    twin.Agrees false operation operation among alone :=
  agrees_of_mirrors Resolver.keeps_resolveWithin (agrees_resolveWithin undisturbed) asks beside

end Positions

end Agrees

end Twin

end CilRecovery
