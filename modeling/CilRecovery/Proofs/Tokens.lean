import Mathlib.Data.List.Basic
import CilRecovery.Metadata.Host

/-!
The tokens of a module. A new definition takes the next row of its table, whatever stands in the
token table; it gets a token of its own unless that token came in with a member or by itself before.
-/
namespace CilRecovery

namespace Token

theorem toNat_ofRow (table : HostTable) {row : Nat} (small : row < 0x1000000) :
    (ofRow table.number (.ofNat row)).value.toNat = table.number.toNat * 0x1000000 + row := by
  have high : (table.number <<< 24).toNat = table.number.toNat <<< 24 := by cases table <;> rfl
  have low : (UInt32.ofNat row).toNat = row := UInt32.toNat_ofNat_of_lt' (by
    simp only [UInt32.size]
    omega)
  rw [ofRow, UInt32.toNat_or, high, low, ← Nat.shiftLeft_add_eq_or_of_lt small, Nat.shiftLeft_eq]

/-- As long as rows take 24 bits, tokens of different rows are different. -/
theorem row_eq_of_ofRow {table table' : HostTable} {row row' : Nat} (small : row < 0x1000000)
    (small' : row' < 0x1000000)
    (same : ofRow table.number (.ofNat row) = ofRow table'.number (.ofNat row')) :
    table = table' ∧ row = row' := by
  have value := congrArg (fun token : Token => token.value.toNat) same
  simp only [toNat_ofRow _ small, toNat_ofRow _ small'] at value
  have number : table.number.toNat = table'.number.toNat := by omega
  refine ⟨?_, by omega⟩
  cases table <;> cases table' <;> first | rfl | cases number

end Token

namespace Host

/-- A change to the types and tokens of a module. -/
inductive Edit where
  | addType (definition : TypeDef)
  | defineMethod (method : MethodRef) (body : List Instruction)
  | defineField (declaring : TypeRef) (name : String) (type : TypeSig) (isStatic : Bool)
  | addUserString (text : String)
  | addToken (token : Token) (resolved : Resolved)

/-- The table that an edit takes a row of. -/
def Edit.table? : Edit → Option HostTable
  | addType _ => some .types
  | defineMethod _ _ => some .methods
  | defineField _ _ _ _ => some .fields
  | addUserString _ => some .strings
  | addToken _ _ => none

/-- The tokens that come in with an edit: those of listed members, and one entered by itself. -/
def Edit.given : Edit → List Token
  | addType definition =>
    definition.fields.map FieldDef.token ++ definition.methods.map MethodDef.token
  | addToken token _ => [token]
  | _ => []

/-- Makes a change. -/
def edit (host : Host) : Edit → Host
  | .addType definition => (host.addType definition).2
  | .defineMethod method body => (host.defineMethod method body).2
  | .defineField declaring name type isStatic =>
    (host.defineField declaring name type isStatic).2
  | .addUserString text => (host.addUserString text).2
  | .addToken token resolved => host.addToken token resolved

/-- The token that an edit hands out, and what the edit defines under it. A field is given back
itself; its token is the one that its type lists. -/
def handsOut? (host : Host) : Edit → Option (Token × Resolved)
  | .addType definition => some ((host.addType definition).1, .type definition.sig)
  | .defineMethod method body => some ((host.defineMethod method body).1, .method method)
  | .defineField declaring name type isStatic =>
    some ((host.allocate .fields).1, .field (host.defineField declaring name type isStatic).1)
  | .addUserString text => some ((host.addUserString text).1, .string text)
  | .addToken _ _ => none

/-- A module after some edits. -/
def editAll (host : Host) (edits : List Edit) : Host := edits.foldl edit host

/-- The tokens that edits hand out, one after the other. -/
def handedOut (host : Host) : List Edit → List Token
  | [] => []
  | first :: rest => ((host.handsOut? first).map Prod.fst).toList ++ (host.edit first).handedOut rest

/-- The last row handed out in a table, zero if there is none. -/
def lastRow (host : Host) (table : HostTable) : Nat := (host.rows.get? table).getD 0

/-- Some tokens have been entered, and no others. -/
structure Enters (entered : List Token) (before after : Host) : Prop where
  rows : after.rows = before.rows
  there : ∀ token ∈ entered, (after.lookupToken? token).isSome = true
  others : ∀ token, token ∉ entered → after.lookupToken? token = before.lookupToken? token

namespace Enters

theorem refl (host : Host) : Enters [] host host := ⟨rfl, by simp, fun _ _ => rfl⟩

theorem trans {first second : List Token} {before middle after : Host}
    (now : Enters first before middle) (later : Enters second middle after) :
    Enters (first ++ second) before after := by
  refine ⟨later.rows.trans now.rows, fun token member => ?_, fun token absent => ?_⟩
  · by_cases again : token ∈ second
    · exact later.there token again
    · rw [later.others token again]
      exact now.there token ((List.mem_append.mp member).resolve_right again)
  · rw [List.mem_append, not_or] at absent
    rw [later.others token absent.2, now.others token absent.1]

theorem insert {before after : Host} {token : Token} {resolved : Resolved}
    (rows : after.rows = before.rows) (tokens : after.tokens = before.tokens.insert token resolved) :
    Enters [token] before after := by
  refine ⟨rows, fun other member => ?_, fun other absent => ?_⟩
  · rw [List.mem_singleton.mp member, lookupToken?, tokens, Table.get?_insert, if_pos rfl]
    rfl
  · rw [lookupToken?, tokens, Table.get?_insert, if_neg (by simpa using absent)]
    rfl

theorem foldl {step : Host → α → Host} {key : α → Token}
    (one : ∀ host a, Enters [key a] host (step host a)) (list : List α) (host : Host) :
    Enters (list.map key) host (list.foldl step host) := by
  induction list generalizing host with
  | nil => exact refl host
  | cons a rest ih => exact (one host a).trans (ih (step host a))

end Enters

/-- What an edit does to the rows and to the token table. -/
structure Edited (host : Host) (change : Edit) (after : Host) : Prop where
  rows : ∀ table, after.lastRow table =
    if change.table? = some table then host.lastRow table + 1 else host.lastRow table
  handed : ∀ token resolved, host.handsOut? change = some (token, resolved) →
    after.lookupToken? token = some resolved
  given : ∀ token ∈ change.given, (after.lookupToken? token).isSome = true
  others : ∀ token, token ∉ change.given → (∀ resolved, host.handsOut? change ≠ some (token, resolved)) →
    after.lookupToken? token = host.lookupToken? token

/-- An edit takes a row, enters what it is given and then, under the token of the row, what it
defines. -/
theorem Edited.of_enters {host middle after : Host} {change : Edit} {table : HostTable}
    {resolved : Resolved} (takes : change.table? = some table)
    (hands : host.handsOut? change = some ((host.allocate table).1, resolved))
    (enters : Enters change.given (host.allocate table).2 middle) (rows : after.rows = middle.rows)
    (tokens : after.tokens = middle.tokens.insert (host.allocate table).1 resolved) :
    Edited host change after where
  rows other := by
    rw [lastRow, rows, enters.rows, takes]
    simp only [allocate, Table.get?_insert, Option.some.injEq]
    by_cases same : other = table
    · subst same
      rw [if_pos rfl, if_pos rfl]
      rfl
    · rw [if_neg same, if_neg (Ne.symm same)]
      rfl
  handed token resolved' is := by
    cases hands.symm.trans is
    rw [lookupToken?, tokens, Table.get?_insert, if_pos rfl]
  given token member := by
    rw [lookupToken?, tokens, Table.get?_insert]
    split
    · rfl
    · exact enters.there token member
  others token absent other := by
    have differs : token ≠ (host.allocate table).1 := by
      rintro rfl
      exact other resolved hands
    rw [lookupToken?, tokens, Table.get?_insert, if_neg differs]
    exact enters.others token absent

theorem edited (host : Host) (change : Edit) : Edited host change (host.edit change) := by
  cases change with
  | addType definition =>
    refine .of_enters rfl rfl ((Enters.foldl (fun host field => ?_) definition.fields _).trans
      (Enters.foldl (fun host method => ?_) definition.methods _)) rfl rfl
    · exact .insert rfl rfl
    · exact .insert rfl rfl
  | defineMethod method body => exact .of_enters rfl rfl (.refl _) rfl rfl
  | defineField declaring name type isStatic => exact .of_enters rfl rfl (.refl _) rfl rfl
  | addUserString text => exact .of_enters rfl rfl (.refl _) rfl rfl
  | addToken token resolved =>
    have enters : Enters [token] host (host.addToken token resolved) := by
      cases resolved <;> exact .insert rfl rfl
    refine ⟨fun table => ?_, fun _ _ none_ => (by cases none_), enters.there, fun other absent _ => ?_⟩
    · change ((host.addToken token resolved).rows.get? table).getD 0 = host.lastRow table
      rw [enters.rows]
      rfl
    · exact enters.others other absent

/-- The token that is handed out is that of the next row of a table. -/
theorem exists_of_handsOut? {host : Host} {change : Edit} {token : Token} {resolved : Resolved}
    (hands : host.handsOut? change = some (token, resolved)) :
    ∃ table, change.table? = some table ∧
      token = .ofRow table.number (.ofNat (host.lastRow table + 1)) := by
  cases change with
  | addToken => cases hands
  | _ =>
    cases hands
    exact ⟨_, rfl, rfl⟩

theorem lastRow_le_editAll (host : Host) (edits : List Edit) (table : HostTable) :
    host.lastRow table ≤ (host.editAll edits).lastRow table := by
  induction edits generalizing host with
  | nil => exact Nat.le_refl _
  | cons first rest ih =>
    have rows := (host.edited first).rows table
    refine Nat.le_trans ?_ (ih (host.edit first))
    rw [rows]
    split <;> omega

/-- What edits hand out are the rows that they take. -/
theorem exists_row_of_mem_handedOut {host : Host} {edits : List Edit} {token : Token}
    (member : token ∈ host.handedOut edits) :
    ∃ table row, token = .ofRow table.number (.ofNat row) ∧ host.lastRow table < row ∧
      row ≤ (host.editAll edits).lastRow table := by
  induction edits generalizing host with
  | nil => cases member
  | cons first rest ih =>
    rcases List.mem_append.mp member with now | later
    · obtain ⟨⟨_, resolved⟩, hands, rfl⟩ := Option.map_eq_some_iff.mp (Option.mem_toList.mp now)
      obtain ⟨table, takes, is⟩ := exists_of_handsOut? hands
      refine ⟨table, host.lastRow table + 1, is, Nat.lt_succ_self _, ?_⟩
      have rows := (host.edited first).rows table
      rw [if_pos takes] at rows
      rw [← rows]
      exact lastRow_le_editAll (host.edit first) rest table
    · obtain ⟨table, row, is, above, below⟩ := ih later
      refine ⟨table, row, is, Nat.lt_of_le_of_lt ?_ above, below⟩
      exact lastRow_le_editAll host [first] table

/-- Edits leave alone what they neither are given nor hand out. -/
theorem lookupToken?_editAll {host : Host} {edits : List Edit} {token : Token}
    (notGiven : token ∉ edits.flatMap Edit.given) (notHanded : token ∉ host.handedOut edits) :
    (host.editAll edits).lookupToken? token = host.lookupToken? token := by
  induction edits generalizing host with
  | nil => rfl
  | cons first rest ih =>
    rw [List.flatMap_cons, List.mem_append, not_or] at notGiven
    rw [handedOut, List.mem_append, not_or] at notHanded
    refine (ih notGiven.2 notHanded.2).trans ((host.edited first).others token notGiven.1 ?_)
    intro resolved hands
    exact notHanded.1 (by rw [hands]; exact List.mem_singleton_self token)

/-- After some edits there stand in the token table what stood there before, what the edits were
given and what they handed out. -/
theorem isSome_lookupToken?_editAll (host : Host) (edits : List Edit) (token : Token) :
    ((host.editAll edits).lookupToken? token).isSome = true ↔
      (host.lookupToken? token).isSome = true ∨ token ∈ edits.flatMap Edit.given ∨
        token ∈ host.handedOut edits := by
  induction edits generalizing host with
  | nil => simp [editAll, handedOut]
  | cons first rest ih =>
    have edited := host.edited first
    have now : ((host.edit first).lookupToken? token).isSome = true ↔
        (host.lookupToken? token).isSome = true ∨ token ∈ first.given ∨
          token ∈ ((host.handsOut? first).map Prod.fst).toList := by
      by_cases given : token ∈ first.given
      · simp [edited.given token given, given]
      · cases hands : host.handsOut? first with
        | none =>
          rw [edited.others token given (by simp [hands])]
          simp [given]
        | some pair =>
          obtain ⟨own, resolved⟩ := pair
          by_cases same : token = own
          · subst same
            simp [edited.handed token resolved hands]
          · rw [edited.others token given (by simp [hands, Ne.symm same])]
            simp [given, same]
    change (((host.edit first).editAll rest).lookupToken? token).isSome = true ↔ _
    rw [ih, now, handedOut, List.flatMap_cons, List.mem_append, List.mem_append]
    tauto

/-- A new definition gets a token that is not in the table, unless that token came in with a member
or by itself before; and the token keeps the definition, unless it comes in so later. Only if a table
runs out of rows of 24 bits is a token handed out twice. -/
theorem handsOut?_fresh {name : String} {before later : List Edit} {change : Edit} {token : Token}
    {resolved : Resolved}
    (hands : (editAll { name } before).handsOut? change = some (token, resolved)) :
    (((editAll { name } before).lookupToken? token).isSome = true ↔
      token ∈ before.flatMap Edit.given ∨ token ∈ handedOut { name } before) ∧
    (token ∉ later.flatMap Edit.given →
      token ∉ ((editAll { name } before).edit change).handedOut later →
      (editAll { name } (before ++ change :: later)).lookupToken? token = some resolved) ∧
    ((∀ table, (editAll { name } (before ++ change :: later)).lastRow table < 0x1000000) →
      token ∉ handedOut { name } before ∧
        token ∉ ((editAll { name } before).edit change).handedOut later) := by
  have whole : editAll { name } (before ++ change :: later) =
      ((editAll { name } before).edit change).editAll later := by
    rw [editAll, List.foldl_append]
    rfl
  have edited := (editAll { name } before).edited change
  refine ⟨?_, ?_, ?_⟩
  · rw [isSome_lookupToken?_editAll]
    simp [lookupToken?, Table.get?]
  · intro notGiven notHanded
    rw [whole, lookupToken?_editAll notGiven notHanded]
    exact edited.handed token resolved hands
  · intro small
    rw [whole] at small
    obtain ⟨table, takes, is⟩ := exists_of_handsOut? hands
    have taken := edited.rows table
    rw [if_pos takes] at taken
    have last := lastRow_le_editAll ((editAll { name } before).edit change) later
    -- The row that is taken lies behind those taken before and before those taken later.
    constructor
    · intro member
      obtain ⟨table', row, is', _, below⟩ := exists_row_of_mem_handedOut member
      have further := lastRow_le_editAll (editAll { name } before) [change] table'
      have short := small table
      have short' := small table'
      have last' := last table
      have last'' := last table'
      change _ ≤ ((editAll { name } before).edit change).lastRow table' at further
      obtain ⟨rfl, rfl⟩ := Token.row_eq_of_ofRow (by omega) (by omega) (is.symm.trans is')
      omega
    · intro member
      obtain ⟨table', row, is', above, below⟩ := exists_row_of_mem_handedOut member
      have short := small table
      have short' := small table'
      have last' := last table
      obtain ⟨rfl, rfl⟩ := Token.row_eq_of_ofRow (by omega) (by omega) (is.symm.trans is')
      omega

/-- A row of more than 24 bits gets into the number of its table and meets another row. -/
example : Token.ofRow HostTable.types.number 0x2000001 = Token.ofRow HostTable.types.number 1 := by
  decide

namespace ListedMember

def listed : MethodDef := ⟨⟨0x06000001⟩, "listed", { ret := .void }⟩

def definition : TypeDef where
  ref := .top .local "" "L"
  methods := [listed]

def listedRef : MethodRef := ⟨definition.sig, "listed", { ret := .void }, []⟩

def first : MethodRef := ⟨.primitive .object, "first", { ret := .void }, []⟩

def body : List Instruction := [{ opcode := .ret, operand := .none }]

/-- The first method that is defined gets the token of a method that a type lists, takes its place
in the token table, and its body counts as that of the listed method. -/
theorem handsOut?_listed :
    let host := editAll { name := "module" } [.addType definition]
    let after := host.edit (.defineMethod first body)
    host.lookupToken? listed.token = some (.method listedRef) ∧
      host.handsOut? (.defineMethod first body) = some (listed.token, .method first) ∧
      after.lookupToken? listed.token = some (.method first) ∧
      after.calleeBody? listedRef = some body := by
  decide +kernel

/-- The second method gets a token of its own and keeps it through later edits. -/
theorem handsOut?_fresh_second :
    let before : List Edit := [.addType definition, .defineMethod first body]
    let later : List Edit := [.addToken listed.token (.string "listed"), .addUserString "text"]
    (editAll { name := "module" } before).handsOut? (.defineMethod first []) =
        some (⟨0x06000002⟩, .method first) ∧
      (editAll { name := "module" } before).lookupToken? ⟨0x06000002⟩ = none ∧
      (editAll { name := "module" } (before ++ .defineMethod first [] :: later)).lookupToken?
        ⟨0x06000002⟩ = some (.method first) := by
  intro before later
  have hands : (editAll { name := "module" } before).handsOut? (.defineMethod first []) =
      some (⟨0x06000002⟩, .method first) := by decide +kernel
  obtain ⟨there, keeps, own⟩ := @handsOut?_fresh "module" before later _ _ _ hands
  obtain ⟨notBefore, notLater⟩ := own (by intro table; cases table <;> decide +kernel)
  refine ⟨hands, ?_, keeps (by decide +kernel) notLater⟩
  rw [← Option.not_isSome_iff_eq_none, there, not_or]
  exact ⟨by decide +kernel, notBefore⟩

end ListedMember

end Host

end CilRecovery
