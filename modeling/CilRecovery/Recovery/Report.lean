import CilRecovery.Recovery.Header
import CilRecovery.Recovery.Settings
import CilRecovery.Recovery.Stage

/-!
Methods under recovery and what is reported of them.
-/
namespace CilRecovery

/-- How much of a method was recovered. -/
inductive RecoveryStatus where
  | full
  /-- Only the code before a placeholder. -/
  | degraded
  | unrecoverable
  deriving DecidableEq, Repr

def RecoveryStatus.name : RecoveryStatus → String
  | full => "Full"
  | degraded => "Degraded"
  | unrecoverable => "Unrecoverable"

/-- A method under recovery. -/
structure VirtualMethod where
  token : Token
  /-- The position key in its stub. -/
  key : String
  header : Option MethodHeader := none
  declaring : Option TypeSig := none
  status : RecoveryStatus := .full
  deriving DecidableEq, Repr

namespace VirtualMethod

/-- The name in the header. -/
def name? (method : VirtualMethod) : Option String := method.header.map MethodHeader.name

def render (method : VirtualMethod) : String :=
  match method.name?, method.declaring with
  | some name, some declaring =>
    declaring.fullName ++ "::" ++ name ++ " (" ++ method.token.render ++ ")"
  | some name, none => name ++ " (" ++ method.token.render ++ ")"
  | none, _ => method.token.render

end VirtualMethod

/-- What came of one method. -/
structure MethodReport where
  token : Token
  name : Option String
  status : RecoveryStatus
  stage : Stage
  /-- The kind of failure, if there was one. -/
  failure : Option FailureKind
  /-- Why recovery failed or stopped. -/
  message : Option String
  /-- How many instructions were recovered. -/
  instructions : Nat
  placeholders : Nat
  /-- Whether the body was written back. -/
  isSpliced : Bool
  deriving DecidableEq, Repr

namespace MethodReport

def render (report : MethodReport) : String :=
  let name := (report.name.map fun name => name ++ " ").getD ""
  let placeholders :=
    if 0 < report.placeholders then ", " ++ toString report.placeholders ++ " placeholders" else ""
  let message := (report.message.map fun message => ": " ++ message).getD ""
  report.token.render ++ " " ++ name ++ report.status.name ++ " (" ++
    toString report.instructions ++ " instructions" ++ placeholders ++ ")" ++ message

end MethodReport

/-- What came of a run. -/
structure Report where
  /-- In the order in which the methods were given. -/
  methods : List MethodReport := []
  /-- The size of the handler table. -/
  opcodes : Nat := 0
  /-- How many handlers were identified. -/
  identified : Nat := 0
  deriving DecidableEq, Repr

namespace Report

def count (report : Report) (status : RecoveryStatus) : Nat :=
  report.methods.countP fun method => method.status == status

def splicedCount (report : Report) : Nat := report.methods.countP MethodReport.isSpliced

/-- Whether every method was fully recovered. -/
def isComplete (report : Report) : Bool :=
  report.methods.all fun method => method.status == .full

/-- How often a kind of failure occurred. -/
def failureCount (report : Report) (kind : FailureKind) : Nat :=
  report.methods.countP fun method => method.failure == some kind

/-- The kinds of failure that occurred, by name, and how often each did. -/
def failures (report : Report) : List (FailureKind × Nat) :=
  let kinds : List FailureKind := [.bootstrap, .crypto, .format, .resolution, .streamDesync]
  (kinds.map fun kind => (kind, report.failureCount kind)).filter fun entry => 0 < entry.2

/-- The report of a method. -/
def method? (report : Report) (token : Token) : Option MethodReport :=
  report.methods.find? fun method => method.token == token

/-- Whether the module should be saved. -/
def shouldSave (report : Report) (options : OutputOptions) : Bool :=
  report.isComplete || options.saveAnyway || options.onlyRecovered

def summary (report : Report) : String :=
  toString report.methods.length ++ " methods: " ++ toString (report.count .full) ++
    " recovered, " ++ toString (report.count .degraded) ++ " degraded, " ++
    toString (report.count .unrecoverable) ++ " unrecoverable; " ++
    toString report.identified ++ " of " ++ toString report.opcodes ++ " opcodes identified"

end Report

end CilRecovery
