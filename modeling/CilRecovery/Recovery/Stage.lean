import CilRecovery.Error

/-!
The stages that the recovery of a method goes through, and which of them may follow which.
-/
namespace CilRecovery

inductive Stage where
  | start
  | headerRead
  | instructionDecode
  | branchFixup
  | handlerFixup
  /-- The whole body was recovered and written back. -/
  | spliced
  /-- The body was recovered up to a placeholder. -/
  | partiallyRecovered
  | unrecoverable
  deriving DecidableEq, Repr

namespace Stage

def all : List Stage :=
  [start, headerRead, instructionDecode, branchFixup, handlerFixup, spliced, partiallyRecovered,
    unrecoverable]

def name : Stage → String
  | start => "Start"
  | headerRead => "HeaderRead"
  | instructionDecode => "InstructionDecode"
  | branchFixup => "BranchFixup"
  | handlerFixup => "ExceptionHandlerFixup"
  | spliced => "Spliced"
  | partiallyRecovered => "PartiallyRecovered"
  | unrecoverable => "Unrecoverable"

def ofName? (text : String) : Option Stage := all.find? fun stage => stage.name == text

/-- The outcomes are final. -/
def isFinal : Stage → Bool
  | spliced | partiallyRecovered | unrecoverable => true
  | _ => false

/-- Whether one stage may follow another. Every stage that is not final may fail. -/
def mayPrecede : Stage → Stage → Bool
  | start, headerRead => true
  | headerRead, instructionDecode => true
  | instructionDecode, branchFixup => true
  | branchFixup, handlerFixup => true
  | branchFixup, partiallyRecovered => true
  | handlerFixup, spliced => true
  | stage, unrecoverable => !stage.isFinal
  | _, _ => false

/-- The stages that may come next. -/
def next (stage : Stage) : List Stage := all.filter stage.mayPrecede

end Stage

/-- The stages of one method so far. -/
structure Progress where
  token : Token
  /-- The stages before the present one, the latest first. -/
  past : List Stage := []
  stage : Stage := .start
  deriving DecidableEq, Repr

namespace Progress

/-- Every stage so far, in order. -/
def history (progress : Progress) : List Stage := (progress.stage :: progress.past).reverse

/-- Enters a stage without asking whether it may follow. -/
def enter (progress : Progress) (stage : Stage) : Progress :=
  { progress with past := progress.stage :: progress.past, stage }

/-- Moves on to a stage that may follow. -/
def advance (progress : Progress) (stage : Stage) : Except Error Progress :=
  if progress.stage.mayPrecede stage then .ok (progress.enter stage)
  else
    .error (.malformed ("Method " ++ progress.token.render ++ " cannot move from " ++
      progress.stage.name ++ " to " ++ stage.name))

/-- Gives up, unless the outcome is final already. -/
def fail (progress : Progress) : Progress :=
  if progress.stage.isFinal then progress else progress.enter .unrecoverable

end Progress

end CilRecovery
