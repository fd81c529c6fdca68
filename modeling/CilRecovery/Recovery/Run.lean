import CilRecovery.Permutation.Inference
import CilRecovery.Recovery.Decoder
import CilRecovery.Recovery.Labels
import CilRecovery.Recovery.PositionKey
import CilRecovery.Recovery.Report

/-!
Recovering the methods of a module. What the interpreter looks like is worked out first, and a
failure there ends the run. Then each method is recovered on its own, and a failure is charged to
its report alone.
-/
namespace CilRecovery

/-- A method that is to be recovered, and the position key in its stub. -/
structure Stub where
  token : Token
  key : String
  deriving DecidableEq, Repr

/-- What is known of the interpreter in a protected module. -/
structure Interpreter where
  /-- The resource with the operand records. -/
  resolverStream : Stream.Resource
  /-- The resource with the method records. -/
  methodStream : Stream.Resource
  handlers : List HandlerRow
  anchors : Anchors
  /-- The byte order of headers and records. -/
  general : ProfileSource
  /-- The byte order of code. -/
  instruction : ProfileSource
  layout : LayoutSource
  /-- The mask over position keys. -/
  mask : UInt32
  methods : List Stub

/-- All that recovering a method takes. -/
structure Workbench where
  settings : Settings
  profiles : Profiles
  layout : RecordLayout
  catalog : Catalog
  resolverStream : Stream.Layered
  methodStream : Stream.Layered
  mask : UInt32

namespace Workbench

/-- A failure in some part of the preparation, which is fatal. -/
def fatal (part : String) : Except Error α → Except Error α
  | .ok value => .ok value
  | .error (.bootstrap reason) => .error (.bootstrap reason)
  | .error e => .error (.bootstrap (part ++ ": " ++ e.message))

/-- Works out what the interpreter looks like. -/
def prepare (settings : Settings) (host : Host) (interpreter : Interpreter) :
    Except Error Workbench := do
  let general ← fatal "general byte order" (interpreter.general.profile host)
  let instruction ← fatal "instruction byte order" (interpreter.instruction.profile host)
  let layout ← fatal "record layout" (interpreter.layout.layout host)
  let context : MatchContext := ⟨host, interpreter.anchors⟩
  let catalog ← fatal "opcode catalog"
    (Catalog.build context interpreter.handlers settings.noticedFailure)
  let resolverStream ← fatal "resolver stream" interpreter.resolverStream.openLayers
  let methodStream ← fatal "method stream" interpreter.methodStream.openLayers
  return {
    settings
    profiles := ⟨general, instruction⟩
    layout
    catalog
    resolverStream
    methodStream
    mask := interpreter.mask }

/-- The resolver for a method with some seed. -/
def resolver (bench : Workbench) (seed : UInt32) : Resolver where
  stream := bench.resolverStream
  rule := bench.settings.counters.resolverRule seed
  profiles := bench.profiles
  layout := bench.layout.operand
  maxDepth := bench.settings.maxDepth

/-- The reader for the record of a method. -/
def reader (bench : Workbench) (key : PositionKey) : Reader :=
  let rule := bench.settings.counters.methodRule key.offset.toUInt64 key.seed
  Reader.ofStream bench.methodStream rule bench.profiles

def decoder (bench : Workbench) (resolver : Resolver) (token : Token) : Decoder where
  catalog := bench.catalog
  resolver
  token
  passwords := if bench.settings.chainCipher then some bench.settings.passwords else none

/-- The session that the next method starts with. What was resolved before serves it too, unless
its records are read under a key of its own. -/
def freshSession (bench : Workbench) (session : Session) : Session :=
  match bench.settings.counters.resolver with
  | .position => session
  | .methodKey => { session with memo := {} }

end Workbench

/-- The state of a method under recovery. -/
structure Recovering where
  session : Session
  method : VirtualMethod
  progress : Progress

/-- A step of a recovery. What was reached before an error stays. -/
abbrev RecoverM := ExceptT Error (StateM Recovering)

/-- What a recovery that did not fail has to say. -/
structure Recovered where
  instructions : List Instruction
  failure : Option FailureKind := none
  message : Option String := none
  isSpliced : Bool

/-- The types that a header names. -/
structure HeaderTypes where
  declaring : TypeSig
  ret : TypeSig
  locals : List TypeSig
  params : List TypeSig
  deriving DecidableEq, Repr

namespace MethodHeader

/-- The type at a position, which must be there. -/
def requireType (resolver : Resolver) (what : String) (position : Int32) : ResolveM TypeSig := do
  match ← resolver.resolveType position with
  | some sig => return sig
  | none =>
    throw (.resolution ("The " ++ what ++ " at 0x" ++ Text.hex 0 position.toUInt32.toNat ++
      " did not resolve"))

def paramType (resolver : Resolver) (param : HeaderParam) : ResolveM TypeSig := do
  let sig ← requireType resolver "parameter type" param.type
  return if param.byRef then .byRef sig else sig

/-- Resolves the types that a header names. -/
def types (resolver : Resolver) (header : MethodHeader) : ResolveM HeaderTypes := do
  let declaring ← requireType resolver "declaring type" header.declaring
  let ret ← requireType resolver "return type" header.ret
  let locals ← header.locals.mapM (requireType resolver "local")
  let params ← header.params.mapM (paramType resolver)
  return { declaring, ret, locals, params }

end MethodHeader

namespace Recovering

/-- Passes a result on. -/
def lift : Except Error α → RecoverM α
  | .ok value => pure value
  | .error e => throw e

/-- Runs a reading operation. -/
def reading (reader : Reader) (operation : ReadM α) : RecoverM (α × Reader) := do
  let (result, reader) := operation.run.run reader
  return (← lift result, reader)

/-- Runs a resolving operation. -/
def resolving (operation : ResolveM α) : RecoverM α := do
  let state ← get
  let (result, session) := operation.run.run state.session
  set { state with session }
  lift result

def modifyMethod (change : VirtualMethod → VirtualMethod) : RecoverM Unit :=
  modify fun state => { state with method := change state.method }

def advance (stage : Stage) : RecoverM Unit := do
  let state ← get
  set { state with progress := ← lift (state.progress.advance stage) }

/-- Writes a body back. -/
def splice (body : MethodBody) : RecoverM Unit := do
  let state ← get
  let host ← lift (state.session.host.replaceBody state.method.token body)
  set { state with session := { state.session with host } }

/-- Reads the header of a method and resolves the types in it. -/
def readHeader (bench : Workbench) (resolver : Resolver) (key : PositionKey) :
    RecoverM (HeaderTypes × Reader) := do
  let (header, reader) ← reading (bench.reader key) do
    Reader.seek key.offset.toNat
    MethodHeader.read bench.layout.header
  let types ← resolving (header.types resolver)
  modifyMethod fun method =>
    { method with header := some header, declaring := some types.declaring }
  return (types, reader)

/-- Ends the recovery of a method whose code was decoded to the end. -/
def finishFull (bench : Workbench) (resolver : Resolver) (types : HeaderTypes)
    (records : List HandlerRecord) (decoded : DecodedBody) : RecoverM Recovered := do
  let handlers ← resolving (decoded.fixHandlers resolver records)
  advance .handlerFixup
  splice {
    instructions := decoded.instructions
    handlers
    locals := types.locals
    initLocals := !types.locals.isEmpty
    skipVerification := bench.settings.output.skipVerification }
  advance .spliced
  return { instructions := decoded.instructions, isSpliced := true }

/-- Ends the recovery of a method whose decoding stopped early. -/
def finishDegraded (bench : Workbench) (types : HeaderTypes) (stop : DecodeStop)
    (decoded : DecodedBody) : RecoverM Recovered := do
  modifyMethod fun method => { method with status := .degraded }
  let isSpliced := !bench.settings.output.onlyRecovered
  if isSpliced then
    splice {
      instructions := decoded.instructions
      locals := types.locals
      initLocals := !types.locals.isEmpty
      skipVerification := true }
  advance .partiallyRecovered
  return {
    instructions := decoded.instructions
    failure := stop.error?.map Error.kind
    message := some stop.message
    isSpliced }

/-- Decodes the code of a method and links its branches. -/
def decodeBody (bench : Workbench) (resolver : Resolver) (token : Token) (reader : Reader) :
    RecoverM DecodedBody := do
  let (length, reader) ← reading reader Reader.u32
  let (decoded, _) ← resolving ((bench.decoder resolver token).decode reader length.toNat)
  advance .instructionDecode
  let linked ← lift decoded.fixBranches
  advance .branchFixup
  return linked

/-- Recovers the method at hand from the record that its key leads to. -/
def recoverRecord (bench : Workbench) (key : PositionKey) : RecoverM Recovered := do
  let token := (← get).method.token
  let resolver := bench.resolver key.seed
  let (types, reader) ← readHeader bench resolver key
  let (records, reader) ← reading reader HandlerRecord.readTable
  advance .headerRead
  let decoded ← decodeBody bench resolver token reader
  match decoded.stop with
  | some stop => finishDegraded bench types stop decoded
  | none => finishFull bench resolver types records decoded

/-- Recovers the method at hand. -/
def recover (bench : Workbench) : RecoverM Recovered := do
  let key ← lift (PositionKey.decode bench.mask (← get).method.key)
  recoverRecord bench key

end Recovering

/-- The state in which the recovery of a method begins. -/
def Workbench.begin (bench : Workbench) (session : Session) (stub : Stub) : Recovering where
  session := bench.freshSession session
  method := { token := stub.token, key := stub.key }
  progress := { token := stub.token }

/-- The report on a method whose recovery has ended. -/
def Recovering.report (token : Token) (state : Recovering) : Except Error Recovered → MethodReport
  | .ok recovered =>
    { token
      name := state.method.name?
      status := state.method.status
      stage := state.progress.stage
      failure := recovered.failure
      message := recovered.message
      instructions := recovered.instructions.length
      placeholders := recovered.instructions.countP Instruction.isPlaceholder
      isSpliced := recovered.isSpliced }
  | .error e =>
    { token
      name := state.method.name?
      status := .unrecoverable
      stage := state.progress.fail.stage
      failure := some e.kind
      message := some e.message
      instructions := 0
      placeholders := 0
      isSpliced := false }

/-- Recovers one method and reports on it. -/
def Workbench.recoverMethod (bench : Workbench) (session : Session) (stub : Stub) :
    MethodReport × Session :=
  let (result, state) := (Recovering.recover bench).run.run (bench.begin session stub)
  (state.report stub.token result, state.session)

/-- Recovers methods one after the other. -/
def Workbench.recoverAll (bench : Workbench) : Session → List Stub → List MethodReport × Session
  | session, [] => ([], session)
  | session, stub :: rest =>
    let (report, session) := bench.recoverMethod session stub
    let (reports, session) := bench.recoverAll session rest
    (report :: reports, session)

/-- Recovers the virtualized methods of a module: the report, and the module with the bodies
written back. -/
def recoverModule (settings : Settings) (host : Host) (interpreter : Interpreter) :
    Except Error (Report × Host) := do
  let bench ← Workbench.prepare settings host interpreter
  let (methods, session) := bench.recoverAll { host } interpreter.methods
  return (
    { methods
      opcodes := bench.catalog.size
      identified := bench.catalog.identifiedCount },
    session.host)

end CilRecovery
