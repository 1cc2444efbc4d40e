import BehaviorTree.Compile.Basic
import BehaviorTree.Machine.Run
import BehaviorTree.Program.Encode
import BehaviorTree.Program.Listing
import BehaviorTree.Program.Validity

/-! The command line: compiles a script and runs its program for a number of ticks, in a world of
zeroed memory where every query is answered after the tick that submitted it.

A session does nothing by itself. It says in which order texts are to be printed and files written,
and how it ends. -/

namespace BehaviorTree.CommandLine

structure Options where
  file : String
  /-- Print the listing of the program. -/
  dump : Bool
  ticks : Nat
  /-- The bits of the seconds between two ticks. -/
  interval : UInt64
  /-- Print every event of the trace. -/
  trace : Bool
  /-- The number of results that every query finds. -/
  queryCount : UInt32
  /-- Where to write the encoded program. -/
  emit : Option String

namespace Options

/-- A tenth of a second between ticks, of which there are none. -/
def ofFile (file : String) : Options :=
  ⟨file, false, 0, UInt64.ofNat (Decimal.binary64.nearest 1 10), false, 1, none⟩

/-- Why arguments are refused. -/
inductive UsageError where
  | missingFile
  | unexpected (argument : String)
  | missingValue (option : String)
  | invalidValue (option value : String)
  deriving DecidableEq, Repr

def UsageError.message : UsageError → String
  | missingFile => "no script is given"
  | unexpected argument => s!"unexpected argument '{argument}'"
  | missingValue option => s!"a value is required for '{option}'"
  | invalidValue option value => s!"invalid value '{value}' for '{option}'"

/-- Sets an option that has a value. -/
def set (o : Options) (option value : String) : Except UsageError Options :=
  let given {α : Type} (read : Option α) (change : α → Options) : Except UsageError Options :=
    match read with
    | some a => .ok (change a)
    | none => .error (.invalidValue option value)
  match option with
  | "--ticks" => given (Decimal.readSignedBelow? 0x100000000 value) fun n => { o with ticks := n }
  | "--dt" => given (Decimal.binary64.read? value) fun bits => { o with interval := UInt64.ofNat bits }
  | "--query-count" =>
    given (Decimal.readSignedBelow? 0x100000000 value) fun n => { o with queryCount := UInt32.ofNat n }
  | "--emit" => .ok { o with emit := some value }
  | _ => .error (.unexpected option)

/-- Reads arguments. The value of an option is the next argument, or follows an equals sign. -/
def read (o : Options) : List String → Except UsageError Options
  | [] => .ok o
  | "--dump" :: rest => { o with dump := true }.read rest
  | "--trace" :: rest => { o with trace := true }.read rest
  | argument :: rest =>
    match Script.splitOnce? '=' argument, rest with
    | some (option, value), rest => o.set option value >>= (read · rest)
    | none, value :: rest => o.set argument value >>= (read · rest)
    | none, [] => .error (.missingValue argument)

/-- The script comes first, then its options. -/
def ofArguments : List String → Except UsageError Options
  | [] => .error .missingFile
  | file :: rest => (ofFile file).read rest

end Options

/-- Why a script cannot be read. -/
inductive SourceError where
  | missing
  | notText
  | other (reason : String)
  deriving DecidableEq, Repr

def SourceError.message : SourceError → String
  | missing => "No such file or directory (os error 2)"
  | notText => "stream did not contain valid UTF-8"
  | other reason => reason

inductive Effect where
  | print (text : String)
  /-- Prints a diagnostic. -/
  | report (text : String)
  | write (path : String) (content : Bytes)
  deriving DecidableEq, Repr

/-- How a session ends. -/
inductive Ending where
  | success
  /-- The script is refused. -/
  | failure
  | invalid (error : ProgramError)
  | fault (fault : Fault)
  deriving DecidableEq, Repr

def Ending.code : Ending → UInt8
  | success => 0
  | failure => 1
  | invalid _ | fault _ => 101

/-- The diagnostic of a session that did not end by itself. -/
def Ending.message? : Ending → Option String
  | success | failure => none
  | invalid error => some s!"invalid program: {error.message}"
  | fault cause => some cause.text

/-- Effects until a result, or until the session ends early. -/
abbrev Session := ExceptT Ending (StateM (Array Effect))

namespace Session

def perform (effect : Effect) : Session Unit :=
  modify (·.push effect)

def printLine (text : String) : Session Unit :=
  perform (.print (text ++ "\n"))

def reportLine (text : String) : Session Unit :=
  perform (.report (text ++ "\n"))

/-- Ends the session with a diagnostic. -/
def refuse {α : Type} (text : String) : Session α := do
  reportLine text
  throw .failure

def attempt {α : Type} : Except Fault α → Session α
  | .ok a => return a
  | .error fault => throw (.fault fault)

/-- The effects of a session, and its end. -/
def run (session : Session Unit) : Array Effect × Ending :=
  match StateT.run (ExceptT.run session) #[] with
  | (.ok (), effects) => (effects, .success)
  | (.error ending, effects) => (effects, ending)

end Session

open Session

def parse (o : Options) (source : Except SourceError String) : Session Script := do
  match source with
  | .error e => refuse s!"Error reading file '{o.file}': {e.message}"
  | .ok text =>
    match Script.parse text with
    | .error ⟨_, .fault cause⟩ => throw (.fault cause)
    | .error e => refuse s!"Error parsing {o.file}: {e.text}"
    | .ok script => return script

/-- Compiles a script and reports all of its warnings and errors. -/
def compile (o : Options) (script : Script) : Session Program := do
  let c ← attempt script.compile
  c.warnings.forM fun warning => reportLine s!"warning: {warning.message}"
  c.errors.forM fun error => reportLine s!"error: {error.message}"
  unless c.isOk do refuse s!"{o.file}: {c.errors.length} errors"
  return c.program

/-- The bits of the time of a tick. -/
def Options.time (o : Options) (tick : Nat) : UInt64 :=
  (Float.ofNat tick * Float.ofBits o.interval).toBits

/-- Runs `left` more ticks, of which the first has the given number. -/
def advance (o : Options) (p : Program) :
    (left tick : Nat) → Agent → World QueryBoard → Session (World QueryBoard)
  | 0, _, _, world => return world
  | left + 1, tick, agent, world => do
    let t ← attempt (p.tick defaultMaxCycles agent { world with now := o.time tick })
    if o.trace then
      (t.notices.toList.filterMap Notice.event?).forM fun event => printLine event.text
    advance o p left (tick + 1) t.agent
      { t.world with queries := t.world.queries.completeAll o.queryCount }

def printValue (name : String) (value : Constant) : Session Unit :=
  printLine s!"{name} = {value.text}"

/-- Prints all variables, then the fields of all components that the program uses. -/
def printMemory (script : Script) (p : Program) (world : World QueryBoard) : Session Unit := do
  script.blackboard.toList.forM fun (name, slot) => do
    printValue name (← attempt (slot.readAs slot.type world.blackboard))
  (p.types.toList.zip world.components.toList).forM fun (type, store) => do
    if let some layout := script.catalog.get? type.name then
      layout.fields.forM fun field => do
        let bytes ← attempt (store.data.slice field.offset.toNat field.type.size)
        printValue s!"{type.name}.{field.name}" (.ofBytes field.type bytes)

/-- Runs a program from a blank memory and prints what it leaves there. -/
def runTicks (o : Options) (script : Script) (p : Program) : Session Unit := do
  if let .error e := p.validate then throw (.invalid e)
  let world := World.blank p script.blackboard.blank QueryBoard.empty
  printMemory script p (← advance o p o.ticks 0 Agent.fresh world)

/-- The session for a script. -/
def session (o : Options) (source : Except SourceError String) : Session Unit := do
  let script ← parse o source
  let p ← compile o script
  if o.dump then perform (.print (← attempt p.listingText))
  if let some path := o.emit then perform (.write path (← attempt p.encode))
  unless o.ticks = 0 do runTicks o script p

end BehaviorTree.CommandLine
