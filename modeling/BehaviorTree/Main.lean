import BehaviorTree.CommandLine

/-! The executable: reads the script, performs the effects of the session and exits with its code. -/

namespace BehaviorTree.CommandLine

/-- Reads a script from a file. -/
def readSource (path : String) : IO (Except SourceError String) := do
  try
    match String.fromUTF8? (← IO.FS.readBinFile path) with
    | some text => return .ok text
    | none => return .error .notText
  catch
    | .noFileOrDirectory .. => return .error .missing
    | e => return .error (.other (toString e))

/-- Performs effects in order. A file that cannot be written ends the session. -/
def performAll (effects : List Effect) (code : UInt32) : IO UInt32 :=
  match effects with
  | [] => return code
  | .print text :: rest => do
    IO.print text
    performAll rest code
  | .report text :: rest => do
    IO.eprint text
    performAll rest code
  | .write path content :: rest => do
    try
      IO.FS.writeBinFile path (ByteArray.mk content.toArray)
    catch e =>
      IO.eprintln s!"Error writing '{path}': {e}"
      return 1
    performAll rest code

end BehaviorTree.CommandLine

open BehaviorTree.CommandLine

def main (arguments : List String) : IO UInt32 := do
  match Options.ofArguments arguments with
  | .error e =>
    IO.eprintln s!"error: {e.message}"
    return 2
  | .ok o =>
    let (effects, ending) := (session o (← readSource o.file)).run
    let last := ending.message?.toList.map fun text => Effect.report (text ++ "\n")
    performAll (effects.toList ++ last) ending.code.toUInt32
