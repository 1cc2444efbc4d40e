import BehaviorTree.Compile.Emission
import BehaviorTree.Script.Parse

/-! Compilation of a graph and everything that it calls into a program. -/

namespace BehaviorTree

/-- The result of a compilation. There is always a program to look at, but it must not be run if
there are errors. -/
structure Compilation where
  program : Program
  errors : List CompileError
  warnings : List CompileWarning

namespace Compilation

def isOk (c : Compilation) : Bool :=
  c.errors.isEmpty

/-- What the log says about a compilation. -/
def summary (c : Compilation) (graph : String) : String :=
  s!"compiled `{graph}`: {c.program.size} nodes, {c.program.expressions.operations.size} expressions, " ++
    s!"{c.errors.length} errors, {c.warnings.length} warnings"

end Compilation

/-- Registers all instances, then emits them. Repeated diagnostics are left out. -/
def Sources.compile (src : Sources) : Except Fault Compilation := do
  let registry ← Registry.build src
  let unreached := registry.unreached src
  let (program, draft) ← (Plan.ofRegistry src registry).program Draft.empty
  return {
    program
    errors := (registry.errors ++ draft.errors).toList.eraseDups
    warnings := (registry.warnings.toList ++ unreached ++ draft.warnings.toList).eraseDups }

def Script.sources (script : Script) : Sources :=
  ⟨script.graphs, script.catalog, script.blackboard, script.entry⟩

def Script.compile (script : Script) : Except Fault Compilation :=
  script.sources.compile

end BehaviorTree
