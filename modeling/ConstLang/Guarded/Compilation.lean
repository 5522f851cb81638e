import ConstLang.Compilation
import ConstLang.Guarded.Diagnostic
import ConstLang.Guarded.Program
import ConstLang.Guarded.Token

/-!
# Compilation with every contract checked

The stages once more, with the reader, the parser and the writer of messages that check what they
ask for. The table of symbols checks its contracts in any case.
-/

namespace ConstLang.Guarded

/-- The diagnostics of an issue. A number that is quoted is asked of the source. -/
def issueDiagnostics (i : Issue) : Except Fault (List Diagnostic) :=
  match i with
  | .numberAsType _ span => do
    let text ← span.text
    return [.coded .resolving .scalarRequired span
      s!"expected a value of type `{Ty.metatype.name}`, found number `{text}`"]
  | .exponentOutOfRange _ span => do
    let text ← span.text
    return [.coded .resolving .notRepresentable span s!"exponent of `{text}` is out of range"]
  | .literalMisfit _ span type misfit => do
    let text ← span.text
    return [.coded .resolving .notRepresentable span
      s!"literal `{text}` does not fit `{type.name}`: {misfit.reason}"]
  | i => .ok i.diagnostics

/-- Resolves a program and adds what comes up to a report. -/
def resolve (r : Report) (p : Program) :
    Except Fault (Except Stage ResolvedProgram × Report) := do
  let resolution ← p.resolve
  let diagnostics ← resolution.issues.mapM issueDiagnostics
  return (if resolution.complete then .ok ⟨p, resolution.symbols⟩ else .error .resolving,
    r.pushAll diagnostics.flatten)

/-- Compiles a source and adds what it reports to a report. -/
def compile (r : Report) (s : Source) :
    Except Fault (Except Stage ResolvedProgram × Report) := do
  let (ts, lexed) ← tokens r s
  if r.errors < lexed.errors then return (.error .lexing, lexed)
  let (result, parsed) ← parse lexed ts
  match result with
  | .error stage => return (.error stage, parsed)
  | .ok p => resolve parsed p

end ConstLang.Guarded
