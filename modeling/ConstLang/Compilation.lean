import ConstLang.Program.Parser
import ConstLang.Resolution

/-!
# Compilation

A source goes through the stages until one of them reports an error. What comes out is a program
with its symbols or the stage that failed, and a report to which each stage has added.
-/

namespace ConstLang

namespace Flaw

def code : Flaw → Code
  | strayCharacter => .strayCharacter
  | noFractionDigits | noExponentDigits => .malformedNumber

def message : Flaw → String
  | strayCharacter => "could not recognize the character"
  | noFractionDigits => "expected digits after the decimal point"
  | noExponentDigits => "expected digits in the exponent"

end Flaw

/-- What is reported about a token that is flawed. -/
def Token.diagnostic? (t : Token) : Option Diagnostic :=
  t.flaw?.map fun flaw => .coded .lexing flaw.code t.span flaw.message

/-- What is reported about the tokens of a source. -/
def Source.lexicalErrors (s : Source) : List Diagnostic := s.tokens.filterMap Token.diagnostic?

/-- A program that was resolved as a whole. -/
structure ResolvedProgram where
  program : Program
  symbols : Symbols
deriving DecidableEq

/-- The text of a failure. -/
def Stage.failure (s : Stage) : String := s!"{s.name} failed"

/-- Resolves a program and adds what comes up to a report. -/
def Report.resolve (r : Report) (p : Program) :
    Except Fault (Except Stage ResolvedProgram × Report) := do
  let resolution ← p.resolve
  return (if resolution.complete then .ok ⟨p, resolution.symbols⟩ else .error .resolving,
    r.pushAll (resolution.issues.flatMap Issue.diagnostics))

/-- Compiles a source and adds what it reports to a report. A source is not parsed if its tokens
add an error. -/
def Report.compile (r : Report) (s : Source) :
    Except Fault (Except Stage ResolvedProgram × Report) := do
  let lexed := r.pushAll s.lexicalErrors
  if r.errors < lexed.errors then return (.error .lexing, lexed)
  match ← Program.ofTokens s.tokens with
  | .error e => return (.error .parsing, lexed.push e.diagnostic)
  | .ok p => lexed.resolve p

/-- Why a file was not compiled. -/
inductive FileError
  | unreadable (path : String)
  | failed (stage : Stage)
deriving DecidableEq

def FileError.message : FileError → String
  | unreadable path => s!"could not read `{path}`"
  | failed stage => stage.failure

/-- Compiles a file from its bytes; there are none if it could not be read, and a file that is not
UTF-8 counts as such. -/
def Report.compileFile (r : Report) (tag : Nat) (path : String) (bytes : Option ByteArray) :
    Except Fault (Except FileError ResolvedProgram × Report) :=
  match bytes.bind (Source.ofBytes? tag path) with
  | none => .ok (.error (.unreadable path), r)
  | some s => do
    let (result, r) ← r.compile s
    return (result.mapError .failed, r)

end ConstLang
