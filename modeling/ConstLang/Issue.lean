import ConstLang.Diagnostic
import ConstLang.Symbol

/-!
# Issues

What resolution finds to say about a program. An issue holds what it is about, and becomes one
diagnostic, or two where it also points at another definition.
-/

namespace ConstLang

inductive Issue
  /-- A definition has the name of a built-in type. -/
  | builtinName (name : Name)
  /-- A definition has the name of an earlier one. -/
  | redeclared (name earlier : Name)
  /-- A number stands in a type expression. -/
  | numberAsType (n : Numeral) (span : Span)
  /-- The exponent of a number is out of range. -/
  | exponentOutOfRange (n : Numeral) (span : Span)
  /-- A number does not fit the type that is expected of it. -/
  | literalMisfit (n : Numeral) (span : Span) (type : Scalar) (misfit : Misfit)
  /-- A name has another type than the one that is expected. -/
  | mismatch (name : Name) (actual expected : Ty)
  /-- A name is defined only here or later. -/
  | notYetResolved (name later : Name)
  | undefinedName (name : Name)
  /-- The operand of a sign is a type. -/
  | signedType (sign : Sign) (span : Span) (type : Ty)
  /-- A binary operation stands where a type is expected. -/
  | operationAsType (op : Operator) (span : Span) (expected : Ty)
  | divisionByZero (divisor : Span)
  /-- The type expression of a definition is the type of types. -/
  | metatypeVariable (name : Name) (span : Span)
  /-- The type expression of a definition has no known value. -/
  | unknownType (name : Name) (span : Span)
  /-- No variable may have the type. -/
  | unstorableType (name : Name) (type : Scalar) (span : Span)
  /-- The value of a definition does not fit its type. -/
  | valueMisfit (x : Decimal) (span : Span) (type : Scalar) (misfit : Misfit)
  /-- The value of a definition is stored rounded. -/
  | rounded (x stored : Decimal) (span : Span) (type : Scalar)
deriving DecidableEq

namespace Issue

/-- The code, place and message of an issue. -/
def main : Issue → Code × Span × String
  | builtinName name =>
    (.builtinClash, name.span, s!"name `{name.text}` clashes with built-in symbol")
  | redeclared name _ => (.redeclaration, name.span, s!"`{name.text}` is already declared")
  | numberAsType n span =>
    (.scalarRequired, span,
      s!"expected a value of type `{Ty.metatype.name}`, found number `{n.text}`")
  | exponentOutOfRange n span =>
    (.notRepresentable, span, s!"exponent of `{n.text}` is out of range")
  | literalMisfit n span type misfit =>
    (.notRepresentable, span, s!"literal `{n.text}` does not fit `{type.name}`: {misfit.reason}")
  | mismatch name actual expected =>
    (.typeMismatch, name.span,
      s!"`{name.text}` has type `{actual.name}`, expected `{expected.name}`")
  | notYetResolved name _ => (.notYetResolved, name.span, s!"`{name.text}` is not yet resolved")
  | undefinedName name => (.undefinedName, name.span, s!"undefined symbol `{name.text}`")
  | signedType sign span type =>
    (.scalarRequired, span,
      s!"operator `{sign.mark.spelling}` requires a scalar operand, found `{type.name}`")
  | operationAsType op span expected =>
    (.scalarRequired, span,
      s!"operator `{op.mark.spelling}` requires scalar operands, but `{expected.name}` is expected")
  | divisionByZero divisor => (.divisionByZero, divisor, "division by zero")
  | metatypeVariable name span =>
    (.typeMismatch, span, s!"`{name.text}` cannot have type `{Ty.metatype.name}`")
  | unknownType name span =>
    (.unknownType, span, s!"type of `{name.text}` is not known at compile time")
  | unstorableType name type span =>
    (.unstorableType, span,
      s!"`{type.name}` cannot be the type of a variable; give `{name.text}` a sized type")
  | valueMisfit x span type misfit =>
    (.notRepresentable, span, s!"value `{x}` does not fit `{type.name}`: {misfit.reason}")
  | rounded x stored span type =>
    (.roundedConstant, span, s!"`{x}` is rounded to `{stored}` to fit `{type.name}`")

/-- The remark that goes with an issue about another definition. -/
def remark? : Issue → Option (Span × String)
  | redeclared _ earlier => some (earlier.span, "previous declaration was here")
  | notYetResolved _ later => some (later.span, "defined later here")
  | _ => none

/-- The diagnostics of an issue: its own, and then its remark. -/
def diagnostics (i : Issue) : List Diagnostic :=
  let (code, span, message) := i.main
  .coded .resolving code span message ::
    (i.remark?.map fun (span, message) => .note .resolving span message).toList

end Issue

end ConstLang
