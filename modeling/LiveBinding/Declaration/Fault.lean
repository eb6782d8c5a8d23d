/-
# LiveBinding.Declaration.Fault -- what can be wrong with a declaration

The tokens of a declaration, the reasons for refusing one, and the wording of
those reasons.  A fault always comes with the selector that the declaration
was written for and with the byte offset of the first wrong place.
-/
import LiveBinding.Number.Basic

namespace LiveBinding

set_option autoImplicit false

namespace Declaration

/-- A piece of a declaration's text. -/
inductive Token where
  | name (name : String)
  | text (value : String)
  | number (value : Number)
  | colon
  | comma
  | bang
  | openBrace
  | closeBrace
  | openParen
  | closeParen
  deriving DecidableEq

/-- How a token is called in messages. -/
def Token.describe : Token → String
  | .name word => "identifier '" ++ word ++ "'"
  | .text _ => "string"
  | .number n => "number " ++ n.text
  | .colon => "':'"
  | .comma => "','"
  | .bang => "'!'"
  | .openBrace => "'\x7b'"
  | .closeBrace => "'\x7d'"
  | .openParen => "'('"
  | .closeParen => "')'"

/-- How what was found is called; `none` is the end. -/
def describeFound : Option Token → String
  | some token => token.describe
  | none => "end of declaration"

/-- A reason for refusing a declaration. -/
inductive Fault where
  | unterminatedText
  | unexpectedCharacter (c : Char)
  | invalidNumber (literal : String)
  | expectedKey (found : Option Token)
  | expectedColon (found : Option Token)
  | expectedExpression (found : Option Token)
  | expectedCommaOrBrace (found : Option Token)
  | expectedCommaOrEnd (found : Option Token)
  | expectedParen (found : Option Token)
  | undefinedName (name : String)
  | unboundOperator (operator : String)
  deriving DecidableEq

/-- The wording of a fault. -/
def Fault.message : Fault → String
  | .unterminatedText => "unterminated string"
  | .unexpectedCharacter c => "unexpected character '" ++ c.toString ++ "'"
  | .invalidNumber literal => "invalid number '" ++ literal ++ "'"
  | .expectedKey found => "expected a key, found " ++ describeFound found
  | .expectedColon found => "expected ':' after key, found " ++ describeFound found
  | .expectedExpression found => "expected an expression, found " ++ describeFound found
  | .expectedCommaOrBrace found => "expected ',' or '\x7d', found " ++ describeFound found
  | .expectedCommaOrEnd found =>
      "expected ',' or end of declaration, found " ++ describeFound found
  | .expectedParen found => "expected ')', found " ++ describeFound found
  | .undefinedName name => "'" ++ name ++ "' is not defined"
  | .unboundOperator operator => "no expression bound to operator '" ++ operator ++ "'"

end Declaration

/-- A declaration that could not be read or compiled. -/
structure DeclarationError where
  selector : String
  offset : Nat
  fault : Declaration.Fault
  deriving DecidableEq

def DeclarationError.message (e : DeclarationError) : String :=
  "Error parsing bindings for \"" ++ e.selector ++ "\": " ++ e.fault.message ++
    " (at offset " ++ toString e.offset ++ ")"

end LiveBinding
