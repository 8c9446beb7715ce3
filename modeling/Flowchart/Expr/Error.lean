import Flowchart.Failure.Kind
import Flowchart.Text.Quoted

/-!
# Errors of expressions

What can be wrong with an arithmetic expression, a simple value, a comparison or an
assignment statement.
-/

namespace Flowchart.Expr

inductive Error where
  | invalidCharacters
  | numberOutOfRange (lexeme : String)
  | unknownName (name : String)
  | operatorMissingBeforeNumber (lexeme : String)
  | operatorMissingBeforeBracket (lexeme : String)
  | bracketMismatch (closing : String) (pos : Nat) (opening : String)
  | unbalancedClosing (closing : String) (pos : Nat)
  | unbalancedOpening
  | operandMissingBefore (operator : String)
  | invalidToken (lexeme : String)
  | operandMissingFor (operator : String)
  | divisionByZero
  | integerDivisionByZero
  | moduloByZero
  | unknownOperator (operator : String)
  | malformedExpression
  | invalidResult
  | expressionMissing
  | valueMissing
  | invalidValue (text : String)
  | infiniteValue (text : String)
  | outputMissing
  | unknownComparison (operator : String)
  | invalidAssignment (statement : String)
deriving Repr, DecidableEq

namespace Error

def reason : Error → Reason
  | invalidCharacters | unknownName _ | invalidToken _ => .invalidCharacters
  | numberOutOfRange _ | operatorMissingBeforeNumber _ | operatorMissingBeforeBracket _
  | bracketMismatch .. | unbalancedClosing .. | unbalancedOpening | operandMissingBefore _
  | operandMissingFor _ | malformedExpression | invalidValue _ | invalidAssignment _ => .malformed
  | divisionByZero => .divisionByZero
  | integerDivisionByZero => .integerDivisionByZero
  | moduloByZero => .moduloByZero
  | invalidResult | infiniteValue _ => .invalidResult
  | expressionMissing | valueMissing | outputMissing => .emptyExpression
  | unknownOperator _ | unknownComparison _ => .unknownOperator

def message : Error → String
  | invalidCharacters => "expression contains invalid characters"
  | numberOutOfRange lexeme => s!"malformed number {Text.quoted lexeme}"
  | unknownName name => s!"expression contains unknown name '{name}'"
  | operatorMissingBeforeNumber lexeme => s!"missing operator before {Text.quoted lexeme}"
  | operatorMissingBeforeBracket lexeme => s!"missing operator before '{lexeme}'"
  | bracketMismatch closing pos opening =>
    s!"'{closing}' at position {pos} does not match '{opening}'"
  | unbalancedClosing closing pos => s!"unbalanced '{closing}' at position {pos}"
  | unbalancedOpening => "unbalanced '('"
  | operandMissingBefore operator => s!"missing operand before '{operator}'"
  | invalidToken lexeme => s!"invalid token {Text.quoted lexeme}"
  | operandMissingFor operator => s!"missing operand for '{operator}'"
  | divisionByZero => "division by zero"
  | integerDivisionByZero => "division by zero (integer division)"
  | moduloByZero => "division by zero (modulo)"
  | unknownOperator operator => s!"unknown operator '{operator}'"
  | malformedExpression => "malformed expression"
  | invalidResult => "invalid result of calculation"
  | expressionMissing => "expression missing"
  | valueMissing => "value missing"
  | invalidValue text => s!"invalid value '{text}'"
  | infiniteValue text => s!"invalid value '{text}'"
  | outputMissing => "nothing to output"
  | unknownComparison operator => s!"unknown comparison operator '{operator}'"
  | invalidAssignment statement => s!"invalid assignment statement '{statement}'"

end Error

end Flowchart.Expr
