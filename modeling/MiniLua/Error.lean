import MiniLua.Diagnostic.Basic

/-! # Errors of running programs

Each constructor is a cause; the wording is in one place. -/

namespace MiniLua

/-- Where an offending value was read from, as far as a message can name it. -/
inductive Origin where
  | unnamed
  | globalVar (name : String)
  | localVar (name : String)
  | field (name : String)
  deriving DecidableEq

namespace Origin

/-- The suffix that a message ends with. -/
def describe : Origin → String
  | unnamed => ""
  | globalVar name => describeVariable "global" name
  | localVar name => describeVariable "local" name
  | field name => describeVariable "field" name

end Origin

inductive ForOperand where
  | start
  | limit
  | step
  deriving DecidableEq

namespace ForOperand

def text : ForOperand → String
  | start => "initial value"
  | limit => "limit"
  | step => "step"

end ForOperand

inductive RuntimeError where
  | arithmetic (type : String) (origin : Origin)
  | concat (type : String) (origin : Origin)
  | compare (left right : String)
  | index (type : String) (origin : Origin)
  | call (type : String) (origin : Origin)
  | length (type : String) (origin : Origin)
  | nilKey
  | nanKey
  | forOperand (what : ForOperand)
  | zeroStep
  /-- A generic `for` over something other than one call. -/
  | forWithoutCall
  /-- A generic `for` over a call of something other than `pairs`. -/
  | forWithoutPairs (type : String)
  /-- The argument of `pairs` is no table, or there is none. -/
  | pairsArgument (type : Option String)
  | pairsOutsideFor
  | breakOutsideLoop
  | stackOverflow
  | unknownStatement (kind : String)
  | unknownExpression (kind : String)
  | unknownUnary (symbol : String)
  deriving DecidableEq

namespace RuntimeError

def message : RuntimeError → String
  | arithmetic type origin =>
    s!"attempt to perform arithmetic on a {type} value{origin.describe}"
  | concat type origin => s!"attempt to concatenate a {type} value{origin.describe}"
  | compare left right =>
    if left = right then s!"attempt to compare two {left} values"
    else s!"attempt to compare {left} with {right}"
  | index type origin => s!"attempt to index a {type} value{origin.describe}"
  | call type origin => s!"attempt to call a {type} value{origin.describe}"
  | length type origin => s!"attempt to get length of a {type} value{origin.describe}"
  | nilKey => "table index is nil"
  | nanKey => "table index is NaN"
  | forOperand what => s!"'for' {what.text} must be a number"
  | zeroStep => "'for' step is zero"
  | forWithoutCall => "generic 'for' expects a call to 'pairs'"
  | forWithoutPairs type => s!"generic 'for' expects a call to 'pairs', got a {type} value"
  | pairsArgument none => "bad argument #1 to 'pairs' (table expected, got no value)"
  | pairsArgument (some type) => s!"bad argument #1 to 'pairs' (table expected, got {type})"
  | pairsOutsideFor => "'pairs' can only be used as the iterator of a generic 'for'"
  | breakOutsideLoop => "break outside a loop"
  | stackOverflow => "stack overflow"
  | unknownStatement kind => s!"unknown statement type {kind}"
  | unknownExpression kind => s!"unknown expression type {kind}"
  | unknownUnary symbol => s!"unknown unary operator {symbol}"

/-- The errors about a value of the wrong type. -/
def isTypeError : RuntimeError → Bool
  | zeroStep => false
  | breakOutsideLoop => false
  | stackOverflow => false
  | unknownStatement _ => false
  | unknownExpression _ => false
  | unknownUnary _ => false
  | _ => true

end RuntimeError

end MiniLua
