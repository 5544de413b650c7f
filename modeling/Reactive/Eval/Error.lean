/-
Failures of evaluation.

`EvalError` lists the causes, `EvalError.code` the class of each and
`EvalError.message` its wording.
-/
import Reactive.Value.Plain

namespace Reactive

/-- Classes of failures. -/
inductive ErrorCode where
  | none | type | div | perm | varNotFound | propNotFound | range | args | call | invalidArg
  | unknown
deriving DecidableEq

namespace ErrorCode

/-- The class with a number. -/
def ofNumber (n : Int) : ErrorCode :=
  if n = 0 then .none else if n = 1 then .type else if n = 2 then .div else if n = 3 then .perm
  else if n = 4 then .varNotFound else if n = 5 then .propNotFound else if n = 6 then .range
  else if n = 7 then .args else if n = 8 then .call else if n = 9 then .invalidArg else .unknown

/-- The name of a class. -/
def name : ErrorCode → Text
  | .none => "E_NONE"
  | .type => "E_TYPE"
  | .div => "E_DIV"
  | .perm => "E_PERM"
  | .varNotFound => "E_VARNF"
  | .propNotFound => "E_PROPNF"
  | .range => "E_RANGE"
  | .args => "E_ARGS"
  | .call => "E_CALL"
  | .invalidArg => "E_INVARG"
  | .unknown => "E_UNKNOWN"

/-- What a class means. -/
def meaning : ErrorCode → Text
  | .none => "No error"
  | .type => "Type mismatch"
  | .div => "Division by zero"
  | .perm => "Permission denied"
  | .varNotFound => "Variable not found"
  | .propNotFound => "Property not found"
  | .range => "Range error"
  | .args => "Incorrect number of arguments"
  | .call => "Value is not callable"
  | .invalidArg => "Invalid argument"
  | .unknown => "Unknown error"

/-- A failure of this class with its detail; without a detail the meaning stands for it. -/
def message (c : ErrorCode) (detail : Text) : Text :=
  c.name ++ ": " ++ if detail.isEmpty then c.meaning else detail

end ErrorCode

/-- Why an evaluation failed. -/
inductive EvalError where
  | notDefined (name : Text)
  | constantAssigned (name : Text)
  | assignedWhileRendering (name : Text)
  | assignedFromDerived (name : Text)
  | derivedAssigned (name : Text)
  | methodAssigned (name : Text)
  | divisionByZero
  | moduloByZero
  | readOfNullish (value name : Text)
  | writeOfNullish (name value : Text)
  | writeOfOther (name kind : Text)
  | badIndex (index : Text)
  | badTarget (source : Text)
  | misplacedSpread
  | notIterable (kind : Text)
  | notFunction (source : Text)
  | badCallback (method : Text)
  | emptyReduce
  | negativeCount (count : Int)
  | badDigits
  | notObject (method : Text)
  | unwritable (number : Text)
  | unreadable (error : JsonError)
  | numberTooLarge (numeral : Text)

namespace EvalError

/-- The class of a failure. -/
def code : EvalError → ErrorCode
  | .notDefined _ => .varNotFound
  | .constantAssigned _ | .assignedWhileRendering _ | .assignedFromDerived _ | .derivedAssigned _
  | .methodAssigned _ => .perm
  | .divisionByZero | .moduloByZero => .div
  | .readOfNullish _ _ | .writeOfNullish _ _ => .propNotFound
  | .writeOfOther _ _ | .notIterable _ | .badCallback _ | .emptyReduce | .notObject _ => .type
  | .badIndex _ | .negativeCount _ | .badDigits => .range
  | .badTarget _ | .misplacedSpread | .unwritable _ | .unreadable _ | .numberTooLarge _ =>
    .invalidArg
  | .notFunction _ => .call

/-- The wording of a cause. -/
def detail : EvalError → Text
  | .notDefined n => n ++ " is not defined"
  | .constantAssigned n => "assignment to constant " ++ n
  | .assignedWhileRendering n => "cannot assign to " ++ n ++ " while rendering"
  | .assignedFromDerived n => "cannot assign to " ++ n ++ " from a derived value"
  | .derivedAssigned n => "cannot assign to derived value " ++ n
  | .methodAssigned n => "cannot reassign method " ++ n
  | .divisionByZero => "division by zero"
  | .moduloByZero => "modulo by zero"
  | .readOfNullish v n => "cannot read properties of " ++ v ++ " (reading '" ++ n ++ "')"
  | .writeOfNullish n v => "cannot set property " ++ n ++ " of " ++ v
  | .writeOfOther n k => "cannot set property " ++ n ++ " on " ++ k
  | .badIndex i => "invalid list index " ++ i
  | .badTarget src => "cannot assign to " ++ src
  | .misplacedSpread => "spread is only allowed in array literals and calls"
  | .notIterable k => k ++ " is not iterable"
  | .notFunction src => src ++ " is not a function"
  | .badCallback m => m ++ ": callback is not a function"
  | .emptyReduce => "reduce of empty array with no initial value"
  | .negativeCount n => "invalid count value: " ++ Text.ofInt n
  | .badDigits => "toFixed() digits argument must be between 0 and 100"
  | .notObject m => "Object." ++ m ++ ": argument is not an object"
  | .unwritable n => "JSON.stringify: json: unsupported value: " ++ n
  | .unreadable e => "JSON.parse: " ++ e.message
  | .numberTooLarge t =>
    "JSON.parse: json: cannot unmarshal number " ++ t ++ " into Go value of type float64"

/-- The class of a failure and its wording. -/
def message (e : EvalError) : Text := e.code.message e.detail

end EvalError

end Reactive
