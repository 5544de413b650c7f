/-
The names that every program can see.

Conversions are functions; `Math`, `JSON`, `Array`, `Object` and `console`
are objects of functions, in byte order of their names.
-/
import Reactive.Value.Basic

namespace Reactive

/-- The name of a global function. -/
def Builtin.name : Builtin → Text
  | .string => "String" | .number => "Number" | .boolean => "Boolean"
  | .parseInt => "parseInt" | .parseFloat => "parseFloat" | .isNaN => "isNaN"
  | .abs => "abs" | .ceil => "ceil" | .floor => "floor" | .round => "round" | .sqrt => "sqrt"
  | .trunc => "trunc" | .sign => "sign" | .pow => "pow" | .min => "min" | .max => "max"
  | .stringify => "stringify" | .parse => "parse" | .isArray => "isArray"
  | .keys => "keys" | .values => "values" | .entries => "entries" | .assign => "assign"
  | .log => "log"

/-- A global function as a value. -/
def Builtin.value (b : Builtin) : Value := .func (.mk b.name 0 (.builtin b))

namespace Globals

/-- An object of global functions. -/
def group (bs : List Builtin) : List (Text × Value) := bs.map fun b => (b.name, b.value)

/-- The global names and what they stand for. -/
def all : Dict Value :=
  [("Array", .map (group [.isArray])),
    ("Boolean", Builtin.boolean.value),
    ("Infinity", .number (.float Binary64.infinity)),
    ("JSON", .map (group [.parse, .stringify])),
    ("Math", .map (group [.abs, .ceil, .floor, .max, .min, .pow, .round, .sign, .sqrt, .trunc] ++
      [(("PI" : Text), Value.number (.float 3.141592653589793))])),
    ("NaN", .number (.float Binary64.nan)),
    ("Number", Builtin.number.value),
    ("Object", .map (group [.assign, .entries, .keys, .values])),
    ("String", Builtin.string.value),
    ("console", .map (group [.log])),
    ("isNaN", Builtin.isNaN.value),
    ("parseFloat", Builtin.parseFloat.value),
    ("parseInt", Builtin.parseInt.value)]

/-- What a global name stands for. -/
def get? (name : Text) : Option Value := all.get? name

/-- The global names in byte order. -/
def names : List Text := all.keys

end Globals

end Reactive
