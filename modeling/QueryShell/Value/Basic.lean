import QueryShell.Decimal.Basic
import QueryShell.Dictionary

/-! The values that filters work on. An exception is a value like any other until a stream ends with
it. -/

namespace QueryShell

/-- The entries of an object stand in arrival order; the fields of an exception are sorted by
key. -/
inductive Value where
  | exception (name : String) (fields : List (String × Value))
  | null
  | boolean (flag : Bool)
  | number (n : Decimal)
  | string (text : String)
  | array (items : List Value)
  | object (entries : List (String × Value))

inductive Kind where
  | exception
  | null
  | boolean
  | number
  | string
  | array
  | object
  deriving DecidableEq

namespace Kind

def name : Kind → String
  | .exception => "exception"
  | .null => "null"
  | .boolean => "boolean"
  | .number => "number"
  | .string => "string"
  | .array => "array"
  | .object => "object"

def rank : Kind → Nat
  | .exception => 0
  | .null => 1
  | .boolean => 2
  | .number => 3
  | .string => 4
  | .array => 5
  | .object => 6

end Kind

structure Exception where
  name : String
  fields : List (String × Value)

namespace Value

def kind : Value → Kind
  | .exception .. => .exception
  | .null => .null
  | .boolean _ => .boolean
  | .number _ => .number
  | .string _ => .string
  | .array _ => .array
  | .object _ => .object

def isException : Value → Bool
  | .exception .. => true
  | _ => false

def asException? : Value → Option Exception
  | .exception name fields => some ⟨name, fields⟩
  | _ => none

def asText? : Value → Option String
  | .string text => some text
  | _ => none

def asEntry? : Value → Option (String × Value)
  | .array [.string key, value] => some (key, value)
  | _ => none

mutual

/-- The form in which an observer sees a value: every object has each key once, with its last value,
in key order. -/
def canonical : Value → Value
  | .exception name fields => .exception name (canonicalFields fields)
  | .array items => .array (canonicalItems items)
  | .object entries => .object (canonicalEntries entries)
  | .null => .null
  | .boolean flag => .boolean flag
  | .number n => .number n
  | .string text => .string text

def canonicalItems : List Value → List Value
  | [] => []
  | v :: vs => canonical v :: canonicalItems vs

def canonicalFields : List (String × Value) → List (String × Value)
  | [] => []
  | (key, v) :: rest => (key, canonical v) :: canonicalFields rest

def canonicalEntries : List (String × Value) → List (String × Value)
  | [] => []
  | (key, v) :: rest => Dictionary.insertNew key (canonical v) (canonicalEntries rest)

end

end Value

def Exception.toValue (e : Exception) : Value := .exception e.name e.fields

end QueryShell
