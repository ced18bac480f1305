import PlainScript.Table
import PlainScript.Number.Rounded

/-! Values of JSON documents. A question that a value has no answer to is answered as if it had been
asked of `null`. -/
namespace PlainScript.Json

inductive Value
  | null
  | bool (b : Bool)
  | number (x : Float)
  | string (t : Text)
  | array (items : List Value)
  | object (fields : Table Value)

namespace Value

def ofInt (n : Int) : Value := number (Float.ofInt n)

def typeName : Value → Text
  | null => "null"
  | bool _ => "bool"
  | number _ => "number"
  | string _ => "string"
  | array _ => "array"
  | object _ => "object"

def isNull : Value → Bool
  | null => true
  | _ => false

def asBool (default : Bool) : Value → Bool
  | bool b => b
  | _ => default

def asDouble (default : Float) : Value → Float
  | number x => x
  | _ => default

def asString (default : Text) : Value → Text
  | string t => t
  | _ => default

/-- The integer part of a double; one that has no 32 bits for it is the least integer of 32 bits. -/
def truncate (x : Float) : Int :=
  if -2147483649.0 < x && x < 2147483648.0 then
    let m := Magnitude.ofFloat x
    let n : Int := m.numerator / m.denominator
    if Rounded.isNegative x then -n else n
  else -2147483648

def asInt (default : Int) : Value → Int
  | number x => truncate x
  | _ => default

/-- How many items or fields a value has. -/
def size : Value → Nat
  | array items => items.length
  | object fields => fields.size
  | _ => 0

def field? (key : Text) : Value → Option Value
  | object fields => fields.get? key
  | _ => none

def has (v : Value) (key : Text) : Bool := (v.field? key).isSome

def field (v : Value) (key : Text) : Value := (v.field? key).getD null

def item (v : Value) (index : Nat) : Value :=
  match v with
  | array items => items.getD index null
  | _ => null

/-- Follows the names of a path, which are separated by dots. -/
def get (v : Value) (path : Text) : Value := (path.splitOnByte '.').foldl field v

example : truncate (-2.7) = -2 := by decide +kernel
example : truncate 3e9 = -2147483648 := by decide +kernel

end Value

end PlainScript.Json
