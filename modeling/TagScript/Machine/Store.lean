import Std.Data.ExtTreeMap
import TagScript.Numeral.Shortest
import TagScript.Syntax.Canonical

/-! What a program works on: values, the table of its variables and the table
of its tags. Both tables are sorted by name. -/
namespace TagScript

inductive Value
  | integer (n : Int64)
  /-- Only division makes these. -/
  | real (x : Binary64)
  | boolean (b : Bool)
  | vector (elements : List Int64)
deriving DecidableEq, Repr

inductive ValueType
  | integer
  | real
  | boolean
  | vector
deriving DecidableEq, Repr

def ValueType.name : ValueType → String
  | integer => "integer"
  | real => "real"
  | boolean => "boolean"
  | vector => "vector"

namespace Value

def type : Value → ValueType
  | integer _ => .integer
  | real _ => .real
  | boolean _ => .boolean
  | vector _ => .vector

/-- The integer that operators, indices and elements see. A vector has none. -/
def toInteger? : Value → Option Int64
  | integer n => some n
  | real x => some x.truncate
  | boolean b => some (if b then 1 else 0)
  | vector _ => none

def toCondition? : Value → Option Bool
  | boolean b => some b
  | integer n => some (n != 0)
  | real x => some !x.isZero
  | vector _ => none

def listText : List Int64 → String
  | [] => ""
  | [n] => Integer.text n
  | n :: rest => Integer.text n ++ ", " ++ listText rest

def text : Value → String
  | integer n => Integer.text n
  | real x => x.text
  | boolean true => "TRUE"
  | boolean false => "FALSE"
  | vector elements => "[" ++ listText elements ++ "]"

end Value

/-- The variables that have been assigned. None is ever removed. -/
abbrev SymbolTable := Std.ExtTreeMap String Value

namespace SymbolTable

def assign (σ : SymbolTable) (name : String) (value : Value) : SymbolTable :=
  σ.insert name value

def setElement (σ : SymbolTable) (name : String) (position : Nat) (n : Int64) : SymbolTable :=
  match σ[name]? with
  | some (.vector elements) => σ.assign name (.vector (elements.set position n))
  | _ => σ

def replace? (σ : SymbolTable) (name : String) (value : Value) : Option SymbolTable :=
  if σ.contains name then some (σ.assign name value) else none

end SymbolTable

/-- The tags that have been mentioned, each with its body if it has one. -/
abbrev TagTable := Std.ExtTreeMap String (Option Stmt)

namespace TagTable

/-- Notes a tag. A body that it has stays. -/
def declare (τ : TagTable) (tag : String) : TagTable :=
  τ.insertIfNew tag none

def bind (τ : TagTable) (tag : String) (body : Stmt) : TagTable :=
  τ.insert tag (some body)

end TagTable

end TagScript
