import TagScript.Diagnostic
import TagScript.Machine.Store

/-! Why a program cannot go on, and the words for it. -/
namespace TagScript

inductive RuntimeError
  /-- A variable is read as a whole before it has a value. -/
  | undefined (name : String)
  /-- An element of a variable is used before the variable has a value. -/
  | undefinedVector (name : String)
  | notVector (type : ValueType) (name : String)
  | outOfRange (position : Nat) (name : String) (length : Nat)
  | negativeIndex (index : Int64)
  | notNumber (type : ValueType)
  | notCondition (type : ValueType)
  | overflow (left : Int64) (op : BinaryOp) (right : Int64)
  | divisionByZero
  | notExchangeable (type : ValueType) (name : String)
  | undeclaredTag (tag : String)
  | emptyTag (tag : String)
  | tooDeep (tag : String) (limit : Nat)
deriving DecidableEq, Repr

namespace RuntimeError

def message : RuntimeError → String
  | undefined name | undefinedVector name => "Undefined variable '" ++ name ++ "'"
  | notVector type name => "Cannot index " ++ type.name ++ " '" ++ name ++ "'"
  | outOfRange position name length =>
    "Index " ++ Decimal.ofNat position ++ " out of range for vector '" ++ name ++
      "' of length " ++ Decimal.ofNat length
  | negativeIndex index => "Vector index must not be negative, got " ++ Integer.text index
  | notNumber type => "Expected a number, got " ++ type.name
  | notCondition type => "Condition must be a boolean, got " ++ type.name
  | overflow left op right =>
    "Integer overflow in " ++ Integer.text left ++ " " ++ op.symbol ++ " " ++ Integer.text right
  | divisionByZero => "Division by zero"
  | notExchangeable type name =>
    "Cannot swap " ++ type.name ++ " '" ++ name ++ "' with a vector element"
  | undeclaredTag tag => "Undeclared tag '@" ++ tag ++ "'"
  | emptyTag tag => "Tag '@" ++ tag ++ "' has no body"
  | tooDeep tag limit =>
    "Tag '@" ++ tag ++ "' nested deeper than " ++ Decimal.ofNat limit ++ " levels"

def help : RuntimeError → Option String
  | undefined name =>
    some ("Assign '" ++ name ++ "' before reading it, e.g. '" ++ name ++ " = 0'.")
  | notNumber _ => some "Index a vector to use one of its elements: v[0]"
  | notExchangeable _ _ =>
    some "Vector elements are integers and can only be exchanged with numbers."
  | emptyTag tag =>
    some ("Declare a body for it somewhere in the program, e.g. '@" ++ tag ++ " x = x + 1'.")
  | tooDeep _ _ => some "A tag that invokes itself never terminates; use WHILE for repetition."
  | undefinedVector _ | notVector _ _ | outOfRange _ _ _ | negativeIndex _ | notCondition _
  | overflow _ _ _ | divisionByZero | undeclaredTag _ => none

end RuntimeError

def Fault.runtime (f : Fault RuntimeError) : Diagnostic :=
  ⟨.running, f.span, f.cause.message, f.cause.help⟩

abbrev Checked := Except (Fault RuntimeError)

end TagScript
