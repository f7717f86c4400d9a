import ClassLinker.Names

/-!
# Types

The types that appear in signatures, and their encoded text: `V` is void, one of the eight codes
`Z C B S I J F D` alone is a primitive type, `[` in front of a type is an array of it, and any
other text is the name of a class. An array of void has no encoded form that can be read back,
and neither has a class whose name reads as something else.

* `Ty.encode` writes a type and `Ty.decode?` reads one;
* `Ty.base` and `Ty.depth` take an array type apart, `Ty.addDims` builds one;
* `Ty.display` is the form for messages, with the brackets behind the base.
-/

namespace ClassLinker

/-- The primitive types, in their order. -/
inductive Primitive where
  | boolean
  | char
  | byte
  | short
  | int
  | long
  | float
  | double
deriving DecidableEq, Ord

namespace Primitive

/-- The one-letter code of a primitive type. -/
def code : Primitive → Char
  | boolean => 'Z'
  | char => 'C'
  | byte => 'B'
  | short => 'S'
  | int => 'I'
  | long => 'J'
  | float => 'F'
  | double => 'D'

/-- The primitive type with a given code. -/
def ofCode? : Char → Option Primitive
  | 'Z' => some boolean
  | 'C' => some char
  | 'B' => some byte
  | 'S' => some short
  | 'I' => some int
  | 'J' => some long
  | 'F' => some float
  | 'D' => some double
  | _ => none

theorem ofCode?_code (p : Primitive) : ofCode? p.code = some p := by cases p <;> rfl

end Primitive

/-- A type: void, primitive, the name of a class, or an array. Types are ordered in this way too,
arrays by their elements. -/
inductive Ty where
  | void
  | primitive (type : Primitive)
  | named (name : ClassName)
  | array (elem : Ty)
deriving DecidableEq, Ord, Inhabited

namespace Ty

/-- The encoded text of a type. -/
def encode : Ty → String
  | void => "V"
  | primitive p => String.singleton p.code
  | named name => name.text
  | array elem => "[" ++ elem.encode

/-- The text of a type in messages. -/
def display : Ty → String
  | void => "void"
  | primitive p => String.singleton p.code
  | named name => name.text
  | array elem => elem.display ++ "[]"

/-- Reads an encoded type from its characters. -/
def ofChars? : List Char → Option Ty
  | [] => none
  | '[' :: rest =>
    match ofChars? rest with
    | some void => none
    | elem? => elem?.map array
  | ['V'] => some void
  | [c] => some ((Primitive.ofCode? c).elim (named ⟨String.singleton c⟩) primitive)
  | cs => some (named ⟨String.ofList cs⟩)

/-- Reads an encoded type. -/
def decode? (encoded : String) : Option Ty :=
  ofChars? encoded.toList

/-- The type below all array dimensions. -/
def base : Ty → Ty
  | array elem => elem.base
  | type => type

/-- The number of array dimensions. -/
def depth : Ty → Nat
  | array elem => elem.depth + 1
  | _ => 0

/-- The class below all array dimensions, if the base is a class. -/
def baseName? (type : Ty) : Option ClassName :=
  match type.base with
  | named name => some name
  | _ => none

/-- The array type with the given number of further dimensions. -/
def addDims (type : Ty) : Nat → Ty
  | 0 => type
  | dims + 1 => array (type.addDims dims)

/-- The type of all objects. -/
def object : Ty := named ClassName.object

@[simp] theorem base_addDims (type : Ty) (dims : Nat) : (type.addDims dims).base = type.base := by
  induction dims with
  | zero => rfl
  | succ dims ih => exact ih

@[simp] theorem depth_addDims (type : Ty) (dims : Nat) :
    (type.addDims dims).depth = type.depth + dims := by
  induction dims with
  | zero => rfl
  | succ dims ih => simp [addDims, depth, ih, Nat.add_assoc]

end Ty

end ClassLinker
