import ClassLinker.Separator
import ClassLinker.Ty

/-!
# Signatures in method names

A method name reads `simple__P1__P2__R`: a simple name, the encoded types of the parameters and
the encoded type of the result. Three forms have no result part:

* a constructor is `init___` followed by its parameter types;
* the static initializer of a class is `clinit___`;
* a reflective proxy ends in `__`, and stands for every method that its name continues to with a
  result type.

`MethodName.signature` reads the parameters and the result from the left and skips parts that are
empty or encode no type; `MethodName.encodedResult?` reads what stands behind the last separator;
`MethodName.proxyName?` is the name of the proxy through which a method can be called.
-/

namespace ClassLinker.MethodName

/-- The characters of a name. -/
def chars (name : MethodName) : List Char :=
  name.text.toList

/-- Tells whether a method is a constructor. -/
def isConstructor (name : MethodName) : Bool :=
  constructorHead.toList.isPrefixOf name.chars

/-- Tells whether a method is the static initializer of its class. -/
def isClassInit (name : MethodName) : Bool :=
  name = classInit

/-- Tells whether a method is a reflective proxy. -/
def isProxy (name : MethodName) : Bool :=
  Separator.text.toList.isSuffixOf name.chars && !name.isConstructor && !name.isClassInit

/-- Tells whether a name is to end in a result type. -/
def encodesResult (name : MethodName) : Bool :=
  !name.isConstructor && !name.isClassInit && !name.isProxy

/-- The type encoded behind the last separator of a name that is to end in a result type. -/
def encodedResult? (name : MethodName) : Option Ty :=
  if name.encodesResult then
    (Separator.splitLast name.chars).bind fun parts => Ty.ofChars? parts.2
  else none

/-- The types encoded in the pieces of a text, without the pieces that encode none. -/
def typesIn (cs : List Char) : List Ty :=
  (Separator.pieces cs).filterMap Ty.ofChars?

/-- The types encoded behind the simple name. -/
def encodedTypes (name : MethodName) : List Ty :=
  match Separator.afterFirst name.chars with
  | some rest => typesIn rest
  | none => []

/-- The parameter types and the result type that a name encodes. -/
def signature (name : MethodName) : List Ty × Ty :=
  if name.isClassInit then ([], .void)
  else if name.isConstructor then (typesIn (name.chars.drop constructorHead.length), .void)
  else if name.isProxy then (name.encodedTypes, .object)
  else (name.encodedTypes.dropLast, name.encodedTypes.getLast?.getD .void)

/-- The reflective proxy of a method: its name up to the last separator. -/
def proxyName? (name : MethodName) : Option MethodName :=
  if name.encodesResult then
    (Separator.splitLast name.chars).map fun parts =>
      ⟨String.ofList (parts.1 ++ Separator.text.toList)⟩
  else none

/-- Tells whether a method can be called through a reflective proxy. -/
def matchesProxy (name proxy : MethodName) : Bool :=
  name.proxyName? = some proxy

end ClassLinker.MethodName
