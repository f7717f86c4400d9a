import ClassLinker.Order

/-!
# Names

The encoded names of classes, members, local variables and versions: texts that are never taken
for one another. Names of classes and methods are ordered by their text, code point by code
point, and serve as keys of ordered maps.

* `ClassName.object` is the root of every class hierarchy;
* `MethodName.defaultConstructor` and `MethodName.classInit` are the reserved method names.

How a method name encodes a signature is told in `ClassLinker.MethodName`.
-/

namespace ClassLinker

/-- The encoded name of a class. -/
structure ClassName where
  text : String
deriving DecidableEq, Inhabited

/-- The encoded name of a method, which embeds its signature. -/
structure MethodName where
  text : String
deriving DecidableEq, Inhabited

/-- The encoded name of a field. -/
structure FieldName where
  text : String
deriving DecidableEq, Inhabited

/-- The name of a local variable or of a parameter. -/
structure LocalName where
  text : String
deriving DecidableEq, Inhabited

/-- A token for the content of a class or a method: equal versions mean equal content. -/
structure Version where
  text : String
deriving DecidableEq, Inhabited

namespace ClassName

/-- The class that all ordinary classes inherit from. -/
def object : ClassName := ⟨"O"⟩

/-- The class of strings. -/
def string : ClassName := ⟨"T"⟩

/-- Class names are ordered by their text. -/
instance : Ord ClassName := ⟨compareOn text⟩

instance : Std.TransOrd ClassName := inferInstanceAs (Std.TransCmp (compareOn text))

instance : Std.LawfulEqOrd ClassName := lawfulEqCmp_compareOn text fun ⟨_⟩ ⟨_⟩ => congrArg mk

end ClassName

namespace MethodName

/-- What the names of constructors start with. -/
def constructorHead : String := "init___"

/-- The constructor without parameters. -/
def defaultConstructor : MethodName := ⟨constructorHead⟩

/-- The method that initializes the static state of a class. -/
def classInit : MethodName := ⟨"clinit___"⟩

/-- Method names are ordered by their text. -/
instance : Ord MethodName := ⟨compareOn text⟩

instance : Std.TransOrd MethodName := inferInstanceAs (Std.TransCmp (compareOn text))

instance : Std.LawfulEqOrd MethodName := lawfulEqCmp_compareOn text fun ⟨_⟩ ⟨_⟩ => congrArg mk

end MethodName

end ClassLinker
