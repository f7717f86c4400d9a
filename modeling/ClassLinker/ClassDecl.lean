import ClassLinker.ClassKind
import ClassLinker.Expr
import ClassLinker.MethodName

/-!
# Class declarations

A class as it is written: its parents, fields and methods with their bodies, and what it exports.

* `MethodDecl.ofName` makes a method whose parameters and result type are those that its name
  encodes;
* `ClassDecl.method?` finds a method, the first one if the class lists several of that name;
* `ClassDecl.isEntryPoint` tells which classes are analyzed even if nothing refers to them.
-/

namespace ClassLinker

/-- A parameter of a method. -/
structure Param where
  name : LocalName
  type : Ty
deriving DecidableEq, Inhabited

/-- A method. It is abstract if it has no body. -/
structure MethodDecl where
  space : Namespace
  name : MethodName
  params : List Param
  result : Ty
  body : Option Expr
  version : Option Version := none
deriving Inhabited

namespace MethodDecl

/-- Tells whether a method has no body. -/
def isAbstract (method : MethodDecl) : Bool :=
  method.body.isNone

/-- The method that a name describes. Its parameters are called `x0`, `x1` and so on. -/
def ofName (space : Namespace) (name : MethodName) (body : Option Expr) : MethodDecl where
  space := space
  name := name
  params := name.signature.1.mapIdx fun i type => ⟨⟨"x" ++ toString i⟩, type⟩
  result := name.signature.2
  body := body

end MethodDecl

/-- A field with an encoded name. In a type of JavaScript, the fields that are not static are its
private fields. -/
structure NamedField where
  name : FieldName
  type : Ty
  isStatic : Bool
  isMutable : Bool
deriving DecidableEq, Inhabited

/-- A field: one with an encoded name, or a public JavaScript field whose name is computed. -/
inductive FieldDecl where
  | named (field : NamedField)
  | computed (name : Expr) (type : Ty)

/-- The constructor of a JavaScript class. -/
structure JSConstructor where
  params : List Param
  body : Expr

/-- The two kinds of members exported to JavaScript. -/
inductive MemberKind where
  | method
  | property
deriving DecidableEq

/-- A member exported to JavaScript on the instances of a class. -/
structure ExportedMember where
  name : String
  kind : MemberKind
  params : List Param
  body : Expr

/-- What stands behind a name exported by the linked program: the instance of the module class
itself, the constructor of the JavaScript class itself, a function, or a static field of the
class. -/
inductive ExportTarget where
  | module
  | jsClass
  | function (params : List Param) (body : Expr)
  | field (name : FieldName)

/-- A name exported by the linked program. -/
structure Export where
  name : String
  target : ExportTarget

/-- A class. -/
structure ClassDecl where
  name : ClassName
  kind : ClassKind
  superClass : Option ClassName
  interfaces : List ClassName
  fields : List FieldDecl
  methods : List MethodDecl
  jsConstructor : Option JSConstructor
  exportedMembers : List ExportedMember
  exports : List Export

namespace ClassDecl

/-- The first method of the given namespace and name. -/
def method? (cls : ClassDecl) (space : Namespace) (name : MethodName) : Option MethodDecl :=
  cls.methods.find? fun method => method.space = space ∧ method.name = name

/-- A method that is found is listed, under its namespace and name. -/
theorem mem_of_method? {cls : ClassDecl} {space : Namespace} {name : MethodName}
    {method : MethodDecl} (has : cls.method? space name = some method) :
    method ∈ cls.methods ∧ method.space = space ∧ method.name = name :=
  ⟨List.mem_of_find?_eq_some has, by simpa using List.find?_some has⟩

/-- Tells whether the class initializes its static state. -/
def initializesStatics (cls : ClassDecl) : Bool :=
  cls.methods.any fun method => method.space = .staticConstructor ∧ method.name.isClassInit

/-- Tells whether the class is analyzed even if nothing refers to it. -/
def isEntryPoint (cls : ClassDecl) : Bool :=
  cls.initializesStatics || !cls.exports.isEmpty

end ClassDecl

end ClassLinker
