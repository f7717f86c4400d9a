import ClassLinker.ClassDecl
import ClassLinker.Demand

/-!
# Class summaries

What the analysis knows of a class before it is linked: its shape, and what its code demands, but
no code. `ClassDecl.summary` reads the summary off a declaration:

* a method demands what its body demands, an abstract one nothing;
* the demands of the JavaScript constructor and of each exported member, which come with instances
  of the class, are kept apart from one another;
* an exported member also demands the type data of its parameter types;
* an export demands what its target stands for: the instance of the module, instances of the
  JavaScript class, what the function demands, or the static fields.
-/

namespace ClassLinker

/-- The summary of a method. -/
structure MethodSummary where
  space : Namespace
  name : MethodName
  isAbstract : Bool
  demands : Demands
deriving DecidableEq, Inhabited

/-- The summary of an export. -/
structure ExportSummary where
  name : String
  demands : Demands
deriving DecidableEq, Inhabited

/-- The summary of a class. -/
structure ClassSummary where
  name : ClassName
  kind : ClassKind
  superClass : Option ClassName
  interfaces : List ClassName
  /-- The fields with encoded names. -/
  fields : List NamedField
  /-- The classes in the types of the fields that instances have, in order of first sight. -/
  fieldClasses : List ClassName
  methods : List MethodSummary
  /-- What is demanded as soon as there are instances. -/
  exportedMembers : List Demands
  exports : List ExportSummary
deriving DecidableEq, Inhabited

namespace ClassSummary

/-- The first method of the given namespace and name. -/
def method? (cls : ClassSummary) (space : Namespace) (name : MethodName) :
    Option MethodSummary :=
  cls.methods.find? fun method => method.space = space ∧ method.name = name

/-- A method that is found is listed, under its namespace and name. -/
theorem mem_of_method? {cls : ClassSummary} {space : Namespace} {name : MethodName}
    {method : MethodSummary} (has : cls.method? space name = some method) :
    method ∈ cls.methods ∧ method.space = space ∧ method.name = name :=
  ⟨List.mem_of_find?_eq_some has, by simpa using List.find?_some has⟩

/-- Tells whether the class initializes its static state. -/
def initializesStatics (cls : ClassSummary) : Bool :=
  (cls.method? .staticConstructor .classInit).isSome

/-- The classes that a class names as its parents: the super class, then the interfaces. -/
def parents (cls : ClassSummary) : List ClassName :=
  cls.superClass.toList ++ cls.interfaces

/-- What the code of a class demands: each method, exported member and export by itself. -/
def allDemands (cls : ClassSummary) : List Demands :=
  cls.methods.map MethodSummary.demands ++ cls.exportedMembers ++
    cls.exports.map ExportSummary.demands

end ClassSummary

namespace FieldDecl

/-- The field itself, if its name is encoded. -/
def named? : FieldDecl → Option NamedField
  | named field => some field
  | computed _ _ => none

/-- The class in the type of a field that instances have. -/
def instanceClass? : FieldDecl → Option ClassName
  | named field => if field.isStatic then none else field.type.baseName?
  | computed _ type => type.baseName?

end FieldDecl

/-- The summary of a method. -/
def MethodDecl.summary (method : MethodDecl) : MethodSummary where
  space := method.space
  name := method.name
  isAbstract := method.isAbstract
  demands := (method.body.map Expr.demands).getD ∅

/-- What an exported member demands. -/
def ExportedMember.demands (member : ExportedMember) : Demands :=
  member.body.demands.recordAll (member.params.flatMap fun param => param.type.dataDemands)

/-- What the target of an export of a class demands. -/
def ExportTarget.demands (target : ExportTarget) (cls : ClassName) : Demands :=
  match target with
  | .module => (∅ : Demands).record cls (.use .module)
  | .jsClass => (∅ : Demands).record cls (.use .instances)
  | .function _ body => body.demands
  | .field _ => (∅ : Demands).record cls (.use .staticFields)

/-- The summary of a class. -/
def ClassDecl.summary (cls : ClassDecl) : ClassSummary where
  name := cls.name
  kind := cls.kind
  superClass := cls.superClass
  interfaces := cls.interfaces
  fields := cls.fields.filterMap FieldDecl.named?
  fieldClasses := (cls.fields.filterMap FieldDecl.instanceClass?).eraseDups
  methods := cls.methods.map MethodDecl.summary
  exportedMembers :=
    cls.jsConstructor.toList.map (fun ctor => ctor.body.demands) ++
      cls.exportedMembers.map ExportedMember.demands
  exports := cls.exports.map fun item => ⟨item.name, item.target.demands cls.name⟩

end ClassLinker
