import ClassLinker.Analysis.Record
import ClassLinker.Source

/-!
# What a linked program keeps of a class

`KeptClass.ofRecord` keeps of a class what is reachable:

* the reachable methods that the class declares, followed by those made for the analysis;
* its fields, if they are used: static fields by themselves, private fields of JavaScript types
  together, all others if there are instances;
* its exported members and its JavaScript constructor, if there are instances;
* a module that is never read becomes a class of the kind without an accessor.

Every reachable method must have a body.
-/

namespace ClassLinker

/-- A class of a linked program. -/
structure KeptClass where
  name : ClassName
  kind : ClassKind
  superClass : Option ClassName
  interfaces : List ClassName
  fields : List FieldDecl
  methods : List MethodDecl
  jsConstructor : Option JSConstructor
  exportedMembers : List ExportedMember
  exports : List Export
  /-- Instances of the class or of a class below it are created. -/
  hasInstances : Bool
  /-- Values are tested for being instances of the class. -/
  isTested : Bool
  /-- The run-time type data of the class is needed. -/
  hasTypeData : Bool
  ancestors : List ClassName
  version : Option Version

namespace ClassRecord

/-- Tells whether a reachable method has a body: in the declaration of the class or, if it is a
bridge or a proxy, among the methods made. -/
def hasBody (decl : ClassDecl) (made : List MethodDecl) (method : MethodRecord) : Bool :=
  if method.forwarder.isSome then
    made.any fun candidate =>
      candidate.space = method.id.space && candidate.name = method.id.name
  else
    (decl.method? method.id.space method.id.name).any fun declared => !declared.isAbstract

/-- Tells whether a field is kept. -/
def keepsField (cls : ClassRecord) : FieldDecl → Bool
  | .named field =>
    if field.isStatic then cls.uses.staticFields
    else if cls.kind.isJS then cls.uses.privateFields
    else cls.hasInstances
  | .computed _ _ => cls.hasInstances

/-- Tells whether a declared method is kept. -/
def keepsMethod (cls : ClassRecord) (method : MethodDecl) : Bool :=
  (cls.method? ⟨method.space, method.name⟩).any fun entry =>
    entry.isReached && entry.forwarder.isNone

/-- The kind of the class in the linked program. -/
def linkedKind (cls : ClassRecord) : ClassKind :=
  if cls.kind.hasAccessor && !cls.uses.module then cls.kind.withoutAccessor
  else cls.kind

end ClassRecord

/-- What is kept of a class, given its declaration and the methods made for it, or the first
reachable method without a body. -/
def KeptClass.ofRecord (cls : ClassRecord) (entry : VersionedDecl) (made : List MethodDecl) :
    Except MethodId KeptClass :=
  match cls.reached.find? fun method => !ClassRecord.hasBody entry.decl made method with
  | some method => .error method.id
  | none => .ok {
      name := cls.name
      kind := cls.linkedKind
      superClass := cls.superClass
      interfaces := cls.interfaces
      fields := entry.decl.fields.filter cls.keepsField
      methods := entry.decl.methods.filter cls.keepsMethod ++ made
      jsConstructor := if cls.hasInstances then entry.decl.jsConstructor else none
      exportedMembers := if cls.hasInstances then entry.decl.exportedMembers else []
      exports := entry.decl.exports
      hasInstances := cls.hasInstances
      isTested := cls.uses.tests
      hasTypeData := cls.uses.typeData
      ancestors := cls.ancestors
      version := entry.version }

end ClassLinker
