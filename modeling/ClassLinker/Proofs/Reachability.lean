import ClassLinker.Proofs.Resolution

/-!
# Reachability, declaratively

What of a program is needed, told by rules that mention neither tasks nor an order: a `Rule` derives
a `Fact` from others, given the linked classes, the requirements and the entry points. A set of
facts is `Closed` if it holds whatever a rule derives from it, and `Least` holds the facts of every
closed set. The rules describe analyses that add no methods to classes, so that a class without an
implementation of its own uses the default method of an interface directly.
-/

namespace ClassLinker

/-- Something that is found out about a program. -/
inductive Fact where
  /-- Code that can run, or a requirement, demands something of a class. -/
  | asked (cls : ClassName) (demand : Demand)
  /-- The class is used in one of the six ways. -/
  | used (cls : ClassName) (use : Use)
  /-- There are instances of the class or of one below it. -/
  | inhabited (cls : ClassName)
  /-- The method is reachable. It exists and is not abstract. -/
  | reached (method : MethodId)

/-- What the roots of an analysis and the linked classes are. -/
structure Program where
  classes : Lookup
  requirement : Requirement
  entryPoints : List ClassName

/-- The fact follows from others in one step. -/
inductive Rule (program : Program) (facts : Fact → Prop) : Fact → Prop
  | required {task : Task} {demand : Demand} (leaf : task ∈ program.requirement.tasks false)
      (action : task.action = .fulfil demand) : Rule program facts (.asked task.cls demand)
  /-- The static initializer of an entry point runs. -/
  | initializer {name : ClassName} {cls : ClassRecord} {summary : ClassSummary}
      (entry : name ∈ program.entryPoints) (found : program.classes name = some cls)
      (known : cls.summary = some summary) (initializes : summary.initializesStatics = true) :
      Rule program facts (.asked name (.callDirect ⟨.staticConstructor, .classInit⟩))
  /-- The exports of an entry point can be used. -/
  | exported {name other : ClassName} {cls : ClassRecord} {summary : ClassSummary}
      {item : ExportSummary} {demand : Demand}
      (entry : name ∈ program.entryPoints) (found : program.classes name = some cls)
      (known : cls.summary = some summary) (mem : item ∈ summary.exports)
      (demands : (other, demand) ∈ item.demands.toList) : Rule program facts (.asked other demand)
  /-- A reachable method can run. -/
  | body {method : MethodId} {cls : ClassRecord} {summary : ClassSummary} {declared : MethodSummary}
      {other : ClassName} {demand : Demand}
      (premise : facts (.reached method)) (found : program.classes method.owner = some cls)
      (known : cls.summary = some summary)
      (declares : summary.method? method.space method.name = some declared)
      (demands : (other, demand) ∈ declared.demands.toList) :
      Rule program facts (.asked other demand)
  /-- The exported members of a class with instances can be used. -/
  | member {name other : ClassName} {cls : ClassRecord} {summary : ClassSummary} {member : Demands}
      {demand : Demand}
      (premise : facts (.inhabited name)) (found : program.classes name = some cls)
      (known : cls.summary = some summary) (mem : member ∈ summary.exportedMembers)
      (demands : (other, demand) ∈ member.toList) : Rule program facts (.asked other demand)
  /-- Instances have fields, whose types must be known. -/
  | fieldData {name field : ClassName} {cls : ClassRecord} {summary : ClassSummary}
      (premise : facts (.inhabited name)) (found : program.classes name = some cls)
      (known : cls.summary = some summary) (mem : field ∈ summary.fieldClasses) :
      Rule program facts (.asked field (.use .typeData))
  /-- Creating an instance of a JavaScript class runs the constructor of its super class. -/
  | superInstances {name parent : ClassName} {cls : ClassRecord}
      (premise : facts (.used name .instances)) (found : program.classes name = some cls)
      (kind : cls.kind.isDefinedJS = true) (extends_ : cls.superClass = some parent) :
      Rule program facts (.asked parent (.use .instances))
  /-- The instance of a module is created by a constructor without parameters. -/
  | moduleConstructor {name : ClassName} {cls : ClassRecord}
      (premise : facts (.used name .module)) (found : program.classes name = some cls)
      (kind : cls.kind.isOrdinary = true) :
      Rule program facts (.asked name (.callDirect ⟨.constructor, .defaultConstructor⟩))
  /-- Tests, type data and fields are used as soon as they are asked for. -/
  | plainUse {name : ClassName} {cls : ClassRecord} {use : Use}
      (premise : facts (.asked name (.use use))) (found : program.classes name = some cls)
      (present : cls.isPresent = true) (notInstances : use ≠ .instances)
      (notModule : use ≠ .module) :
      Rule program facts (.used name use)
  | instances {name : ClassName} {cls : ClassRecord}
      (premise : facts (.asked name (.use .instances))) (found : program.classes name = some cls)
      (present : cls.isPresent = true) (kind : cls.kind.isInstantiable = true) :
      Rule program facts (.used name .instances)
  | module {name : ClassName} {cls : ClassRecord}
      (premise : facts (.asked name (.use .module))) (found : program.classes name = some cls)
      (present : cls.isPresent = true) (kind : cls.kind.isModule = true) :
      Rule program facts (.used name .module)
  /-- Reading a module creates its instance. -/
  | moduleInstance {name : ClassName} (premise : facts (.used name .module)) :
      Rule program facts (.used name .instances)
  /-- An instance of an ordinary class is one of everything above. -/
  | inhabitedAbove {name ancestor : ClassName} {cls : ClassRecord}
      (premise : facts (.used name .instances)) (found : program.classes name = some cls)
      (kind : cls.kind.isOrdinary = true) (mem : ancestor ∈ cls.ancestors) :
      Rule program facts (.inhabited ancestor)
  | inhabitedJS {name : ClassName} {cls : ClassRecord}
      (premise : facts (.used name .instances)) (found : program.classes name = some cls)
      (kind : cls.kind.isOrdinary = false) : Rule program facts (.inhabited name)
  /-- A call on a class reaches the implementations for all classes below that instances are
  created of. -/
  | dispatched {name below owner : ClassName} {cls record : ClassRecord} {method : MethodName}
      (premise : facts (.asked name (.call method))) (found : program.classes name = some cls)
      (present : cls.isPresent = true) (notJS : cls.kind.isJS = false)
      (created : facts (.used below .instances)) (receiver : program.classes below = some record)
      (kind : record.kind.isOrdinary = true) (mem : name ∈ record.ancestors)
      (implements_ : Implements program.classes below method owner) :
      Rule program facts (.reached ⟨owner, .publicInstance, method⟩)
  /-- A call without dynamic dispatch reaches the implementation for the class itself. -/
  | calledDirect {name owner : ClassName} {cls : ClassRecord} {method : MethodName}
      (premise : facts (.asked name (.callDirect ⟨.publicInstance, method⟩)))
      (found : program.classes name = some cls) (present : cls.isPresent = true)
      (implements_ : Implements program.classes name method owner) :
      Rule program facts (.reached ⟨owner, .publicInstance, method⟩)
  /-- Only public methods are inherited. -/
  | calledOwn {name : ClassName} {cls : ClassRecord} {key : MethodKey} {entry : MethodRecord}
      (premise : facts (.asked name (.callDirect key))) (found : program.classes name = some cls)
      (present : cls.isPresent = true) (own : key.space ≠ .publicInstance)
      (declares : cls.method? key = some entry) (concrete : entry.isConcrete = true) :
      Rule program facts (.reached ⟨name, key.space, key.name⟩)

/-- The facts include everything that the rules derive from them. -/
def Closed (program : Program) (facts : Fact → Prop) : Prop :=
  ∀ fact, Rule program facts fact → facts fact

/-- The fact is in every closed set. -/
def Least (program : Program) (fact : Fact) : Prop :=
  ∀ facts, Closed program facts → facts fact

variable {program : Program} {facts others : Fact → Prop} {fact : Fact}

/-- More facts give rise to more. -/
theorem Rule.mono (sub : ∀ fact, facts fact → others fact) (rule : Rule program facts fact) :
    Rule program others fact := by
  cases rule with
  | required leaf action => exact .required leaf action
  | initializer entry found known initializes => exact .initializer entry found known initializes
  | exported entry found known mem demands => exact .exported entry found known mem demands
  | body premise found known declares demands =>
    exact .body (sub _ premise) found known declares demands
  | member premise found known mem demands => exact .member (sub _ premise) found known mem demands
  | fieldData premise found known mem => exact .fieldData (sub _ premise) found known mem
  | superInstances premise found kind extends_ =>
    exact .superInstances (sub _ premise) found kind extends_
  | moduleConstructor premise found kind => exact .moduleConstructor (sub _ premise) found kind
  | plainUse premise found present notInstances notModule =>
    exact .plainUse (sub _ premise) found present notInstances notModule
  | instances premise found present kind => exact .instances (sub _ premise) found present kind
  | module premise found present kind => exact .module (sub _ premise) found present kind
  | moduleInstance premise => exact .moduleInstance (sub _ premise)
  | inhabitedAbove premise found kind mem => exact .inhabitedAbove (sub _ premise) found kind mem
  | inhabitedJS premise found kind => exact .inhabitedJS (sub _ premise) found kind
  | dispatched premise found present notJS created receiver kind mem implements_ =>
    exact .dispatched (sub _ premise) found present notJS (sub _ created) receiver kind mem
      implements_
  | calledDirect premise found present implements_ =>
    exact .calledDirect (sub _ premise) found present implements_
  | calledOwn premise found present own declares concrete =>
    exact .calledOwn (sub _ premise) found present own declares concrete

/-- The facts common to all closed sets are closed. -/
theorem closed_least (program : Program) : Closed program (Least program) :=
  fun _ rule facts closed => closed _ (rule.mono fun _ least => least facts closed)

/-- All facts together are closed. -/
theorem closed_true (program : Program) : Closed program fun _ => True :=
  fun _ _ => trivial

end ClassLinker
