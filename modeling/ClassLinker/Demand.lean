import ClassLinker.Expr
import ClassLinker.FirstSeen
import ClassLinker.MethodId
import Std.Data.ExtTreeMap

/-!
# What code demands of classes

A node of an expression can demand something of a class: that it is used in one of six ways, that a
method is called on it with dynamic dispatch, or that one of its methods is called without.

* `Expr.ownDemands` are the demands of a single node;
* `ClassDemands` collects the demands on one class and `Demands` those on all classes, each demand
  once and the calls in order of first sight;
* `Demands.addExpr` adds the demands of all nodes of an expression, and `Expr.demands` holds
  nothing else.
-/

namespace ClassLinker

/-- The ways of using a class other than calling its methods, in their order. -/
inductive Use where
  /-- Creates instances of the class. -/
  | instances
  /-- Reads the instance of the module. -/
  | module
  /-- Tests whether values are instances of the class. -/
  | tests
  /-- Needs the run-time type data of the class. -/
  | typeData
  /-- Reads or writes a static field of the class. -/
  | staticFields
  /-- Reads or writes a private field of the JavaScript class. -/
  | privateFields
deriving DecidableEq

/-- All ways of using a class, in order. -/
def Use.all : List Use :=
  [instances, module, tests, typeData, staticFields, privateFields]

/-- A set of ways of using a class. -/
structure Uses where
  instances : Bool := false
  module : Bool := false
  tests : Bool := false
  typeData : Bool := false
  staticFields : Bool := false
  privateFields : Bool := false
deriving DecidableEq, Inhabited

namespace Uses

/-- Tells whether a way of using a class is in the set. -/
def contains (uses : Uses) : Use → Bool
  | .instances => uses.instances
  | .module => uses.module
  | .tests => uses.tests
  | .typeData => uses.typeData
  | .staticFields => uses.staticFields
  | .privateFields => uses.privateFields

/-- The set with one more way. -/
def insert (uses : Uses) : Use → Uses
  | .instances => { uses with instances := true }
  | .module => { uses with module := true }
  | .tests => { uses with tests := true }
  | .typeData => { uses with typeData := true }
  | .staticFields => { uses with staticFields := true }
  | .privateFields => { uses with privateFields := true }

/-- The members of the set, in order. -/
def toList (uses : Uses) : List Use :=
  Use.all.filter uses.contains

@[simp] theorem contains_insert (uses : Uses) (added use : Use) :
    (uses.insert added).contains use = (decide (use = added) || uses.contains use) := by
  cases added <;> cases use <;> rfl

@[simp] theorem mem_toList {uses : Uses} {use : Use} :
    use ∈ uses.toList ↔ uses.contains use = true := by
  simp only [toList, List.mem_filter, and_iff_right_iff_imp]
  intro _; cases use <;> decide

theorem ext_contains {uses others : Uses}
    (h : ∀ use, uses.contains use = others.contains use) : uses = others := by
  cases uses; cases others
  simp only [mk.injEq]
  exact ⟨h .instances, h .module, h .tests, h .typeData, h .staticFields, h .privateFields⟩

end Uses

/-- Something that code demands of a class. -/
inductive Demand where
  | use (use : Use)
  /-- A call with dynamic dispatch on receivers of the class. -/
  | call (method : MethodName)
  /-- A call of a method of the class without dynamic dispatch. -/
  | callDirect (method : MethodKey)
deriving DecidableEq

/-- The demands of creating an instance with a constructor. -/
def Demand.newInstance (ctor : MethodName) : List Demand :=
  [.use .instances, .callDirect ⟨.constructor, ctor⟩]

/-- All that code demands of one class. -/
structure ClassDemands where
  uses : Uses := {}
  calls : List MethodName := []
  directCalls : List MethodKey := []
deriving DecidableEq, Inhabited

namespace ClassDemands

/-- The demands with one more. -/
def record (demands : ClassDemands) : Demand → ClassDemands
  | .use use => { demands with uses := demands.uses.insert use }
  | .call method => { demands with calls := recordOnce demands.calls method }
  | .callDirect method =>
    { demands with directCalls := recordOnce demands.directCalls method }

/-- The demands one by one: the ways of use in order, the dispatched calls, the direct calls. -/
def toList (demands : ClassDemands) : List Demand :=
  demands.uses.toList.map .use ++ demands.calls.map .call ++
    demands.directCalls.map .callDirect

/-- The demands after one more has been recorded are that one and those before. -/
theorem mem_toList_record {demands : ClassDemands} {added demand : Demand} :
    demand ∈ (demands.record added).toList ↔ demand = added ∨ demand ∈ demands.toList := by
  cases added <;> cases demand <;> simp [record, toList, or_comm]

end ClassDemands

namespace Ty

/-- What an instance test or a cast demands: tests against a class need the class, tests against
arrays of it only its type data. -/
def testDemands (type : Ty) : List (ClassName × Demand) :=
  match type.baseName? with
  | none => []
  | some cls => [(cls, .use (if type.depth = 0 then .tests else .typeData))]

/-- What it takes to name a type at run time. -/
def dataDemands (type : Ty) : List (ClassName × Demand) :=
  match type.baseName? with
  | none => []
  | some cls => [(cls, .use .typeData)]

end Ty

/-- What a node demands of classes, its operands left aside. -/
def Expr.ownDemands : Expr → List (ClassName × Demand)
  | .new cls ctor _ => (Demand.newInstance ctor).map (cls, ·)
  | .module cls | .jsModule cls => [(cls, .use .module)]
  | .staticField cls _ => [(cls, .use .staticFields)]
  | .privateJSField cls _ _ => [(cls, .use .privateFields)]
  | .call cls _ method _ => [(cls, .call method)]
  | .callDirect cls space _ method _ | .callStatic cls space method _ =>
    [(cls, .callDirect ⟨space, method⟩)]
  | .isInstance _ type | .cast _ type => type.testDemands
  | .classOf type | .newArray type _ => type.dataDemands
  | .jsConstructor cls => [(cls, .use .instances)]
  | _ => []

/-- All that code demands, by class. -/
structure Demands where
  byClass : Std.ExtTreeMap ClassName ClassDemands := ∅
deriving DecidableEq

namespace Demands

instance : EmptyCollection Demands := ⟨{}⟩

instance : Inhabited Demands := ⟨∅⟩

/-- Tells whether nothing is demanded. -/
def isEmpty (demands : Demands) : Bool :=
  demands.byClass.isEmpty

/-- The demands on one class. -/
def on (demands : Demands) (cls : ClassName) : ClassDemands :=
  demands.byClass.getD cls {}

/-- The demands with one more on a class. -/
def record (demands : Demands) (cls : ClassName) (demand : Demand) : Demands :=
  ⟨demands.byClass.insert cls ((demands.on cls).record demand)⟩

/-- The demands with more of them, recorded in turn. -/
def recordAll (demands : Demands) (more : List (ClassName × Demand)) : Demands :=
  more.foldl (fun demands demand => demands.record demand.1 demand.2) demands

/-- The demands with those of all nodes of an expression. -/
def addExpr (demands : Demands) (expr : Expr) : Demands :=
  demands.recordAll (expr.nodes.flatMap Expr.ownDemands)

/-- The demands one by one, class by class in name order. -/
def toList (demands : Demands) : List (ClassName × Demand) :=
  demands.byClass.toList.flatMap fun entry => entry.2.toList.map (entry.1, ·)

@[simp] theorem on_record (demands : Demands) (cls other : ClassName) (demand : Demand) :
    (demands.record cls demand).on other =
      if cls = other then (demands.on cls).record demand else demands.on other := by
  simp [record, on, Std.ExtTreeMap.getD_insert]

@[simp] theorem recordAll_append (demands : Demands) (first second : List (ClassName × Demand)) :
    demands.recordAll (first ++ second) = (demands.recordAll first).recordAll second :=
  List.foldl_append

end Demands

/-- What an expression demands. -/
def Expr.demands (expr : Expr) : Demands :=
  (∅ : Demands).addExpr expr

end ClassLinker
