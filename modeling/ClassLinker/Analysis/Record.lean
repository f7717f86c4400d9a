import ClassLinker.Diagnostic
import ClassLinker.Summary

/-!
# What the analysis knows

A `MethodRecord` and a `ClassRecord` hold what is known of a method and of a class, and an
`Analysis` all classes together with the errors found.

* `ClassRecord.ofSummary` is a class as it is first known, before its parents are looked at;
* `ClassRecord.isNeeded` and `ClassRecord.reached` say what of it a linked program holds;
* `Analysis.ofErrors` keeps the first of equal errors.
-/

namespace ClassLinker

/-- Why a method has been added to a class that does not declare it. -/
inductive Forwarder where
  /-- It forwards to the default method of an interface. -/
  | bridge (interface : ClassName)
  /-- It calls a method of the same class with dynamic dispatch. -/
  | proxy (target : MethodName)
deriving DecidableEq

/-- What is known of a method of a class. A method that is called but does not exist is entered
with `isPresent` unset. -/
structure MethodRecord where
  id : MethodId
  isAbstract : Bool := false
  isPresent : Bool := true
  isReached : Bool := false
  /-- What calls the method, in order of first sight. -/
  callers : List Cause := []
  forwarder : Option Forwarder := none
deriving DecidableEq, Inhabited

namespace MethodRecord

/-- Tells whether the method has code of its own or forwards to some. -/
def isConcrete (method : MethodRecord) : Bool :=
  method.isPresent && !method.isAbstract

/-- A method that is called but does not exist. -/
def absent (id : MethodId) : MethodRecord := { id, isPresent := false }

/-- A declared method. -/
def ofSummary (owner : ClassName) (method : MethodSummary) : MethodRecord where
  id := ⟨owner, method.space, method.name⟩
  isAbstract := method.isAbstract

end MethodRecord

/-- What is known of a class whose ancestors are known. -/
structure ClassRecord where
  name : ClassName
  kind : ClassKind
  /-- The summary of the class, unless it does not exist. -/
  summary : Option ClassSummary
  superClass : Option ClassName := none
  interfaces : List ClassName := []
  /-- The class, the ancestors of its super class and those of its interfaces, each once. -/
  ancestors : List ClassName := [name]
  /-- The ways in which the class itself is used. -/
  uses : Uses := {}
  /-- Instances of the class or of a class below it are created. -/
  hasInstances : Bool := false
  /-- What creates instances of the class, in order of first sight. -/
  creators : List Cause := []
  /-- The classes at or below this one that instances are created of, in order of creation. -/
  inhabited : List ClassName := []
  methods : Std.ExtTreeMap MethodKey MethodRecord := ∅
  /-- The calls with dynamic dispatch on receivers of the class, with their causes. -/
  calls : List (MethodName × Cause) := []
deriving DecidableEq

namespace ClassRecord

/-- The methods that a summary declares. Of methods with equal keys the last one counts. -/
def declaredMethods (owner : ClassName) (summary : ClassSummary) :
    Std.ExtTreeMap MethodKey MethodRecord :=
  summary.methods.foldl
    (fun methods method =>
      methods.insert ⟨method.space, method.name⟩ (MethodRecord.ofSummary owner method)) ∅

/-- A class as its summary describes it, with no parents yet. -/
def ofSummary (name : ClassName) (summary : ClassSummary) : ClassRecord where
  name := name
  kind := summary.kind
  summary := some summary
  methods := declaredMethods name summary

/-- What stands for a class that does not exist. -/
def absent (name : ClassName) : ClassRecord where
  name := name
  kind := .plain
  summary := none

/-- Tells whether the class exists. -/
def isPresent (cls : ClassRecord) : Bool :=
  cls.summary.isSome

/-- Tells whether a class is the class itself or one of its ancestors. -/
def isBelow (cls : ClassRecord) (other : ClassName) : Bool :=
  other ∈ cls.ancestors

/-- The class with one more way of being used. -/
def addUse (cls : ClassRecord) (use : Use) : ClassRecord :=
  { cls with uses := cls.uses.insert use }

/-- What is known of a method. -/
def method? (cls : ClassRecord) (key : MethodKey) : Option MethodRecord :=
  cls.methods[key]?

/-- The class with a method entered, in place of any method of its key. -/
def putMethod (cls : ClassRecord) (method : MethodRecord) : ClassRecord :=
  { cls with methods := cls.methods.insert method.id.key method }

/-- Tells whether the class has a public method that is not abstract. -/
def hasConcrete (cls : ClassRecord) (name : MethodName) : Bool :=
  (cls.method? ⟨.publicInstance, name⟩).any MethodRecord.isConcrete

/-- All methods, by namespace and name. -/
def methodList (cls : ClassRecord) : List MethodRecord :=
  cls.methods.toList.map (·.2)

/-- The reachable methods, by namespace and name. -/
def reached (cls : ClassRecord) : List MethodRecord :=
  cls.methodList.filter MethodRecord.isReached

/-- Tells whether a linked program needs the class: there are instances of it, it is used in some
other way, or one of its methods is reachable. -/
def isNeeded (cls : ClassRecord) : Bool :=
  cls.hasInstances || cls.uses.module || cls.uses.tests || cls.uses.typeData ||
    cls.uses.staticFields || cls.uses.privateFields || !cls.reached.isEmpty

@[simp] theorem method?_putMethod (cls : ClassRecord) (method : MethodRecord) (key : MethodKey) :
    (cls.putMethod method).method? key =
      if method.id.key = key then some method else cls.method? key := by
  simp [method?, putMethod, Std.ExtTreeMap.getElem?_insert]

end ClassRecord

/-- The result of an analysis. -/
structure Analysis where
  classes : Std.ExtTreeMap ClassName ClassRecord := ∅
  errors : List Diagnostic := []
deriving DecidableEq

namespace Analysis

/-- The result with given classes and with each of the errors once. -/
def ofErrors (classes : Std.ExtTreeMap ClassName ClassRecord) (errors : List Diagnostic) :
    Analysis where
  classes := classes
  errors := errors.eraseDups

/-- What is known of a class. -/
def class? (analysis : Analysis) (name : ClassName) : Option ClassRecord :=
  analysis.classes[name]?

/-- What is known of a method. -/
def method? (analysis : Analysis) (method : MethodId) : Option MethodRecord :=
  (analysis.class? method.owner).bind fun cls => cls.method? method.key

/-- All classes, in name order. -/
def classList (analysis : Analysis) : List ClassRecord :=
  analysis.classes.toList.map (·.2)

/-- Tells whether no errors were found. -/
def isClean (analysis : Analysis) : Bool :=
  analysis.errors.isEmpty

end Analysis

end ClassLinker
