import ClassLinker.Analysis.State

/-!
# Resolving calls

The method that a call reaches, given the class whose instances it is made on.

* `State.superChain` is the class, its super class, and so on; an implementation is looked for
  there first (`State.superImplementor?`);
* `State.defaultOwners` are the interfaces that offer a default method which no other one of them
  overrides; if the super classes have nothing, the first of these offers the implementation, and
  a bridge to it is added to the class (`State.resolve`);
* `State.resolveProxy` finds or adds the method that a reflective call reaches; its target is the
  most specific match in the first class that has any (`State.proxyTarget?`).

A call that nothing implements is an error, and an absent method is entered for it.
-/

namespace ClassLinker.State

/-- The first `steps` classes from a class upwards, each the super class of the one before. -/
def superChainUpTo (state : State) : Nat → ClassName → List ClassRecord
  | 0, _ => []
  | steps + 1, name =>
    match state.class? name with
    | none => []
    | some cls =>
      cls :: match cls.superClass with
        | none => []
        | some parent => state.superChainUpTo steps parent

/-- A class, its super class, and so on. No chain is longer than the table of classes. -/
def superChain (state : State) (name : ClassName) : List ClassRecord :=
  state.superChainUpTo state.table.size name

/-- The linked classes among the ancestors of a class, in order. -/
def ancestorRecords (state : State) (name : ClassName) : List ClassRecord :=
  match state.class? name with
  | none => []
  | some cls => cls.ancestors.filterMap state.class?

/-- The nearest class, from a class upwards, that has code for a public method. -/
def superImplementor? (state : State) (name : ClassName) (method : MethodName) :
    Option ClassName :=
  ((state.superChain name).find? fun cls => cls.hasConcrete method).map ClassRecord.name

/-- The interfaces among the ancestors of a class that have code for a public method. -/
def defaultCandidates (state : State) (name : ClassName) (method : MethodName) :
    List ClassRecord :=
  (state.ancestorRecords name).filter fun cls => cls.kind = .interface && cls.hasConcrete method

/-- Those of some interfaces that none of the others is below. -/
def notOverridden (candidates : List ClassRecord) : List ClassRecord :=
  candidates.filter fun candidate =>
    !candidates.any fun other => other.name ≠ candidate.name && other.isBelow candidate.name

/-- The interfaces among the ancestors of a class, in order, whose default method of a given name
no other one overrides. -/
def defaultOwners (state : State) (name : ClassName) (method : MethodName) : List ClassName :=
  (notOverridden (state.defaultCandidates name method)).map ClassRecord.name

/-- Enters a method that the analysis adds to a class. -/
def addForwarder (state : State) (name : ClassName) (method : MethodName)
    (forwarder : Forwarder) : MethodId × State :=
  let id : MethodId := ⟨name, .publicInstance, method⟩
  (id, state.modifyClass name fun cls => cls.putMethod { id, forwarder := some forwarder })

/-- Reports that a method has no implementation. An absent method is entered unless the class
declares it, if only as abstract. -/
def reportMissing (state : State) (id : MethodId) (cause : Cause) : State :=
  let entered := state.modifyClass id.owner fun cls =>
    match cls.method? id.key with
    | some _ => cls
    | none => cls.putMethod (.absent id)
  entered.report (.missingMethod id cause)

/-- The implementation of a public method for the instances of a class. If only interfaces offer
it, a bridge is added to the class, unless the class is an interface or no methods may be added. -/
def resolve (state : State) (name : ClassName) (method : MethodName) (cause : Cause) :
    MethodId × State :=
  match state.superImplementor? name method with
  | some owner => (⟨owner, .publicInstance, method⟩, state)
  | none =>
    match state.defaultOwners name method with
    | [] =>
      let id : MethodId := ⟨name, .publicInstance, method⟩
      (id, state.reportMissing id cause)
    | first :: others =>
      let state :=
        if others.isEmpty then state
        else state.report (.conflictingDefaults
          ((first :: others).map fun owner => ⟨owner, .publicInstance, method⟩) cause)
      let isInterface := (state.class? name).any fun cls => cls.kind = .interface
      if isInterface || !state.allowForwarders then (⟨first, .publicInstance, method⟩, state)
      else state.addForwarder name method (.bridge first)

/-! ### Reflective proxies -/

/-- Tells whether a class lies strictly below another. -/
def isStrictlyBelow (state : State) (lower upper : ClassName) : Bool :=
  lower ≠ upper && (state.class? lower).any fun cls => cls.isBelow upper

/-- Tells whether a type is strictly more specific than another: a class below a class, with equally
many array dimensions around both, or an array and the type of all objects. -/
def refines (state : State) (left right : Ty) : Bool :=
  match left.base, right.base with
  | .named lower, .named upper =>
    if left.depth = right.depth then state.isStrictlyBelow lower upper
    else right.depth = 0 && left.depth > 0 && upper = .object
  | _, .named upper => right.depth = 0 && left.depth > 0 && upper = .object
  | _, _ => false

/-- The same of result types, which a method name need not encode. -/
def refinesResult (state : State) (left right : Option Ty) : Bool :=
  match left, right with
  | some left, some right => state.refines left right
  | _, _ => false

/-- The methods of a class that a proxy can call, in name order. -/
def proxyMatches (cls : ClassRecord) (proxy : MethodName) : List MethodName :=
  (cls.methodList.filter fun method =>
    method.id.space = .publicInstance && method.isConcrete && method.forwarder.isNone &&
      method.id.name.matchesProxy proxy).map fun method => method.id.name

/-- The first of some methods whose result type no other one's refines, and failing that the
first. -/
def mostSpecific? (state : State) (candidates : List MethodName) : Option MethodName :=
  (candidates.find? fun candidate => !candidates.any fun other =>
    state.refinesResult other.encodedResult? candidate.encodedResult?) <|> candidates.head?

/-- The method that a proxy of a class calls: the most specific match in the first class that has
any, among the super classes and then among all ancestors. -/
def proxyTarget? (state : State) (name : ClassName) (proxy : MethodName) : Option MethodName :=
  (state.superChain name ++ state.ancestorRecords name).findSome? fun cls =>
    state.mostSpecific? (proxyMatches cls proxy)

/-- The reflective proxy of a class, which is added if the class does not have it. -/
def resolveProxy (state : State) (name : ClassName) (proxy : MethodName) (cause : Cause) :
    MethodId × State :=
  let id : MethodId := ⟨name, .publicInstance, proxy⟩
  match state.class? name with
  | none => (id, state)
  | some cls =>
    match cls.method? id.key with
    | some _ => (id, state)
    | none =>
      match state.proxyTarget? name proxy with
      | some target => state.addForwarder name proxy (.proxy target)
      | none => (id, state.reportMissing id cause)

/-- The method that a call on instances of exactly a class reaches. -/
def dispatch (state : State) (name : ClassName) (method : MethodName) (cause : Cause) :
    MethodId × State :=
  if method.isProxy && state.allowForwarders then state.resolveProxy name method cause
  else state.resolve name method cause

/-- The method that a call reaches which has been dispatched in the class before: the entry of the
class itself if it has one, an inherited implementation, or the default method of an interface. -/
def dispatchedBefore? (state : State) (name : ClassName) (method : MethodName) :
    Option MethodId :=
  let isEntered := (state.class? name).any fun cls =>
    (cls.method? ⟨.publicInstance, method⟩).isSome
  let owner :=
    if isEntered then some name
    else state.superImplementor? name method <|> (state.defaultOwners name method).head?
  owner.map fun owner => ⟨owner, .publicInstance, method⟩

end ClassLinker.State
