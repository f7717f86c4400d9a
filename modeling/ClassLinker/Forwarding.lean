import ClassLinker.Analysis.Record
import ClassLinker.Event
import ClassLinker.Loader

/-!
# Code of bridges and proxies

The methods that an analysis adds to classes get their code here; what is added has been decided
before.

* `MethodDecl.bridge` forwards to the default method of an interface;
* `MethodDecl.proxy` calls another method of the class with dynamic dispatch, and gives back
  undefined if that method has no result;
* `Workbench.members` makes all reachable bridges and proxies of a class. It loads the declarations
  of the classes that declare their targets, and keeps them at hand for later.
-/

namespace ClassLinker

/-- Reads every parameter in turn. -/
def forwarded (params : List Param) : List Expr :=
  params.map fun param => .var param.name

namespace MethodDecl

/-- The method that calls the method of an interface with its own parameters. -/
def bridge (name : MethodName) (interface : ClassName) (target : MethodDecl) : MethodDecl where
  space := .publicInstance
  name := name
  params := target.params
  result := target.result
  body := some (.callDirect interface .publicInstance .self name (forwarded target.params))

/-- The method that calls another method of its class with its own parameters. -/
def proxy (name : MethodName) (cls : ClassName) (target : MethodDecl) : MethodDecl where
  space := .publicInstance
  name := name
  params := target.params
  result := .object
  body :=
    let call := Expr.call cls .self target.name (forwarded target.params)
    some (if target.result = .void then .block [call, .undefined] else call)

end MethodDecl

/-- The declarations at hand, the loader of further ones, and the events so far. -/
structure Workbench where
  loader : Loader
  decls : Std.ExtTreeMap ClassName ClassDecl := ∅
  events : List Event := []

namespace Workbench

/-- The workbench with one more declaration at hand. -/
def lay (bench : Workbench) (decl : ClassDecl) : Workbench :=
  { bench with decls := bench.decls.insert decl.name decl }

/-- The workbench with one more event. -/
def note (bench : Workbench) (event : Event) : Workbench :=
  { bench with events := bench.events ++ [event] }

/-- The declaration of a class, which is loaded unless it is at hand. -/
def fetch (bench : Workbench) (name : ClassName) : Except LoadError ClassDecl × Workbench :=
  match bench.decls[name]? with
  | some decl => (.ok decl, bench)
  | none =>
    match bench.loader.loadDecl name with
    | (.error error, loader) => (.error error, { bench with loader })
    | (.ok entry, loader) =>
      (.ok entry.decl, { bench with loader, decls := bench.decls.insert name entry.decl })

/-- The declaration of a public method of a class. If the class does not have it, the event is
noted. -/
def targetIn (bench : Workbench) (name : ClassName) (target : MethodName) (event : Event) :
    Except LoadError (Option MethodDecl) × Workbench :=
  match bench.fetch name with
  | (.error error, bench) => (.error error, bench)
  | (.ok decl, bench) =>
    match decl.method? .publicInstance target with
    | some method => (.ok (some method), bench)
    | none => (.ok none, bench.note event)

/-- The first of the ancestors of a class that has a method which the analysis has not added. -/
def declaringClass? (analysis : Analysis) (cls : ClassRecord) (method : MethodName) :
    Option ClassName :=
  cls.ancestors.find? fun ancestor =>
    (analysis.method? ⟨ancestor, .publicInstance, method⟩).any fun entry =>
      entry.isPresent && entry.forwarder.isNone

/-- The code of a method that the analysis has added to a class, if its target can be found. -/
def member (bench : Workbench) (analysis : Analysis) (cls : ClassRecord) (method : MethodId)
    (forwarder : Forwarder) : Except LoadError (Option MethodDecl) × Workbench :=
  match forwarder with
  | .bridge interface =>
    let (target, bench) :=
      bench.targetIn interface method.name (.noDefaultMethod method interface)
    (target.map (Option.map (MethodDecl.bridge method.name interface)), bench)
  | .proxy called =>
    let event := Event.noProxyTarget method called
    match declaringClass? analysis cls called with
    | none => (.ok none, bench.note event)
    | some owner =>
      let (target, bench) := bench.targetIn owner called event
      (target.map (Option.map (MethodDecl.proxy method.name cls.name)), bench)

/-- The code of some methods added to a class in turn. The first error counts. -/
def membersAmong (bench : Workbench) (analysis : Analysis) (cls : ClassRecord) :
    List (MethodId × Forwarder) → Except LoadError (List MethodDecl) × Workbench
  | [] => (.ok [], bench)
  | (method, forwarder) :: rest =>
    match bench.member analysis cls method forwarder with
    | (.error error, bench) => (.error error, bench)
    | (.ok made, bench) =>
      let (later, bench) := bench.membersAmong analysis cls rest
      (later.map (made.toList ++ ·), bench)

/-- The code of the reachable methods added to a class, by name. -/
def members (bench : Workbench) (analysis : Analysis) (cls : ClassRecord) :
    Except LoadError (List MethodDecl) × Workbench :=
  bench.membersAmong analysis cls <| cls.reached.filterMap fun method =>
    method.forwarder.map fun forwarder => (method.id, forwarder)

/-- The methods made for several classes in turn. An error for one class does not keep the others
from getting theirs. -/
def membersOfEach (bench : Workbench) (analysis : Analysis) :
    List ClassRecord → List (ClassName × Except LoadError (List MethodDecl)) × Workbench
  | [] => ([], bench)
  | cls :: rest =>
    let (made, bench) := bench.members analysis cls
    let (later, bench) := bench.membersOfEach analysis rest
    ((cls.name, made) :: later, bench)

end Workbench

end ClassLinker
