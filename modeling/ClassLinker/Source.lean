import ClassLinker.Summary

/-!
# Class sources

A source holds the declarations of classes in memory, with versions, and answers two requests: for
the summary of a class and for its declaration.

* `Source.summary?` and `Source.decl?` are what a source knows;
* `Source.requestSummary` and `Source.requestDecl` are what it answers, which can be an error:
  a `Fault` makes the requests of one kind for one class fail, always or a number of times;
* `Source.entryPoints` lists the classes to analyze even if nothing refers to them.

Summaries can also be given apart from declarations, and so can the list of entry points.
-/

namespace ClassLinker

/-- Why a class cannot be loaded. -/
inductive LoadError where
  | notFound (cls : ClassName)
  | malformed (cls : ClassName) (text : String)
  | io (text : String)
  | other (text : String)
deriving DecidableEq, Inhabited

/-- The text of a load error. -/
def LoadError.message : LoadError → String
  | notFound cls => "Class not found: " ++ cls.text
  | malformed cls text => "Malformed class " ++ cls.text ++ ": " ++ text
  | io text => "IO error: " ++ text
  | other text => "Cause: " ++ text

/-- What can be asked of a source. -/
inductive RequestKind where
  | summary
  | decl
deriving DecidableEq

/-- A class and the version of its content. -/
structure VersionedDecl where
  decl : ClassDecl
  version : Option Version

/-- A failure that requests of one kind for one class meet: `remaining` of them, or all. -/
structure Fault where
  kind : RequestKind
  cls : ClassName
  error : LoadError
  remaining : Option Nat
deriving DecidableEq

namespace Fault

/-- Tells whether a request meets the fault. -/
def strikes (fault : Fault) (kind : RequestKind) (cls : ClassName) : Bool :=
  fault.kind = kind ∧ fault.cls = cls ∧ fault.remaining ≠ some 0

/-- The fault after one request has met it. -/
def spent (fault : Fault) : Fault :=
  { fault with remaining := fault.remaining.map (· - 1) }

/-- The error of the first fault that a request meets, and the faults after it. -/
def take? (kind : RequestKind) (cls : ClassName) : List Fault → Option (LoadError × List Fault)
  | [] => none
  | fault :: rest =>
    if fault.strikes kind cls then some (fault.error, fault.spent :: rest)
    else (take? kind cls rest).map fun hit => (hit.1, fault :: hit.2)

end Fault

/-- A source of classes. -/
structure Source where
  classes : Std.ExtTreeMap ClassName VersionedDecl := ∅
  /-- Summaries that are answered in place of those of the declarations. -/
  givenSummaries : Std.ExtTreeMap ClassName ClassSummary := ∅
  /-- Entry points that are answered in place of those of the declarations. -/
  givenEntryPoints : Option (List ClassName) := none
  faults : List Fault := []

namespace Source

/-- The source with one more class, in place of any class of that name. -/
def insert (source : Source) (cls : ClassDecl) (version : Option Version) : Source :=
  { source with classes := source.classes.insert cls.name ⟨cls, version⟩ }

/-- Tells whether the source holds the declaration of a class. -/
def contains (source : Source) (cls : ClassName) : Bool :=
  source.classes.contains cls

/-- The classes to analyze even if nothing refers to them. -/
def entryPoints (source : Source) : List ClassName :=
  match source.givenEntryPoints with
  | some given => given
  | none => (source.classes.toList.filter fun entry => entry.2.decl.isEntryPoint).map (·.1)

/-- The summary that the source knows for a class. -/
def summary? (source : Source) (cls : ClassName) : Option ClassSummary :=
  match source.givenSummaries[cls]? with
  | some given => some given
  | none => source.classes[cls]?.map fun entry => entry.decl.summary

/-- The summaries of all declarations, and those that are given apart from them. -/
def summaries (source : Source) : List ClassSummary :=
  source.classes.toList.map (fun entry => entry.2.decl.summary) ++
    source.givenSummaries.toList.map Prod.snd

/-- The declaration that the source knows for a class. -/
def decl? (source : Source) (cls : ClassName) : Option VersionedDecl :=
  source.classes[cls]?

/-- What the source answers to a request, and the source after it: the error of a fault that the
request meets, and what is known otherwise. -/
def request {α : Type} (source : Source) (kind : RequestKind) (cls : ClassName)
    (known : Except LoadError α) : Except LoadError α × Source :=
  match Fault.take? kind cls source.faults with
  | some (error, faults) => (.error error, { source with faults := faults })
  | none => (known, source)

/-- Asks for a summary. A class that does not exist has none. -/
def requestSummary (source : Source) (cls : ClassName) :
    Except LoadError (Option ClassSummary) × Source :=
  source.request .summary cls (.ok (source.summary? cls))

/-- Asks for a declaration. It is an error if the class does not exist. -/
def requestDecl (source : Source) (cls : ClassName) :
    Except LoadError VersionedDecl × Source :=
  source.request .decl cls <|
    match source.decl? cls with
    | some entry => .ok entry
    | none => .error (.notFound cls)

end Source

end ClassLinker
