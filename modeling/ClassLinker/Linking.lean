import ClassLinker.Analysis.Run
import ClassLinker.Forwarding
import ClassLinker.KeptClass
import ClassLinker.Provenance

/-!
# Linked programs

`link` analyzes a program and, if it has no errors, loads the declarations of all classes that are
needed, makes the bridges and proxies that the analysis has added to them, and keeps of every class
what is reachable.
-/

namespace ClassLinker

/-- A method to call on a module when the linked program starts, with arguments if it is to get a
list of them. -/
structure StartupCall where
  cls : ClassName
  method : MethodName
  args : Option (List String)
deriving DecidableEq

/-- How to link. -/
structure LinkOptions where
  /-- Whether bridges and proxies may be added to classes. -/
  allowForwarders : Bool := true
  /-- How many errors are logged at most, if there is a limit. -/
  errorLimit : Option Nat := none
deriving DecidableEq

/-- A linked program: its classes in name order, and what to call when it starts. -/
structure LinkedProgram where
  classes : List KeptClass
  startup : List StartupCall

/-- A class of the program. -/
def LinkedProgram.class? (program : LinkedProgram) (name : ClassName) : Option KeptClass :=
  program.classes.find? fun cls => cls.name = name

/-- Why a program cannot be linked. -/
inductive LinkFailure where
  /-- The program has errors. -/
  | rejected (analysis : Analysis)
  | missingBody (method : MethodId)
  | load (error : LoadError)
  /-- The steps allowed to the analysis were not enough. -/
  | outOfSteps

namespace LinkFailure

/-- The text of a link failure. -/
def message : LinkFailure → String
  | rejected analysis =>
    "There were linking errors (" ++ toString analysis.errors.length ++ " in total)"
  | missingBody method => "Reachable method " ++ method.display ++ " has no body"
  | load error => "Failed to load a class: " ++ error.message
  | outOfSteps => "The analysis did not end"

/-- The link failure for an analysis without result. -/
def ofAnalysisFailure : AnalysisFailure → LinkFailure
  | .load error => load error
  | .outOfSteps => outOfSteps

end LinkFailure

/-- Makes the bridges and proxies of classes and keeps what is reachable of each, in turn. The
first error counts. -/
def keepEach (analysis : Analysis) :
    List (ClassRecord × VersionedDecl) → Workbench →
      Except LinkFailure (List KeptClass) × Workbench
  | [], bench => (.ok [], bench)
  | (cls, entry) :: rest, bench =>
    match bench.members analysis cls with
    | (.error error, bench) => (.error (.load error), bench)
    | (.ok made, bench) =>
      match KeptClass.ofRecord cls entry made with
      | .error method => (.error (.missingBody method), bench)
      | .ok kept =>
        let (later, bench) := keepEach analysis rest bench
        (later.map (kept :: ·), bench)

/-- The existing classes that a linked program needs, in name order. -/
def Analysis.neededClasses (analysis : Analysis) : List ClassRecord :=
  analysis.classList.filter fun cls => cls.isPresent && cls.isNeeded

/-- Loads the declarations of the needed classes and keeps what is reachable. -/
def keepNeeded (analysis : Analysis) (loader : Loader) :
    Except LinkFailure (List KeptClass) × Workbench :=
  let needed := analysis.neededClasses
  match loader.loadDecls (needed.map ClassRecord.name) with
  | (.error error, loader) => (.error (.load error), { loader })
  | (.ok entries, loader) =>
    let bench := entries.foldl (fun bench entry => bench.lay entry.decl) { loader }
    keepEach analysis (needed.zip entries) bench

/-- What is required by the calls to make when the program starts. -/
def startupRequirement (startup : List StartupCall) : Requirement :=
  .sum (startup.map fun call => .onModule "module initializers" call.cls call.method)

/-- The outcome of linking: the program or an error, the events logged, and the loader after it. -/
structure LinkOutcome where
  result : Except LinkFailure LinkedProgram
  events : List Event
  loader : Loader

/-- Links the program that requirements and calls at its start need. -/
def link (options : LinkOptions) (requirement : Requirement) (startup : List StartupCall)
    (loader : Loader) : LinkOutcome :=
  let requirement := requirement + startupRequirement startup
  match analyze options.allowForwarders requirement loader with
  | (.error failure, loader) => ⟨.error (.ofAnalysisFailure failure), [], loader⟩
  | (.ok analysis, loader) =>
    if !analysis.isClean then
      ⟨.error (.rejected analysis), analysis.errorEvents options.errorLimit, loader⟩
    else
      let (classes, bench) := keepNeeded analysis loader
      ⟨classes.map fun classes => { classes, startup }, bench.events, bench.loader⟩

end ClassLinker
