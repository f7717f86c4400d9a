import ClassLinker.Analysis.Record
import ClassLinker.Event

/-!
# Where needs come from

Every reachable method and every class that instances are created of has a first cause.
`Analysis.provenance` follows first causes until there is none or one comes up again, and
`Analysis.explain` writes an error with its provenance below it, one cause a line and each further
indented than the one before.
-/

namespace ClassLinker.Analysis

/-- The first cause of what a cause stands for. -/
def firstCause? (analysis : Analysis) : Cause → Option Cause
  | .method id => (analysis.method? id).bind fun method => method.callers.head?
  | .cls name => (analysis.class? name).bind fun cls => cls.creators.head?
  | .component _ | .exports => none

/-- The causes met by following first causes, until one is among those met before. -/
def causesFrom (analysis : Analysis) : Nat → List Cause → Cause → List Cause
  | 0, _, _ => []
  | steps + 1, met, cause =>
    if cause ∈ met then []
    else cause :: match analysis.firstCause? cause with
      | none => []
      | some earlier => analysis.causesFrom steps (cause :: met) earlier

/-- The classes and methods of the analysis. Nothing else has a first cause. -/
def causes (analysis : Analysis) : List Cause :=
  analysis.classes.toList.flatMap fun entry => .cls entry.1 ::
    entry.2.methods.toList.map fun method => .method ⟨entry.1, method.1.space, method.1.name⟩

/-- A cause, its first cause, the first cause of that, and so on, each once. -/
def provenance (analysis : Analysis) (cause : Cause) : List Cause :=
  analysis.causesFrom (analysis.causes.length + 1) [] cause

/-- The lines for some causes below an error, the first of them indented by `depth` steps. -/
def causeLines (depth : Nat) : List Cause → String
  | [] => ""
  | cause :: rest =>
    "\n" ++ String.join (List.replicate depth "  ") ++ "from " ++ cause.display ++
      causeLines (depth + 1) rest

/-- The text of an error with its provenance. -/
def explain (analysis : Analysis) (error : Diagnostic) : String :=
  error.message ++
    match error.cause? with
    | none => ""
    | some cause => causeLines 1 (analysis.provenance cause)

/-- The events that report the errors of the analysis, at most `limit` of them if there is a
limit. -/
def errorEvents (analysis : Analysis) (limit : Option Nat) : List Event :=
  let reported := match limit with
    | none => analysis.errors
    | some limit => analysis.errors.take limit
  let omitted := analysis.errors.length - reported.length
  reported.map (fun error => .programError (analysis.explain error)) ++
    if omitted = 0 then [] else [.errorsOmitted omitted]

end ClassLinker.Analysis
