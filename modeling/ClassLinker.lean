import ClassLinker.Analysis.Exports
import ClassLinker.Analysis.Inheritance
import ClassLinker.Analysis.Propagation
import ClassLinker.Analysis.Record
import ClassLinker.Analysis.Resolution
import ClassLinker.Analysis.Run
import ClassLinker.Analysis.State
import ClassLinker.Caching
import ClassLinker.Chain
import ClassLinker.ClassDecl
import ClassLinker.ClassKind
import ClassLinker.Demand
import ClassLinker.Diagnostic
import ClassLinker.Event
import ClassLinker.Expr
import ClassLinker.FirstSeen
import ClassLinker.Forwarding
import ClassLinker.Graph
import ClassLinker.KeptClass
import ClassLinker.Linking
import ClassLinker.Loader
import ClassLinker.MethodId
import ClassLinker.MethodName
import ClassLinker.Names
import ClassLinker.Namespace
import ClassLinker.Order
import ClassLinker.Proofs.Absorption
import ClassLinker.Proofs.Accounts
import ClassLinker.Proofs.Acts
import ClassLinker.Proofs.Ancestry
import ClassLinker.Proofs.Answers
import ClassLinker.Proofs.Arrivals
import ClassLinker.Proofs.Blame
import ClassLinker.Proofs.Branching
import ClassLinker.Proofs.Bridges
import ClassLinker.Proofs.Budget
import ClassLinker.Proofs.Caching
import ClassLinker.Proofs.Callers
import ClassLinker.Proofs.Calls
import ClassLinker.Proofs.Certificates
import ClassLinker.Proofs.Chains
import ClassLinker.Proofs.Change
import ClassLinker.Proofs.Comparing
import ClassLinker.Proofs.Costs
import ClassLinker.Proofs.CostsOfRuns
import ClassLinker.Proofs.CostsOfTasks
import ClassLinker.Proofs.Courses
import ClassLinker.Proofs.Cycles
import ClassLinker.Proofs.Defaults
import ClassLinker.Proofs.Dispatching
import ClassLinker.Proofs.Effects
import ClassLinker.Proofs.EncodedTypes
import ClassLinker.Proofs.Endings
import ClassLinker.Proofs.EntryPoints
import ClassLinker.Proofs.Exactness
import ClassLinker.Proofs.ExportConflicts
import ClassLinker.Proofs.Forwarders
import ClassLinker.Proofs.Growth
import ClassLinker.Proofs.Hiding
import ClassLinker.Proofs.Hierarchy
import ClassLinker.Proofs.Inheritance
import ClassLinker.Proofs.Instances
import ClassLinker.Proofs.Inventory
import ClassLinker.Proofs.Keeping
import ClassLinker.Proofs.KeptCode
import ClassLinker.Proofs.KeptMethods
import ClassLinker.Proofs.Landings
import ClassLinker.Proofs.Leaves
import ClassLinker.Proofs.Linked
import ClassLinker.Proofs.Loading
import ClassLinker.Proofs.Lookups
import ClassLinker.Proofs.MirroredRuns
import ClassLinker.Proofs.Mirrors
import ClassLinker.Proofs.Monotonicity
import ClassLinker.Proofs.NameEndings
import ClassLinker.Proofs.Optionality
import ClassLinker.Proofs.Origins
import ClassLinker.Proofs.Outcomes
import ClassLinker.Proofs.Placeholders
import ClassLinker.Proofs.ProxyCode
import ClassLinker.Proofs.ProxyNames
import ClassLinker.Proofs.ProxyTargets
import ClassLinker.Proofs.Reachability
import ClassLinker.Proofs.References
import ClassLinker.Proofs.Relays
import ClassLinker.Proofs.Repeats
import ClassLinker.Proofs.Repetition
import ClassLinker.Proofs.Replays
import ClassLinker.Proofs.Reports
import ClassLinker.Proofs.RequirementAlgebra
import ClassLinker.Proofs.Residents
import ClassLinker.Proofs.Resolution
import ClassLinker.Proofs.Retention
import ClassLinker.Proofs.Runs
import ClassLinker.Proofs.Search
import ClassLinker.Proofs.Separators
import ClassLinker.Proofs.Serving
import ClassLinker.Proofs.Shadowing
import ClassLinker.Proofs.Signatures
import ClassLinker.Proofs.Specificity
import ClassLinker.Proofs.Stability
import ClassLinker.Proofs.Steps
import ClassLinker.Proofs.Summaries
import ClassLinker.Proofs.Tasks
import ClassLinker.Proofs.Terminal
import ClassLinker.Proofs.Traversals
import ClassLinker.Proofs.Turns
import ClassLinker.Proofs.Validity
import ClassLinker.Proofs.Widening
import ClassLinker.Proofs.Workbenches
import ClassLinker.Provenance
import ClassLinker.Requirement
import ClassLinker.Separator
import ClassLinker.Source
import ClassLinker.Summary
import ClassLinker.Ty

/-!
# Whole-program linking of classes

A program is a set of classes with code, some of which are asked for by requirements. `analyze`
finds out what of the program can be reached, checks the hierarchy of the classes that it meets, and
reports what is missing; `link` keeps of every class what the analysis has reached. The definitions
are in `ClassLinker` itself, from names and expressions up to `Analysis.Run` and `Linking`; what is
proved about them is in `ClassLinker.Proofs`.

## What an analysis finds

* `Exactness`: what is reached is the least model of the rules in `Reachability`;
* `Dispatching`, `Residents`, `Chains`, `Placeholders`: calls on instances, the instances that are
  known, the causes that lead back to a root, and the methods that are missing;
* `Certificates`, `ExportConflicts`: what an analysis without errors guarantees, and exports of one
  name;
* `Monotonicity`, `Optionality`, `Repetition`: how two requirements compare, and
  `RequirementAlgebra` what a requirement asks for.

## Runs

* `Endings`: every run ends within its budget, which `Costs` and the modules on it bound;
* `Accounts`, `Retention`: nothing is asked for twice or dropped, and nothing that is known gets
  lost;
* `Ancestry`, `Cycles`, `Terminal`: how classes are linked, which cycles are reported, and which
  classes fail.

## Resolution

* `Defaults`, `Hiding`, `Replays`, `Stability`: default methods, the bridges that hide them, calls
  that are made again, and targets in later states;
* `Specificity`, `ProxyTargets`, `ProxyCode`: the targets of reflective proxies.

## Linked programs

* `References`: whatever the code of a linked program refers to is in it;
* `KeptMethods`, `KeptCode`, `EntryPoints`: what is kept of a class, what of that has been analyzed,
  and which entry points are kept;
* `Forwarders`, `Workbenches`: the code of bridges and proxies.

## Names, code and sources

* `EncodedTypes`, `Signatures`, `NameEndings`, `ProxyNames`: what names encode;
* `Traversals`: the demands of code, in the order of its nodes;
* `Caching`, `Lookups`: remembering summaries, and searching several sources.
-/
