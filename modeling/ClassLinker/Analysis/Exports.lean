import ClassLinker.Analysis.State

/-!
# Exported names

All linked classes together export names from the program, and no name may be exported twice.
`State.checkExports` reports every name that is, with the classes that export it.
-/

namespace ClassLinker.State

/-- The exported names of all linked classes with their owners, by class in name order. -/
def exportOwners (state : State) : List (String × ClassName) :=
  state.table.toList.flatMap fun entry =>
    match entry.2.record?.bind ClassRecord.summary with
    | some summary => summary.exports.map fun item => (item.name, entry.1)
    | none => []

/-- The classes that export a name, once for each time. -/
def ownersOf (state : State) (name : String) : List ClassName :=
  (state.exportOwners.filter fun owned => owned.1 = name).map (·.2)

/-- The names that are exported more than once, in order. -/
def conflictingExports (state : State) : List String :=
  ((state.exportOwners.map (·.1)).eraseDups.filter fun name =>
    1 < (state.ownersOf name).length).mergeSort fun first second => (compare first second).isLE

/-- Reports every name that is exported more than once. -/
def checkExports (state : State) : State :=
  state.conflictingExports.foldl
    (fun state name => state.report (.conflictingExports name (state.ownersOf name))) state

end ClassLinker.State
