import ClassLinker.Proofs.Certificates
import ClassLinker.Proofs.Courses
import ClassLinker.Proofs.References
import ClassLinker.Proofs.Reports

/-!
# Names that are exported more than once

Conflicts between exports are read off the classes that are linked in the end, and yet they are
those of the universe (`analyze_exportConflicts`): if every class that exports something is an entry
point, then it has been looked at, and it is linked unless it reaches an inheritance cycle.

* `Universe.IsExporters` describes the list of all classes that export a name, each as many times as
  it does. There is one such list (`Universe.IsExporters.unique`), and `State.InOrder.isExporters`
  says that a run finds it;
* `ConflictsExact`: of the errors, the last are the conflicts, one for each name with more than one
  entry in its list, in the order of the names;
* `Turn.caused`: every error that a run reports has a cause, so none of them is a conflict.
-/

namespace ClassLinker

variable {setting : Setting} {world : Universe} {state next : State} {name : String}
variable {cls : ClassName} {record : ClassRecord} {summary : ClassSummary}
variable {errors : List Diagnostic}

/-- The class lies on an inheritance cycle or inherits from one. -/
def Universe.ReachesCycle (world : Universe) (cls : ClassName) : Prop :=
  ∃ other, Relation.ReflTransGen world.Extends cls other ∧
    Relation.TransGen world.Extends other other

/-- A class that can be linked is neither on an inheritance cycle nor below one. -/
theorem Universe.Links.not_reachesCycle (links : world.Links cls record) :
    ¬ world.ReachesCycle cls := by
  rintro ⟨other, leads, cycle⟩
  obtain ⟨above, links⟩ := links.exists_of_extends leads
  exact links.not_extends_itself cycle

/-- The list has the classes that export the name in name order, each as many times as it exports
the name. Classes that reach an inheritance cycle are left out. -/
structure Universe.IsExporters (world : Universe) (name : String) (owners : List ClassName) :
    Prop where
  inOrder : owners.Pairwise fun first second => (compare first second).isLE = true
  known : ∀ {cls}, cls ∈ owners → ∃ summary, world cls = some summary ∧ ¬ world.ReachesCycle cls
  count : ∀ {cls summary}, world cls = some summary → ¬ world.ReachesCycle cls →
    owners.count cls = (summary.exports.map ExportSummary.name).count name

/-- No other list has the classes that export the name. -/
theorem Universe.IsExporters.unique {owners others : List ClassName}
    (first : world.IsExporters name owners) (second : world.IsExporters name others) :
    owners = others := by
  have same_count (cls : ClassName) : owners.count cls = others.count cls := by
    by_cases exporting : ∃ summary, world cls = some summary ∧ ¬ world.ReachesCycle cls
    · obtain ⟨summary, known, apart⟩ := exporting
      rw [first.count known apart, second.count known apart]
    · rw [List.count_eq_zero.2 fun mem => exporting (first.known mem),
        List.count_eq_zero.2 fun mem => exporting (second.known mem)]
  refine (List.perm_iff_count.2 same_count).eq_of_pairwise ?_ first.inOrder second.inOrder
  intro one other _ _ le ge
  exact Std.LawfulEqOrd.eq_of_compare (Std.OrientedCmp.isLE_antisymm le ge)

/-- The errors end with the conflicts between exports: one for each name that is exported more than
once, in the order of the names, with all classes that export it. No other error is one. -/
def ConflictsExact (world : Universe) (errors : List Diagnostic) : Prop :=
  ∃ (others : List Diagnostic) (names : List String) (owners : String → List ClassName),
    errors = others ++ names.map (fun name => .conflictingExports name (owners name)) ∧
      (∀ name owners, .conflictingExports name owners ∉ others) ∧
      names.Pairwise (fun first second => compare first second = .lt) ∧
      (∀ name, world.IsExporters name (owners name)) ∧
      ∀ name, name ∈ names ↔ 1 < (owners name).length

namespace State

/-! ### Owners of a name -/

/-- Every class in the table owns a name as many times as it exports it. -/
theorem ownersOf_eq (state : State) (name : String) :
    state.ownersOf name = state.table.toList.flatMap fun entry =>
      List.replicate ((exportsOf entry).count name) entry.1 := by
  rw [ownersOf, exportOwners, List.filter_flatMap, List.map_flatMap]
  refine List.flatMap_congr fun entry _ => ?_
  unfold exportsOf
  cases entry.2.record?.bind ClassRecord.summary with
  | none => rfl
  | some summary =>
    refine List.eq_replicate_iff.2 ⟨?_, fun owner owns => ?_⟩
    · rw [List.length_map, ← List.countP_eq_length_filter, List.countP_map, List.count,
        List.countP_map]
      exact List.countP_congr fun item _ => by simp
    · obtain ⟨owned, listed, rfl⟩ := List.mem_map.1 owns
      obtain ⟨item, -, rfl⟩ := List.mem_map.1 (List.mem_filter.1 listed).1
      rfl

theorem inOrder_ownersOf (state : State) (name : String) :
    (state.ownersOf name).Pairwise fun first second => (compare first second).isLE = true := by
  rw [ownersOf_eq, List.pairwise_flatMap]
  refine ⟨fun entry _ => List.pairwise_replicate.2 (.inr Std.ReflOrd.isLE_rfl), ?_⟩
  refine Std.ExtTreeMap.ordered_keys_toList.imp fun less first mem second mem' => ?_
  rw [List.eq_of_mem_replicate mem, List.eq_of_mem_replicate mem', less]
  rfl

/-- Only linked classes own names. -/
theorem exists_of_mem_ownersOf (mem : cls ∈ state.ownersOf name) :
    ∃ record summary, state.class? cls = some record ∧ record.summary = some summary := by
  rw [ownersOf_eq] at mem
  obtain ⟨entry, listed, mem⟩ := List.mem_flatMap.1 mem
  obtain ⟨nonzero, rfl⟩ := List.mem_replicate.1 mem
  have status : state.status? entry.1 = some entry.2 :=
    Std.ExtTreeMap.mem_toList_iff_getElem?_eq_some.1 listed
  cases known : entry.2.record?.bind ClassRecord.summary with
  | none => exact absurd (by simp [exportsOf, known]) nonzero
  | some summary =>
    obtain ⟨record, linked, known⟩ := Option.bind_eq_some_iff.1 known
    exact ⟨record, summary, by rw [class?, status, Option.bind_some, linked], known⟩

/-- A linked class owns a name as many times as its summary exports it. -/
theorem count_ownersOf (found : state.class? cls = some record)
    (known : record.summary = some summary) :
    (state.ownersOf name).count cls = (summary.exports.map ExportSummary.name).count name := by
  have listed : (cls, .linked record) ∈ state.table.toList :=
    Std.ExtTreeMap.mem_toList_iff_getElem?_eq_some.2 (class?_eq_some.1 found)
  have exports : exportsOf (cls, .linked record) = summary.exports.map ExportSummary.name := by
    simp [exportsOf, Status.record?, known]
  have apart : state.table.toList.Pairwise fun first second => first.1 ≠ second.1 :=
    Std.ExtTreeMap.ordered_keys_toList.imp fun {first second} less same => by
      rw [same, Std.compare_self] at less
      cases less
  obtain ⟨before, after, split⟩ := List.append_of_mem listed
  rw [split, List.pairwise_append, List.pairwise_cons] at apart
  obtain ⟨-, ⟨later, -⟩, earlier⟩ := apart
  -- Only the entry of the class itself owns names for it.
  have others (entries : List (ClassName × Status)) (ne : ∀ entry ∈ entries, entry.1 ≠ cls) :
      (entries.flatMap fun entry =>
        List.replicate ((exportsOf entry).count name) entry.1).count cls = 0 := by
    refine List.count_eq_zero.2 fun mem => ?_
    obtain ⟨entry, inside, mem⟩ := List.mem_flatMap.1 mem
    exact ne entry inside (List.eq_of_mem_replicate mem).symm
  rw [ownersOf_eq, split, List.flatMap_append, List.flatMap_cons, List.count_append,
    List.count_append, List.count_replicate_self, exports,
    others before fun entry mem => earlier entry mem _ List.mem_cons_self,
    others after fun entry mem => (later entry mem).symm, Nat.zero_add, Nat.add_zero]

/-- Where nothing is left to do, entry points are linked unless they reach a cycle. -/
theorem InOrder.exists_class_of_entry (order : state.InOrder setting)
    (settled : state.isSettled = true) (rests : state.Rests setting)
    (entry : cls ∈ setting.entryPoints) (apart : ¬ setting.world.ReachesCycle cls) :
    ∃ record, state.class? cls = some record := by
  have touched : Touched setting.world state.class? setting.requirement setting.entryPoints cls :=
    .demanded (.entry entry)
  rcases order.isSettledClass_of_touched settled rests touched with linked | failed
  · exact linked
  · exact absurd ((order.failed_iff settled rests failed).1 rfl) apart

/-- Where nothing is left to do, the owners of a name are the classes of the universe that export
it, if those that export anything are entry points. -/
theorem InOrder.isExporters (order : state.InOrder setting) (settled : state.isSettled = true)
    (rests : state.Rests setting)
    (entered : ∀ {cls summary}, setting.world cls = some summary → summary.exports ≠ [] →
      cls ∈ setting.entryPoints) (name : String) :
    setting.world.IsExporters name (state.ownersOf name) where
  inOrder := inOrder_ownersOf state name
  known mem := by
    obtain ⟨record, summary, found, known⟩ := exists_of_mem_ownersOf mem
    exact ⟨summary, (order.valid.follows.summary_eq found).symm.trans known,
      (order.valid.follows.links found).not_reachesCycle⟩
  count {cls summary} known apart := by
    cases found : state.class? cls with
    | some record =>
      exact count_ownersOf found ((order.valid.follows.summary_eq found).trans known)
    | none =>
      have unlinked : ¬ ∃ record, state.class? cls = some record := by simp [found]
      have unowned : cls ∉ state.ownersOf name := fun mem => by
        obtain ⟨record, _, linked, _⟩ := exists_of_mem_ownersOf mem
        exact unlinked ⟨record, linked⟩
      have silent : summary.exports = [] := by
        by_contra exporting
        exact unlinked (order.exists_class_of_entry settled rests (entered known exporting) apart)
      rw [List.count_eq_zero.2 unowned, silent]
      rfl

/-! ### Names in conflict -/

/-- A name is in conflict if it has more than one owner. -/
theorem mem_conflictingExports :
    name ∈ state.conflictingExports ↔ 1 < (state.ownersOf name).length := by
  rw [conflictingExports, List.mem_mergeSort, List.mem_filter, List.mem_eraseDups,
    decide_eq_true_iff]
  refine and_iff_right_of_imp fun several => ?_
  obtain ⟨owner, mem⟩ := List.exists_mem_of_length_pos (Nat.zero_lt_of_lt several)
  obtain ⟨owned, mem, -⟩ := List.mem_map.1 mem
  obtain ⟨mem, same⟩ := List.mem_filter.1 mem
  exact List.mem_map.2 ⟨owned, mem, by simpa using same⟩

theorem nodup_conflictingExports (state : State) : state.conflictingExports.Nodup :=
  (List.mergeSort_perm _ _).nodup_iff.2 ((nodup_eraseDups _).filter _)

/-- The names in conflict are in order, each once. -/
theorem sorted_conflictingExports (state : State) :
    state.conflictingExports.Pairwise fun first second => compare first second = .lt := by
  have inOrder : state.conflictingExports.Pairwise fun first second =>
      (compare first second).isLE = true :=
    List.pairwise_mergeSort (fun _ _ _ => Std.TransCmp.isLE_trans)
      (fun first second => by
        rw [Std.OrientedOrd.eq_swap (a := second)]
        cases compare first second <;> rfl) _
  refine (inOrder.and state.nodup_conflictingExports).imp fun {first second} ⟨le, ne⟩ => ?_
  cases same : compare first second with
  | lt => rfl
  | eq => exact absurd (Std.LawfulEqOrd.eq_of_compare same) ne
  | gt =>
    rw [same] at le
    cases le

end State

/-! ### Errors of a run -/

/-- Every error has a cause. -/
def Caused (errors : List Diagnostic) : Prop :=
  ∀ error ∈ errors, error.cause?.isSome = true

theorem Caused.append {more : List Diagnostic} (caused : Caused errors) (others : Caused more) :
    Caused (errors ++ more) := fun error mem =>
  (List.mem_append.1 mem).elim (caused error) (others error)

/-- Linking reports what is wrong with the parents of a class, and cycles. -/
theorem LinkStep.caused (step : LinkStep setting state next) (caused : Caused state.errors) :
    Caused next.errors := by
  cases step with
  | absent => exact caused.append fun _ mem => by cases mem
  | link =>
    refine caused.append fun error mem => ?_
    rcases ClassSummary.linkError_cases mem with ⟨_, rfl⟩ | ⟨_, rfl⟩ | ⟨_, _, _, rfl⟩ |
      ⟨_, _, _, rfl⟩ <;> rfl
  | fail => exact caused
  | cycle =>
    rw [State.errors_failCycle]
    refine caused.append fun error mem => ?_
    rw [List.mem_singleton.1 mem]
    rfl

theorem Turn.caused (fair : setting.IsFair) (full : ∀ fact, setting.facts fact)
    (turn : Turn setting state next) (caused : Caused state.errors) : Caused next.errors := by
  rcases turn.settles_or_uses fair full with step | uses
  · exact step.caused caused
  · obtain ⟨more, grown, ofUse⟩ := uses.reports
    rw [grown]
    refine caused.append fun error mem => ?_
    cases ofUse error mem <;> rfl

/-- Every error that a run reports has a cause. -/
theorem Turns.caused (fair : setting.IsFair) (full : ∀ fact, setting.facts fact)
    (turns : Turns setting state next) (caused : Caused state.errors) : Caused next.errors := by
  induction turns with
  | refl => exact caused
  | tail _ turn ih => exact turn.caused fair full ih

/-! ### Analyses -/

/-- The result lists the errors of the run and then the conflicts. -/
theorem State.errors_result (caused : Caused state.errors) :
    state.result.errors = state.errors.eraseDups ++ state.conflictingExports.map fun name =>
      .conflictingExports name (state.ownersOf name) := by
  show state.checkExports.errors.eraseDups = _
  rw [errors_checkExports]
  refine eraseDups_append_of_fresh ?_ fun error conflict mem => ?_
  · exact state.nodup_conflictingExports.map fun _ _ same =>
      (Diagnostic.conflictingExports.inj same).1
  · obtain ⟨name, -, rfl⟩ := List.mem_map.1 conflict
    cases caused _ mem

/-- If every class that exports something is an entry point, then the conflicts that an analysis
reports past the check of the root class are those of the universe. -/
theorem analyze_exportConflicts {allow : Bool} {requirement : Requirement} {loader after : Loader}
    {analysis : Analysis} (ends : analyze allow requirement loader = (.ok analysis, after))
    (rooted : loader.knows.IsRooted)
    (entered : ∀ cls summary, loader.knows cls = some summary → summary.exports ≠ [] →
      cls ∈ loader.entryPoints) :
    ConflictsExact loader.knows analysis.errors := by
  rcases analyze_eq_result ends with ⟨_, _, idle, rfl⟩ | ⟨_, unrooted, _⟩ |
    ⟨root, steps, later, state, known, isRoot, loads, settles, rfl⟩
  · have silent : ∀ cls summary, loader.knows cls = some summary → summary.exports = [] := by
      intro cls summary known
      by_contra exporting
      have entry := entered cls summary known exporting
      rw [idle] at entry
      cases entry
    refine ⟨[], [], fun _ => [], rfl, by simp, .nil, fun name => ⟨.nil, by simp, ?_⟩, by simp⟩
    intro cls summary known _
    rw [silent cls summary known]
    rfl
  · exact absurd rooted unrooted
  · let setting := loader.settingFor allow requirement fun _ => True
    have fair : setting.IsFair := Loader.isFair_settingFor ⟨root, known, isRoot⟩
    obtain ⟨order, settled, turns⟩ := State.turns_of_settle fair known isRoot
      (Loader.Loads.knows loads).symm settles
    have rests := Turns.rests fair (State.valid_empty setting) turns (State.rests_empty setting)
    have caused := Turns.caused fair (fun _ => trivial) turns fun _ mem => by cases mem
    refine ⟨state.errors.eraseDups, state.conflictingExports, state.ownersOf,
      State.errors_result caused, fun name owners mem => ?_, state.sorted_conflictingExports,
      order.isExporters settled rests fun known exporting => entered _ _ known exporting,
      fun name => State.mem_conflictingExports⟩
    cases caused _ (List.mem_eraseDups.1 mem)

/-- In a loader that never fails, every class that exports something is an entry point. -/
theorem Loader.entered_ofDecls (decls : List ClassDecl) :
    ∀ cls summary, (Loader.ofDecls decls).knows cls = some summary → summary.exports ≠ [] →
      cls ∈ (Loader.ofDecls decls).entryPoints := by
  intro cls summary known exporting
  rw [Loader.knows_ofDecls] at known
  obtain ⟨entry, found, rfl⟩ := Option.map_eq_some_iff.1 known
  refine Loader.mem_entryPoints_ofDecls ⟨_, List.mem_singleton.2 rfl, found⟩ ?_
  have exporting : entry.decl.exports ≠ [] := fun none =>
    exporting (by simp [ClassDecl.summary, none])
  simp [ClassDecl.isEntryPoint, exporting]

/-- A class that exports a name twice, and one that extends itself and exports it as well. -/
def conflicting : List ClassDecl :=
  [.ofMethods .object .plain [] [],
    { ClassDecl.ofMethods ⟨"A"⟩ .plain [.object] [] with
      exports := [⟨"main", .function [] .skip⟩, ⟨"main", .function [] .skip⟩] },
    { ClassDecl.ofMethods ⟨"B"⟩ .plain [⟨"B"⟩] [] with
      exports := [⟨"main", .function [] .skip⟩] }]

/-- The first class is in conflict with itself. -/
theorem analyze_exportConflicts_twice :
    ∃ analysis after, analyze true .nothing (Loader.ofDecls conflicting) = (.ok analysis, after) ∧
      ∃ owners, .conflictingExports "main" owners ∈ analysis.errors ∧ owners.count ⟨"A"⟩ = 2 := by
  have told : (analyze true .nothing (Loader.ofDecls conflicting)).1.toOption.map
      (fun analysis => (analysis.class? ⟨"A"⟩).isSome) = some true := by
    decide +kernel
  obtain ⟨analysis, after, ends, linked⟩ := exists_of_toOption_map told
  have rooted : (Loader.ofDecls conflicting).knows.IsRooted :=
    ⟨(ClassDecl.ofMethods .object .plain [] []).summary, by decide +kernel, rfl⟩
  obtain ⟨others, names, owners, errors, -, -, exporters, several⟩ :=
    analyze_exportConflicts ends rooted (Loader.entered_ofDecls conflicting)
  -- The class is linked, so it reaches no cycle, and its exports count.
  obtain ⟨record, found⟩ := Option.isSome_iff_exists.1 linked
  obtain ⟨state, reaches, found, -⟩ := exists_reached_of_analyze ends found
  have known : ((Loader.ofDecls conflicting).knows ⟨"A"⟩).map (fun summary =>
      (summary.exports.map ExportSummary.name).count "main") = some 2 := by
    decide +kernel
  obtain ⟨summary, known, twice⟩ := Option.map_eq_some_iff.1 known
  have count : (owners "main").count ⟨"A"⟩ = 2 :=
    ((exporters "main").count known (reaches.valid.follows.links found).not_reachesCycle).trans
      twice
  have conflict : "main" ∈ names := (several "main").2 (Nat.lt_of_lt_of_le
    (by rw [count]; exact Nat.one_lt_two) List.count_le_length)
  refine ⟨analysis, after, ends, owners "main", ?_, count⟩
  rw [errors]
  exact List.mem_append_right _ (List.mem_map.2 ⟨"main", conflict, rfl⟩)

end ClassLinker
