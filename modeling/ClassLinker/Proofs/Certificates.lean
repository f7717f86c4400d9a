import ClassLinker.Proofs.Dispatching
import ClassLinker.Proofs.Terminal

/-!
# What an analysis without errors certifies

If an analysis finds no errors, the program that it has looked at is well formed:
`Analysis.Certified` lists what holds then, and `analyze_certifies` proves it. Nothing that could be
wrong is passed over in silence on the way:

* `Turn.checked`: a class that is linked without an error is linked as declared, with parents that
  exist and are of accepted kinds (`IsWellFormed`);
* `Change.exists_or_reported`: a method that does not exist is entered with an error only;
* `State.nodup_exports`: so is an export name that is there twice.
-/

namespace ClassLinker

variable {setting : Setting} {state next : State}
variable {name other : ClassName} {cls record : ClassRecord} {task : Task}
variable {summary : ClassSummary}

/-- The class is linked with exactly the parents that it declares. It has a super class if it needs
one, and all parents exist and are of kinds that it accepts. -/
structure IsWellFormed (classes : Lookup) (name : ClassName) (cls : ClassRecord)
    (summary : ClassSummary) : Prop where
  kind : cls.kind = summary.kind
  superClass : cls.superClass = summary.superClass
  interfaces : cls.interfaces = summary.interfaces
  declared : summary.kind.needsSuperClass = true → name ≠ .object →
    ∃ parent, summary.superClass = some parent
  above : ∀ {parent}, summary.superClass = some parent →
    ∃ record, classes parent = some record ∧ record.isPresent = true ∧
      summary.kind.mayExtend parent record.kind = true
  implemented : ∀ {interface}, interface ∈ summary.interfaces →
    ∃ record, classes interface = some record ∧ record.isPresent = true ∧
      record.kind = summary.kind.implementedKind

namespace Analysis

/-- The export name is one that the class declares. -/
def Declares (analysis : Analysis) (name : ClassName) (exported : String) : Prop :=
  ∃ cls summary, analysis.class? name = some cls ∧ cls.summary = some summary ∧
    exported ∈ summary.exports.map ExportSummary.name

/-- What an analysis without errors certifies of the classes that can be loaded. -/
structure Certified (analysis : Analysis) (world : Universe) (requirement : Requirement)
    (entryPoints : List ClassName) : Prop where
  /-- Only optional requirements ask for a class that does not exist. -/
  forgiven : ∀ {name cls task}, analysis.class? name = some cls → cls.isPresent = false →
    Demanded analysis.class? requirement entryPoints task → task.cls = name →
      task ∈ requirement.tasks false ∧ task.isOptional = true
  /-- No other class inherits from it. -/
  apart : ∀ {name cls other record}, analysis.class? name = some cls → cls.isPresent = false →
    analysis.class? other = some record → name ∈ record.ancestors → other = name
  /-- No class that has been looked at inherits from a cycle or lies on one. -/
  acyclic : ∀ {name other}, Touched world analysis.class? requirement entryPoints name →
    Relation.ReflTransGen world.Extends name other → ¬ Relation.TransGen world.Extends other other
  /-- Every class that exists is linked as declared. -/
  wellFormed : ∀ {name cls}, analysis.class? name = some cls → cls.isPresent = true →
    ∃ summary, world name = some summary ∧ cls.summary = some summary ∧
      IsWellFormed analysis.class? name cls summary
  /-- Every reachable method exists. -/
  present : ∀ {name cls key entry}, analysis.class? name = some cls →
    cls.method? key = some entry → entry.isReached = true → entry.isPresent = true
  /-- Every class that is read as a module is one. -/
  modules : ∀ {name cls}, analysis.class? name = some cls → cls.uses.module = true →
    cls.kind.isModule = true
  /-- No class exports a name twice. -/
  exportsOnce : ∀ {name cls summary}, analysis.class? name = some cls →
    cls.summary = some summary → (summary.exports.map ExportSummary.name).Nodup
  /-- No two classes export the same name. -/
  exportsApart : ∀ {name other exported}, analysis.Declares name exported →
    analysis.Declares other exported → name = other

end Analysis

/-! ### Classes that are linked without errors -/

theorem IsWellFormed.grows (wellFormed : IsWellFormed state.class? name cls summary)
    (grows : state.Grows next) (growth : cls.Grows record) :
    IsWellFormed next.class? name record summary where
  kind := growth.kind_eq.trans wellFormed.kind
  superClass := growth.superClass_eq.trans wellFormed.superClass
  interfaces := by
    show record.fresh.interfaces = _
    rw [growth.fresh_eq]
    exact wellFormed.interfaces
  declared := wellFormed.declared
  above extends_ := by
    obtain ⟨parent, found, present, accepted⟩ := wellFormed.above extends_
    obtain ⟨later, found', growth⟩ := grows.classes found
    exact ⟨later, found', growth.isPresent_eq ▸ present, growth.kind_eq ▸ accepted⟩
  implemented mem := by
    obtain ⟨parent, found, present, accepted⟩ := wellFormed.implemented mem
    obtain ⟨later, found', growth⟩ := grows.classes found
    exact ⟨later, found', growth.isPresent_eq ▸ present, growth.kind_eq ▸ accepted⟩

/-- A class whose parents pass the checks is linked as declared. -/
theorem ClassSummary.IsSound.isWellFormed {parents : ClassName → ClassRecord}
    (sound : summary.IsSound name parents)
    (above : ∀ parent ∈ summary.parents, state.class? parent = some (parents parent)) :
    IsWellFormed state.class? name (summary.linkedAs name parents) summary where
  kind := rfl
  superClass := by
    show summary.keptSuperClass name parents = summary.superClass
    unfold keptSuperClass
    cases declared : summary.superClass with
    | none => rfl
    | some parent =>
      obtain ⟨_, accepted⟩ := sound.superClass declared
      simp only [Option.bind_some, accepted, Bool.or_true, if_true]
  interfaces := by
    refine List.filter_eq_self.2 fun interface mem => ?_
    simp [(sound.interfaces mem).2]
  declared := sound.declared
  above extends_ :=
    ⟨_, above _ (List.mem_append_left _ (Option.mem_toList.2 extends_)), sound.superClass extends_⟩
  implemented mem := ⟨_, above _ (List.mem_append_right _ mem), sound.interfaces mem⟩

namespace State

/-- As long as there are no errors, every class that exists is linked as declared. -/
def Checked (setting : Setting) (state : State) : Prop :=
  state.errors = [] → ∀ name cls summary, state.class? name = some cls →
    setting.world name = some summary → IsWellFormed state.class? name cls summary

end State

theorem Turn.checked (fair : setting.IsFair) (valid : state.Valid setting)
    (turn : Turn setting state next) (checked : state.Checked setting) : next.Checked setting := by
  intro clean name record summary found known
  have grows := Moves.grows (turn.moves fair)
  have before_clean : state.errors = [] := by
    by_contra reported
    exact grows.reported reported clean
  have kept : ∀ cls, state.class? name = some cls →
      IsWellFormed next.class? name record summary := by
    intro cls before
    obtain ⟨_, found', growth⟩ := grows.classes before
    obtain rfl := Option.some.inj (found.symm.trans found')
    exact (checked before_clean name cls summary before known).grows grows growth
  rcases turn.settled fair with same | step
  · rcases same (.inl ⟨record, found⟩) with ⟨cls, before⟩ | failed
    · exact kept cls before
    · have failed := grows.failed failed
      rw [State.class?_eq_some.1 found] at failed
      cases failed
  · cases step with
    | absent status =>
      rw [State.class?_revise] at found
      split at found
      · rename_i same
        subst same
        rw [← valid.loaded status] at known
        cases known
      · exact kept _ found
    | link parents status above =>
      have found' := found
      rw [State.class?_revise] at found'
      split at found'
      · rename_i same
        subst same
        obtain rfl := Option.some.inj ((valid.loaded status).trans known)
        cases found'
        have none_new := (List.append_eq_nil_iff.1 clean).2
        have sound := ClassSummary.isSound_of_linkErrors none_new
        exact (sound.isWellFormed above).grows grows (.refl _)
      · exact kept _ found'
    | fail status =>
      rw [State.class?_setStatus (State.class?_eq_none_of_status status rfl) rfl] at found
      exact kept _ found
    | cycle _ loaded =>
      rw [State.class?_failCycle _ loaded] at found
      exact kept _ found

theorem Turns.checked (fair : setting.IsFair) (valid : state.Valid setting)
    (turns : Turns setting state next) (checked : state.Checked setting) :
    next.Checked setting := by
  induction turns with
  | refl => exact checked
  | tail early turn ih => exact turn.checked fair (Turns.valid fair early valid) ih

/-- Where every class is linked as declared, only classes that exist have classes below them. -/
theorem State.Valid.isPresent_of_mem (valid : state.Valid setting) (fair : setting.IsFair)
    (checked : state.Checked setting) (clean : state.errors = [])
    (found : state.class? name = some cls) (mem : other ∈ cls.ancestors) (ne : other ≠ name) :
    ∃ record, state.class? other = some record ∧ record.isPresent = true := by
  replace mem : other ∈ cls.fresh.ancestors := mem
  have links := valid.follows.links found
  generalize linked : cls.fresh = known at links mem
  induction name, known, links using Universe.Links.induct fair.rooted generalizing cls with
  | step name known links ih =>
    obtain rfl | ⟨parent, hp, above, ha, mem⟩ := (links.mem_ancestors fair.rooted).1 mem
    · exact absurd rfl ne
    · obtain ⟨summary, world_eq⟩ : ∃ summary, setting.world name = some summary := by
        cases h : setting.world name with
        | none =>
          cases links with
          | absent => cases hp
          | present _ known => rw [h] at known; cases known
        | some summary => exact ⟨summary, rfl⟩
      have wellFormed := checked clean name cls summary found world_eq
      obtain ⟨record, found', present⟩ :
          ∃ record, state.class? parent = some record ∧ record.isPresent = true := by
        subst linked
        rcases List.mem_append.1 hp with super | interface
        · have extends_ : cls.superClass = some parent := Option.mem_toList.1 super
          obtain ⟨record, found', present, _⟩ :=
            wellFormed.above (wellFormed.superClass.symm.trans extends_)
          exact ⟨record, found', present⟩
        · have mem : parent ∈ cls.interfaces := interface
          obtain ⟨record, found', present, _⟩ :=
            wellFormed.implemented (wellFormed.interfaces ▸ mem)
          exact ⟨record, found', present⟩
      by_cases same : other = parent
      · exact ⟨record, same ▸ found', present⟩
      · exact ih parent hp above ha found' same
          ((valid.follows.links found').unique ha) mem

/-! ### Methods that do not exist -/

/-- Every method that is known exists, or there are errors. -/
def State.Exists (state : State) : Prop :=
  ∀ name cls key entry, state.class? name = some cls → cls.method? key = some entry →
    entry.isPresent = true ∨ state.errors ≠ []

/-- A method that does not exist is entered with an error only. -/
theorem Change.exists_or_reported (change : Change setting state next) (all : state.Exists) :
    next.Exists := by
  intro name record key entry found has
  have same : ∀ {cls}, state.class? name = some cls → cls.method? key = some entry →
      entry.isPresent = true ∨ next.errors ≠ [] := fun before has =>
    (all _ _ _ _ before has).imp_right change.grows.reported
  rcases change.class_cases found with before | ⟨_, new⟩ | ⟨cls, tasks, errors, at_, update, rfl⟩
  · exact same before has
  · rw [← new] at has
    exact .inl (ClassRecord.declared_shape has).2.1
  · cases update with
    | use | creator | instances | inhabit | note => exact same at_ has
    | @call cause called method _ enters =>
      rw [ClassRecord.method?_withCall] at has
      split at has
      · rename_i at_key
        subst at_key
        cases has
        cases enters with
        | found before => exact (all _ _ _ _ at_ before).imp_right change.grows.reported
        | missing => exact .inr (List.append_ne_nil_of_right_ne_nil _ (List.cons_ne_nil _ _))
        | bridge | proxy => exact .inl rfl
      · exact same at_ has

theorem Moves.exists_or_reported (moves : Moves setting state next) (all : state.Exists) :
    next.Exists := by
  induction moves with
  | refl => exact all
  | tail _ move ih =>
    cases move with
    | change change => exact change.exists_or_reported ih
    | take => exact ih

/-! ### Exported names -/

namespace State

theorem errors_checkExports (state : State) :
    state.checkExports.errors = state.errors ++ state.conflictingExports.map fun name =>
      .conflictingExports name (state.ownersOf name) := by
  -- The owners of a name are the same before and after any report.
  have reports : ∀ (names : List String) (reported : State), reported.table = state.table →
      (names.foldl (fun state name =>
        state.report (.conflictingExports name (state.ownersOf name))) reported).errors =
          reported.errors ++ names.map fun name =>
            .conflictingExports name (state.ownersOf name) := by
    intro names
    induction names with
    | nil => exact fun _ _ => (List.append_nil _).symm
    | cons first rest ih =>
      intro reported table
      have owners : reported.ownersOf first = state.ownersOf first := by
        unfold ownersOf exportOwners
        rw [table]
      rw [List.foldl_cons,
        ih (reported.report (.conflictingExports first (reported.ownersOf first))) table,
        List.map_cons, owners]
      exact List.append_assoc _ [_] _
  exact reports _ _ rfl

/-- Apart from the errors of the state, a result has only errors about exports. -/
theorem mem_errors_or_conflict {error : Diagnostic} (mem : error ∈ state.result.errors) :
    error ∈ state.errors ∨ ∃ name owners, error = .conflictingExports name owners := by
  have mem : error ∈ state.checkExports.errors := List.mem_eraseDups.1 mem
  rw [errors_checkExports] at mem
  refine (List.mem_append.1 mem).imp_right fun mem => ?_
  obtain ⟨name, _, same⟩ := List.mem_map.1 mem
  exact ⟨name, _, same.symm⟩

/-- If no name is in conflict, every name is exported once. -/
theorem nodup_exports (clean : state.conflictingExports = []) :
    (state.exportOwners.map Prod.fst).Nodup := by
  refine List.nodup_iff_count_le_one.2 fun name => ?_
  have owners : (state.exportOwners.map Prod.fst).count name = (state.ownersOf name).length := by
    rw [ownersOf, List.length_map, ← List.countP_eq_length_filter, List.count, List.countP_map]
    exact List.countP_congr fun owned _ => by simp
  rw [owners]
  by_contra several
  have exported : name ∈ state.exportOwners.map Prod.fst := by
    refine List.count_pos_iff.1 ?_
    omega
  have conflict : name ∈ state.conflictingExports :=
    List.mem_mergeSort.2 (List.mem_filter.2 ⟨List.mem_eraseDups.2 exported, by simpa using several⟩)
  rw [clean] at conflict
  cases conflict

/-- The names that a class in the table exports. -/
def exportsOf (entry : ClassName × Status) : List String :=
  match entry.2.record?.bind ClassRecord.summary with
  | some summary => summary.exports.map ExportSummary.name
  | none => []

theorem exportOwners_names (state : State) :
    state.exportOwners.map Prod.fst = state.table.toList.flatMap exportsOf := by
  rw [exportOwners, List.map_flatMap]
  refine List.flatMap_congr fun entry _ => ?_
  unfold exportsOf
  cases entry.2.record?.bind ClassRecord.summary <;> simp

theorem exists_of_class? (found : state.class? name = some cls)
    (known : cls.summary = some summary) : ∃ entry ∈ state.table.toList, entry.1 = name ∧
      exportsOf entry = summary.exports.map ExportSummary.name := by
  refine ⟨(name, .linked cls), Std.ExtTreeMap.mem_toList_iff_getElem?_eq_some.2
    (class?_eq_some.1 found), rfl, ?_⟩
  simp [exportsOf, Status.record?, known]

section

variable (unconflicting : state.conflictingExports = [])

include unconflicting

/-- Where no names conflict, a class exports each of its names once. -/
theorem nodup_exports_of_class (found : state.class? name = some cls)
    (known : cls.summary = some summary) :
    (summary.exports.map ExportSummary.name).Nodup := by
  have nodup := nodup_exports unconflicting
  rw [exportOwners_names, List.nodup_flatMap] at nodup
  obtain ⟨entry, mem, _, names⟩ := exists_of_class? found known
  exact names ▸ nodup.1 entry mem

/-- Where no names conflict, two classes that export the same name are one. -/
theorem eq_of_exports {record : ClassRecord} {other : ClassName} {summary' : ClassSummary}
    {exported : String}
    (found : state.class? name = some cls) (known : cls.summary = some summary)
    (mem : exported ∈ summary.exports.map ExportSummary.name)
    (found' : state.class? other = some record) (known' : record.summary = some summary')
    (mem' : exported ∈ summary'.exports.map ExportSummary.name) : name = other := by
  have nodup := nodup_exports unconflicting
  rw [exportOwners_names, List.nodup_flatMap] at nodup
  obtain ⟨entry, listed, rfl, names⟩ := exists_of_class? found known
  obtain ⟨entry', listed', rfl, names'⟩ := exists_of_class? found' known'
  by_contra ne
  have symmetric : Std.Symm (Function.onFun List.Disjoint exportsOf) :=
    ⟨fun _ _ disjoint => List.Disjoint.symm disjoint⟩
  have apart := nodup.2.forall listed listed' fun h => ne (congrArg Prod.fst h)
  exact apart (names.symm ▸ mem) (names'.symm ▸ mem')

end

/-- A result without errors is one of a run without errors, in which no exported names conflict. -/
theorem clean_of_result (clean : state.result.isClean = true) :
    state.errors = [] ∧ state.conflictingExports = [] := by
  have unreported : state.checkExports.errors = [] := by
    refine List.eq_nil_iff_forall_not_mem.2 fun error mem => ?_
    have mem : error ∈ state.result.errors := List.mem_eraseDups.2 mem
    rw [List.isEmpty_iff.1 clean] at mem
    cases mem
  rwa [errors_checkExports, List.append_eq_nil_iff, List.map_eq_nil_iff] at unreported

end State

/-! ### What is asked for -/

theorem Demands.required_of_mem_tasks {demands : Demands} {cause : Cause}
    (mem : task ∈ demands.tasks cause) : task.isOptional = false := by
  obtain ⟨_, _, same⟩ := Demands.mem_tasks.1 mem
  rw [same]

namespace State

theorem required_of_mem_entryTasks (mem : task ∈ entryTasks cls) : task.isOptional = false := by
  unfold entryTasks at mem
  split at mem
  · cases mem
  · rcases List.mem_append.1 mem with mem | mem
    · split at mem
      · rw [List.mem_singleton.1 mem]
      · cases mem
    · obtain ⟨item, _, mem⟩ := List.mem_flatMap.1 mem
      exact Demands.required_of_mem_tasks mem

theorem required_of_mem_methodTasks {entry : MethodRecord} (mem : task ∈ methodTasks cls entry) :
    task.isOptional = false := by
  unfold methodTasks at mem
  simp only at mem
  split at mem
  · rw [List.mem_singleton.1 mem]
  · rw [List.mem_singleton.1 mem]
  · split at mem
    · split at mem
      · exact Demands.required_of_mem_tasks mem
      · cases mem
    · cases mem

theorem required_of_mem_instanceDues (mem : task ∈ cls.instanceDues) :
    task.isOptional = false := by
  have members : ∀ {task}, task ∈ exportedMemberTasks cls → task.isOptional = false := by
    intro task mem
    unfold exportedMemberTasks at mem
    split at mem
    · cases mem
    · obtain ⟨member, _, mem⟩ := List.mem_flatMap.1 mem
      exact Demands.required_of_mem_tasks mem
  rcases List.mem_append.1 mem with mem | mem
  · rcases List.mem_append.1 mem with mem | mem
    · split at mem
      · obtain ⟨_, _, rfl⟩ := List.mem_map.1 mem
        rfl
      · cases mem
    · unfold instanceTasks at mem
      split at mem
      · cases mem
      · rcases List.mem_append.1 mem with mem | mem
        · split at mem
          · cases mem
          · exact members mem
        · obtain ⟨_, _, rfl⟩ := List.mem_map.1 mem
          rfl
  · exact members mem

/-- Where there are no errors, what is demanded is there, unless a requirement makes it optional. -/
theorem InOrder.isPresent_of_demanded (order : state.InOrder setting)
    (settled : state.isSettled = true) (clean : state.errors = [])
    (demanded : Demanded state.class? setting.requirement setting.entryPoints task) :
    (∃ cls, state.class? task.cls = some cls ∧ cls.isPresent = true) ∨
      task ∈ setting.requirement.tasks false ∧ task.isOptional = true := by
  have covered : ∀ {task}, state.Covers task → task.isOptional = false →
      ∃ cls, state.class? task.cls = some cls ∧ cls.isPresent = true := by
    intro task covers required
    obtain ⟨cls, found, present, _⟩ := order.exists_of_covers settled clean covers required
    exact ⟨cls, found, present⟩
  cases demanded with
  | required mem =>
    cases optional : task.isOptional with
    | true => exact .inr ⟨mem, rfl⟩
    | false => exact .inl (covered (order.accounted (.inl (List.mem_append_left _ mem))) optional)
  | entry mem =>
    refine .inl (covered (order.accounted (.inl (List.mem_append_right _ ?_))) rfl)
    exact List.mem_map.2 ⟨_, mem, rfl⟩
  | entered entry found mem =>
    obtain ⟨demand, action⟩ := exists_of_mem_entryTasks mem
    obtain ⟨cls, found', present, _⟩ := order.provides_entry settled clean entry found mem
      (required_of_mem_entryTasks mem) action
    exact .inl ⟨cls, found', present⟩
  | body found has reached mem =>
    exact .inl (covered (order.accounted (.inr (.body found has reached mem)))
      (required_of_mem_methodTasks mem))
  | instances found has mem =>
    exact .inl (covered (order.accounted (.inr (.instances found has mem)))
      (required_of_mem_instanceDues mem))

/-- The result of a run that ends without errors certifies that the program is well formed. -/
theorem InOrder.certified (fair : setting.IsFair) (order : state.InOrder setting)
    (settled : state.isSettled = true) (rests : state.Rests setting)
    (checked : state.Checked setting) (all : state.Exists) (clean : state.result.isClean = true) :
    state.result.Certified setting.world setting.requirement setting.entryPoints := by
  have same : state.result.class? = state.class? := funext state.class?_result
  have valid := order.valid
  obtain ⟨clean, unconflicting⟩ := clean_of_result clean
  have known : ∀ {name cls}, state.class? name = some cls → cls.isPresent = true →
      ∃ summary, setting.world name = some summary ∧ cls.summary = some summary := by
    intro name cls found present
    obtain ⟨summary, h⟩ := Option.isSome_iff_exists.1 present
    exact ⟨summary, (valid.follows.summary_eq found).symm.trans h, h⟩
  refine ⟨?_, ?_, ?_, ?_, ?_, ?_, ?_, ?_⟩
  · intro name cls task found missing demanded cls_eq
    rw [same] at found demanded
    rcases order.isPresent_of_demanded settled clean demanded with ⟨_, found', present⟩ | optional
    · rw [cls_eq, found] at found'
      obtain rfl := Option.some.inj found'
      rw [missing] at present
      cases present
    · exact optional
  · intro name cls other record found missing found' mem
    rw [same] at found found'
    by_contra ne
    obtain ⟨_, above, present⟩ :=
      valid.isPresent_of_mem fair checked clean found' mem (Ne.symm ne)
    obtain rfl := Option.some.inj (found.symm.trans above)
    rw [missing] at present
    cases present
  · intro name other touched leads cycle
    rw [same] at touched
    rcases order.isSettledClass_of_touched settled rests touched with ⟨cls, found⟩ | failed
    · obtain ⟨record, links⟩ := (valid.follows.links found).exists_of_extends leads
      exact links.not_extends_itself cycle
    · exact valid.reported failed clean
  · intro name cls found present
    rw [same] at found ⊢
    obtain ⟨summary, world_eq, h⟩ := known found present
    exact ⟨summary, world_eq, h, checked clean name cls summary found world_eq⟩
  · intro name cls key entry found has _
    rw [same] at found
    exact (all _ _ _ _ found has).resolve_right fun reported => reported clean
  · intro name cls found read
    rw [same] at found
    exact (order.consistent.read found read).1
  · intro name cls summary found h
    rw [same] at found
    exact nodup_exports_of_class unconflicting found h
  · rintro name other exported ⟨first, _, found, h, mem⟩ ⟨second, _, found', h', mem'⟩
    rw [same] at found found'
    exact eq_of_exports unconflicting found h mem found' h' mem'

end State

/-! ### Analyses -/

/-- An analysis that knows some class and finds no errors certifies that the program is well
formed. -/
theorem analyze_certifies {allowForwarders : Bool} {requirement : Requirement}
    {loader after : Loader} {analysis : Analysis}
    (ends : analyze allowForwarders requirement loader = (.ok analysis, after))
    (clean : analysis.isClean = true) (nonempty : analysis.classes ≠ ∅) :
    analysis.Certified loader.knows requirement loader.entryPoints := by
  rcases analyze_eq_result ends with ⟨_, _, _, rfl⟩ | ⟨_, _, empty⟩ |
    ⟨root, steps, later, state, known, isRoot, loads, settles, rfl⟩
  · exact absurd rfl nonempty
  · exact absurd empty nonempty
  · let setting := loader.settingFor allowForwarders requirement fun _ => True
    have fair : setting.IsFair := Loader.isFair_settingFor ⟨root, known, isRoot⟩
    have valid := State.valid_empty setting
    obtain ⟨order, settled, turns⟩ := State.turns_of_settle fair known isRoot
      (Loader.Loads.knows loads).symm settles
    have checked := Turns.checked fair valid turns fun _ name cls _ found _ => by
      rw [State.class?_blank] at found; cases found
    have all := Moves.exists_or_reported (Turns.moves fair turns) fun name cls _ _ found _ => by
      rw [State.class?_blank] at found; cases found
    exact order.certified fair settled (Turns.rests fair valid turns (State.rests_empty setting))
      checked all clean

/-- A class that implements an interface. -/
def implementing : List ClassDecl :=
  [.ofMethods .object .plain [] [],
    .ofMethods ⟨"I"⟩ .interface [] [],
    .ofMethods ⟨"A"⟩ .plain [.object, ⟨"I"⟩]
      [.plain .constructor .defaultConstructor (some .skip)]]

/-- Instances of the class are asked for, and the data of one that does not exist, if possible. -/
def forgiving : Requirement :=
  .every [.instances "test" ⟨"A"⟩ .defaultConstructor, .optional (.typeData "test" ⟨"X"⟩)]

/-- The class that does not exist is forgiven, and nothing else is wrong. -/
theorem analyze_certifies_forgiving :
    ∃ analysis after, analyze true forgiving (Loader.ofDecls implementing) = (.ok analysis, after) ∧
      analysis.Certified (Loader.ofDecls implementing).knows forgiving
        (Loader.ofDecls implementing).entryPoints := by
  have told : (analyze true forgiving (Loader.ofDecls implementing)).1.toOption.map
      (fun analysis => (analysis.isClean, analysis.classes.isEmpty)) = some (true, false) := by
    decide +kernel
  generalize ends : analyze true forgiving (Loader.ofDecls implementing) = outcome at told
  obtain ⟨_ | analysis, after⟩ := outcome
  · cases told
  · obtain ⟨clean, nonempty⟩ := Prod.mk.inj (Option.some.inj told)
    refine ⟨analysis, after, rfl, analyze_certifies ends clean fun empty => ?_⟩
    rw [empty, Std.ExtTreeMap.isEmpty_empty] at nonempty
    cases nonempty

end ClassLinker
