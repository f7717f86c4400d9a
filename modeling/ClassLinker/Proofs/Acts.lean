import ClassLinker.Proofs.Calls

/-!
# Steps that only concern linked classes

Whatever is done with a linked class, it changes linked classes and puts tasks on the list, but it
neither asks for classes nor links any. `Act setting scope state next` is such a step, where the
scope tells which classes instances may be created of, which modules may be read and which calls may
be noted on the way; nothing else of that kind happens (`Acts.within`).

Between tasks the state is `Consistent`: creating instances has reached all ancestors, and every
call noted on a class has been dispatched in all classes below that instances are created of. Some
steps keep it so if they look after what their scope lets happen (`Consistent.of_acts`).
-/

namespace ClassLinker

variable {setting : Setting} {state next : State}
variable {name other owner : ClassName} {cls record : ClassRecord}
variable {key : MethodKey} {entry : MethodRecord} {method : MethodName} {task : Task}

/-- What some steps are about: whose instances they create, which modules they read, and which
calls they note on which class. -/
structure Scope where
  created : ClassName → Prop := fun _ => False
  read : ClassName → Prop := fun _ => False
  noted : ClassName → MethodName × Cause → Prop := fun _ _ => False

/-- What has become more of a class lies within the scope. -/
structure ClassRecord.Within (scope : Scope) (before after : ClassRecord) : Prop where
  created : after.uses.instances = true → before.uses.instances = true ∨ scope.created before.name
  read : after.uses.module = true → before.uses.module = true ∨ scope.read before.name
  residents : ∀ other ∈ after.inhabited, other ∈ before.inhabited ∨ scope.created other
  calls : ∀ call ∈ after.calls, call ∈ before.calls ∨ scope.noted before.name call

/-- A step that only concerns linked classes. -/
inductive Act (setting : Setting) (scope : Scope) (state : State) : State → Prop
  | update {name : ClassName} {cls cls' : ClassRecord} {tasks : List Task}
      {errors : List Diagnostic} (found : state.class? name = some cls)
      (update : Update setting state cls cls' tasks errors) (within : cls.Within scope cls') :
      Act setting scope state (state.revise name cls' tasks errors)
  | extend {tasks : List Task} (errors : List Diagnostic)
      (justified : ∀ task ∈ tasks, setting.Justifies task) :
      Act setting scope state (state.extend tasks errors)

/-- Some steps that only concern linked classes. -/
abbrev Acts (setting : Setting) (scope : Scope) : State → State → Prop :=
  Relation.ReflTransGen (Act setting scope)

variable {scope : Scope}

namespace ClassRecord.Within

theorem refl (scope : Scope) (cls : ClassRecord) : cls.Within scope cls :=
  ⟨.inl, .inl, fun _ => .inl, fun _ => .inl⟩

theorem trans {first second third : ClassRecord} (early : first.Within scope second)
    (late : second.Within scope third) (same : second.name = first.name) :
    first.Within scope third where
  created h := (late.created h).elim early.created fun h => .inr (same ▸ h)
  read h := (late.read h).elim early.read fun h => .inr (same ▸ h)
  residents other mem := (late.residents other mem).elim (early.residents other) .inr
  calls call mem := (late.calls call mem).elim (early.calls call) fun h => .inr (same ▸ h)

end ClassRecord.Within

theorem Act.change (act : Act setting scope state next) : Change setting state next := by
  cases act with
  | update found update _ => exact .update found update
  | extend errors justified => exact .extend errors justified

theorem Acts.changes (acts : Acts setting scope state next) : Changes setting state next :=
  (Relation.ReflTransGen.mono fun _ _ => Act.change) _ _ acts

theorem Call.act (call : Call setting state next) : Act setting scope state next := by
  cases call with
  | @enter name cls cause key entry errors found enters =>
    have within : cls.Within scope (cls.withCall key entry cause) :=
      ⟨.inl, .inl, fun _ => .inl, fun _ => .inl⟩
    exact .update found (.call enters) within
  | report errors => exact .extend errors fun _ mem => by cases mem

theorem Calls.acts (calls : Calls setting state next) : Acts setting scope state next :=
  (Relation.ReflTransGen.mono fun _ _ => Call.act) _ _ calls

/-- Linked classes have been linked before, and have changed within the scope. -/
theorem Acts.within (acts : Acts setting scope state next)
    (found : next.class? name = some record) :
    ∃ cls, state.class? name = some cls ∧ cls.Within scope record := by
  induction acts generalizing record with
  | refl => exact ⟨record, found, .refl scope record⟩
  | @tail middle next early act ih =>
    obtain ⟨between, found', within⟩ :
        ∃ between, middle.class? name = some between ∧ between.Within scope record := by
      cases act with
      | @update changed cls _ _ _ found' _ within =>
        rw [State.class?_revise] at found
        split at found
        · rename_i same
          subst same
          cases found
          exact ⟨cls, found', within⟩
        · exact ⟨record, found, .refl scope record⟩
      | extend => exact ⟨record, found, .refl scope record⟩
    obtain ⟨cls, found, within'⟩ := ih found'
    obtain ⟨grown, found'', growth⟩ := (Changes.grows (Acts.changes early)).classes found
    obtain rfl := Option.some.inj (found'.symm.trans found'')
    exact ⟨cls, found, within'.trans within growth.name_eq⟩

/-- Classes that are not linked are left alone. -/
structure State.SameQueue (before after : State) : Prop where
  wanted : after.wanted = before.wanted
  unlinked : after.unlinked = before.unlinked
  status : ∀ {name}, before.class? name = none → after.status? name = before.status? name

theorem Acts.sameQueue (acts : Acts setting scope state next) : state.SameQueue next := by
  induction acts with
  | refl => exact ⟨rfl, rfl, fun _ => rfl⟩
  | @tail middle next _ act ih =>
    cases act with
    | @update changed cls record tasks errors found =>
      refine ⟨ih.wanted, ih.unlinked, fun {name} unlinked => ?_⟩
      rw [State.status?_revise, if_neg]
      · exact ih.status unlinked
      · rintro rfl
        have status := ih.status unlinked
        unfold State.class? at found unlinked
        rw [status, unlinked] at found
        cases found
    | extend => exact ⟨ih.wanted, ih.unlinked, ih.status⟩

/-- Steps made for the members of a list in turn. Each is made in a state that some steps lead to,
and some steps follow it. -/
theorem foldl_steps {σ α : Type} {R : σ → σ → Prop} {f : σ → α → σ} (list : List α) (start : σ)
    (each : ∀ s, Relation.ReflTransGen R start s → ∀ x ∈ list,
      Relation.ReflTransGen R s (f s x)) :
    Relation.ReflTransGen R start (list.foldl f start) ∧
      ∀ x ∈ list, ∃ s, Relation.ReflTransGen R start s ∧
        Relation.ReflTransGen R (f s x) (list.foldl f start) := by
  induction list generalizing start with
  | nil => exact ⟨.refl, fun _ mem => by cases mem⟩
  | cons first rest ih =>
    have head := each start .refl first List.mem_cons_self
    obtain ⟨tail, members⟩ := ih (f start first) fun s h x mem =>
      each s (head.trans h) x (List.mem_cons_of_mem _ mem)
    refine ⟨head.trans tail, fun x mem => ?_⟩
    rcases List.mem_cons.1 mem with rfl | mem
    · exact ⟨start, .refl, tail⟩
    · obtain ⟨s, before, after⟩ := members x mem
      exact ⟨s, head.trans before, after⟩

/-! ### Consistent states -/

theorem ClassKind.isOrdinary_of_isDefinedJS {kind : ClassKind} (h : kind.isDefinedJS = true) :
    kind.isOrdinary = false := by
  cases kind <;> first | rfl | cases h

theorem ClassKind.isDefinedJS_of_isOrdinary {kind : ClassKind} (h : kind.isOrdinary = true) :
    kind.isDefinedJS = false := by
  cases kind <;> first | rfl | cases h

/-- There are instances of the class, and all above it know. -/
def State.KnowsInstances (state : State) (name : ClassName) (cls : ClassRecord) : Prop :=
  if cls.kind.isOrdinary then
    ∀ ancestor ∈ cls.ancestors, ∃ record, state.class? ancestor = some record ∧
      record.hasInstances = true ∧ name ∈ record.inhabited
  else cls.hasInstances = true

namespace State.KnowsInstances

theorem above (knows : state.KnowsInstances name cls) (kind : cls.kind.isOrdinary = true)
    (mem : other ∈ cls.ancestors) : ∃ record, state.class? other = some record ∧
      record.hasInstances = true ∧ name ∈ record.inhabited := by
  rw [KnowsInstances, if_pos kind] at knows
  exact knows other mem

theorem hasInstances (knows : state.KnowsInstances name cls)
    (kind : cls.kind.isOrdinary = false) : cls.hasInstances = true := by
  rwa [KnowsInstances, kind, if_neg Bool.false_ne_true] at knows

theorem grows (knows : state.KnowsInstances name cls) (grows : state.Grows next)
    (growth : cls.Grows record) : next.KnowsInstances name record := by
  unfold KnowsInstances at knows ⊢
  rw [growth.kind_eq, growth.ancestors_eq]
  split at knows
  · rename_i kind
    rw [if_pos kind]
    intro ancestor mem
    obtain ⟨above, ha, has, resident⟩ := knows ancestor mem
    obtain ⟨later, hl, growth⟩ := grows.classes ha
    exact ⟨later, hl, growth.hasInstances has, growth.inhabited.subset resident⟩
  · rename_i kind
    rw [if_neg kind]
    exact growth.hasInstances knows

end State.KnowsInstances

/-- What creating instances, reading modules and noting calls entails has been seen to. -/
structure State.Consistent (state : State) : Prop where
  created : ∀ {name cls}, state.class? name = some cls → cls.uses.instances = true →
    state.KnowsInstances name cls
  read : ∀ {name cls}, state.class? name = some cls → cls.uses.module = true →
    cls.kind.isModule = true ∧ cls.uses.instances = true
  dispatched : ∀ {name cls other call}, state.class? name = some cls → other ∈ cls.inhabited →
    call ∈ cls.calls → state.Dispatched other call.1

/-- Steps keep a state consistent if they see to what is new. -/
theorem State.Consistent.of_acts (fair : setting.IsFair) (valid : state.Valid setting)
    (consistent : state.Consistent) (acts : Acts setting scope state next)
    (created : ∀ {name cls}, next.class? name = some cls → scope.created name →
      next.KnowsInstances name cls)
    (read : ∀ {name cls}, next.class? name = some cls → scope.read name →
      cls.kind.isModule = true ∧ cls.uses.instances = true)
    (dispatched : ∀ {name cls other call}, next.class? name = some cls → other ∈ cls.inhabited →
      call ∈ cls.calls → scope.created other ∨ scope.noted name call →
        next.Dispatched other call.1) : next.Consistent := by
  have grows := Changes.grows acts.changes
  have origin : ∀ {name record}, next.class? name = some record →
      ∃ cls, state.class? name = some cls ∧ cls.Within scope record ∧ cls.Grows record ∧
        cls.name = name := by
    intro name record found
    obtain ⟨cls, found', within⟩ := acts.within found
    obtain ⟨grown, found'', growth⟩ := grows.classes found'
    obtain rfl := Option.some.inj (found.symm.trans found'')
    exact ⟨cls, found', within, growth, valid.follows.name_eq found'⟩
  refine ⟨fun {name record} found uses => ?_, fun {name record} found uses => ?_,
    fun {name record other call} found resident noted => ?_⟩
  · obtain ⟨cls, found', within, growth, rfl⟩ := origin found
    rcases within.created uses with before | new
    · exact (consistent.created found' before).grows grows growth
    · exact created found new
  · obtain ⟨cls, found', within, growth, rfl⟩ := origin found
    rcases within.read uses with before | new
    · obtain ⟨kind, instances⟩ := consistent.read found' before
      exact ⟨growth.kind_eq ▸ kind, growth.created instances⟩
    · exact read found new
  · obtain ⟨cls, found', within, _, rfl⟩ := origin found
    rcases within.residents other resident with resident' | new
    · rcases within.calls call noted with noted' | new
      · obtain ⟨below, hb, _⟩ := valid.residents found' resident'
        exact Changes.dispatched fair valid acts.changes hb
          (consistent.dispatched found' resident' noted')
      · exact dispatched found resident noted (.inr new)
    · exact dispatched found resident noted (.inl new)

end ClassLinker
