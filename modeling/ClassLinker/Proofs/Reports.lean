import ClassLinker.Proofs.Effects

/-!
# What is reported when

Errors about parents and about inheritance cycles are raised by linking classes, together with the
classes being linked or failing. All other turns of a run settle no class, and report only how
classes and methods are used (`Turn.settles_or_uses`).
-/

namespace ClassLinker

variable {setting : Setting} {world : Universe} {state next : State}
variable {name other owner : ClassName} {cls record : ClassRecord} {task : Task}
variable {key : MethodKey} {entry : MethodRecord} {method : MethodName} {cause : Cause}
variable {errors : List Diagnostic}

/-- An error about how classes and methods are used. Only a class that does not exist is missing. -/
inductive Diagnostic.IsOfUse (world : Universe) : Diagnostic → Prop
  | notAModule (name : ClassName) (cause : Cause) : IsOfUse world (.notAModule name cause)
  | missingClass {name : ClassName} (unknown : world name = none) (cause : Cause) :
      IsOfUse world (.missingClass name cause)
  | missingMethod (id : MethodId) (cause : Cause) : IsOfUse world (.missingMethod id cause)
  | conflictingDefaults (methods : List MethodId) (cause : Cause) :
      IsOfUse world (.conflictingDefaults methods cause)

/-- Only errors of use have been reported. -/
def State.Reports (world : Universe) (before after : State) : Prop :=
  ∃ errors, after.errors = before.errors ++ errors ∧ ∀ error ∈ errors, error.IsOfUse world

namespace State.Reports

theorem of_eq (same : next.errors = state.errors) : state.Reports world next :=
  ⟨[], by rw [same, List.append_nil], fun _ mem => by cases mem⟩

theorem trans {first second third : State} (early : first.Reports world second)
    (late : second.Reports world third) : first.Reports world third := by
  obtain ⟨errors, same, ofUse⟩ := early
  obtain ⟨more, same', ofUse'⟩ := late
  exact ⟨errors ++ more, by rw [same', same, List.append_assoc],
    fun error mem => (List.mem_append.1 mem).elim (ofUse error) (ofUse' error)⟩

end State.Reports

/-! ### Tasks -/

theorem Landing.isOfUse (landing : Landing state name cause key owner cls entry errors) :
    ∀ error ∈ errors, error.IsOfUse world := by
  have conflicts : ∀ {method owners}, ∀ error ∈ conflictErrors method owners cause,
      error.IsOfUse world := by
    intro method owners error mem
    unfold conflictErrors at mem
    split at mem
    · cases mem
    · rw [List.mem_singleton.1 mem]
      exact .conflictingDefaults _ _
  have missing : ∀ {id : MethodId}, ∀ error ∈ [Diagnostic.missingMethod id cause],
      error.IsOfUse world := by
    intro id error mem
    rw [List.mem_singleton.1 mem]
    exact .missingMethod _ _
  cases landing with
  | resolved resolved =>
    cases resolved with
    | inherited => exact fun _ mem => by cases mem
    | default _ _ _ _ _ _ among => exact fun error mem => conflicts error (among mem)
    | missing => exact missing
    | bridge => exact conflicts
  | own | proxy => exact fun _ mem => by cases mem
  | absent => exact missing

/-- A class that is linked after a stroke has been linked before, with the same summary. -/
theorem Stroke.found_before (stroke : Stroke task state next)
    (found : next.class? name = some record) :
    ∃ cls, state.class? name = some cls ∧ record.summary = cls.summary := by
  cases stroke with
  | learn found' learns =>
    rw [State.class?_revise] at found
    split at found
    · rename_i same
      subst same
      cases found
      exact ⟨_, found', by cases learns <;> rfl⟩
    · exact ⟨record, found, rfl⟩
  | extend | report => exact ⟨record, found, rfl⟩
  | await new =>
    rw [show (state.await task.cls [task]).class? = _ from
      State.class?_setStatus (State.class?_eq_none_of_new new) rfl] at found
    exact ⟨record, found, rfl⟩
  | park status | parkLoaded status =>
    rw [State.class?_setStatus (State.class?_eq_none_of_status status rfl) rfl] at found
    exact ⟨record, found, rfl⟩

theorem Strokes.found_before (strokes : Strokes task state next)
    (found : next.class? name = some record) :
    ∃ cls, state.class? name = some cls ∧ record.summary = cls.summary := by
  induction strokes generalizing record with
  | refl => exact ⟨record, found, rfl⟩
  | tail _ stroke ih =>
    obtain ⟨middle, found, same⟩ := stroke.found_before found
    obtain ⟨cls, found, same'⟩ := ih found
    exact ⟨cls, found, same.trans same'⟩

theorem Strokes.reports (valid : state.Valid setting) (strokes : Strokes task state next) :
    state.Reports setting.world next := by
  induction strokes with
  | refl => exact .of_eq rfl
  | tail early stroke ih =>
    refine ih.trans ?_
    cases stroke with
    | learn | extend => exact .of_eq (List.append_nil _)
    | report wrong =>
      refine ⟨_, rfl, fun error mem => ?_⟩
      obtain rfl := List.mem_singleton.1 mem
      rcases wrong with rfl | ⟨rfl, record, found, missing⟩
      · exact .notAModule _ _
      · obtain ⟨cls, found, same⟩ := Strokes.found_before early found
        refine .missingClass ?_ _
        rw [← valid.follows.summary_eq found, ← same]
        simpa [ClassRecord.isPresent] using missing
    | await | park | parkLoaded => exact .of_eq rfl

/-- Doing a task reports errors of use only. -/
theorem Effects.reports (fair : setting.IsFair) (full : ∀ fact, setting.facts fact)
    (valid : state.Valid setting) (justified : setting.Justifies task)
    (effects : Effects task state next) : state.Reports setting.world next := by
  induction effects with
  | refl => exact .of_eq rfl
  | @tail middle final early effect ih =>
    have valid := Changes.valid fair (Effects.changes fair full valid justified early) valid
    refine ih.trans ?_
    rcases effect.strokes_or_lands fair valid justified with strokes | ⟨_, _, _, lands⟩
    · exact Strokes.reports valid strokes
    · cases lands with
      | intro _ landing => exact ⟨_, rfl, landing.isOfUse⟩

/-! ### Turns -/

/-- No class is settled, and only errors of use are reported. -/
structure State.Uses (setting : Setting) (before after : State) : Prop where
  grows : before.Grows after
  settled : ∀ {name}, after.IsSettledClass name → before.IsSettledClass name
  reports : before.Reports setting.world after

namespace State.Uses

/-- A class that is linked afterwards has been linked before, and has grown. -/
theorem found_before (uses : state.Uses setting next) (found : next.class? name = some record) :
    ∃ cls, state.class? name = some cls ∧ cls.Grows record := by
  rcases uses.settled (.inl ⟨record, found⟩) with ⟨cls, before⟩ | failed
  · obtain ⟨later, found', grows⟩ := uses.grows.classes before
    obtain rfl := Option.some.inj (found.symm.trans found')
    exact ⟨cls, before, grows⟩
  · have failed := uses.grows.failed failed
    rw [State.class?_eq_some.1 found] at failed
    cases failed

/-- A class that has failed afterwards has failed before. -/
theorem failed_before (uses : state.Uses setting next)
    (failed : next.status? name = some .failed) : state.status? name = some .failed := by
  rcases uses.settled (.inr failed) with ⟨cls, before⟩ | failed
  · obtain ⟨later, found, _⟩ := uses.grows.classes before
    rw [State.class?_eq_some.1 found] at failed
    cases failed
  · exact failed

end State.Uses

/-- A turn settles classes or makes use of those that are settled. -/
theorem Turn.settles_or_uses (fair : setting.IsFair) (full : ∀ fact, setting.facts fact)
    (turn : Turn setting state next) : LinkStep setting state next ∨ state.Uses setting next := by
  by_cases linking : LinkStep setting state next
  · exact .inl linking
  refine .inr ⟨Moves.grows (turn.moves fair), (turn.settled fair).resolve_right linking, ?_⟩
  cases turn with
  | @perform task rest order work =>
    have takes := order.takes work
    have reports := Effects.reports fair full takes.valid takes.justified
      (State.effects_perform fair full takes.valid takes.consistent takes.justified)
    exact reports
  | link step =>
    cases step with
    | settle step => exact absurd step linking
    | request | queue => exact .of_eq rfl
  | handOver | receive | root | ask => exact .of_eq rfl

end ClassLinker
