import ClassLinker.Proofs.Search

/-!
# Taking in classes

Between two tasks, summaries are taken in and every class is linked whose ancestors are available.

* `State.Advances`: nothing happens to linked classes on the way, and classes that get linked have
  neither instances nor calls, so the state stays consistent (`State.Advances.consistent`);
* `State.advances_linkAvailable`: linking what can be linked leaves a loaded class only where some
  class is awaited;
* `State.advances_receiveAll`: whatever was awaited is loaded once the answers have been taken in.
-/

namespace ClassLinker

variable {setting : Setting} {state next : State}
variable {name other : ClassName} {cls record : ClassRecord}

namespace State

/-- Linked classes stay as they are, and others may have been linked. -/
structure Advances (setting : Setting) (before after : State) : Prop where
  changes : Changes setting before after
  stays : ∀ {name cls}, before.class? name = some cls → after.class? name = some cls
  links : ∀ {name record}, after.class? name = some record →
    before.class? name = some record ∨ before.class? name = none ∧ record.fresh = record

namespace Advances

theorem refl (setting : Setting) (state : State) : state.Advances setting state :=
  ⟨.refl, id, .inl⟩

theorem trans {first second third : State} (early : first.Advances setting second)
    (late : second.Advances setting third) : first.Advances setting third where
  changes := early.changes.trans late.changes
  stays := late.stays ∘ early.stays
  links {name record} found := by
    rcases late.links found with between | ⟨unlinked, fresh⟩
    · exact early.links between
    · refine .inr ⟨?_, fresh⟩
      by_contra linked
      obtain ⟨cls, before⟩ := Option.ne_none_iff_exists'.1 linked
      rw [early.stays before] at unlinked
      cases unlinked

theorem of_class?_eq (changes : Changes setting state next) (same : next.class? = state.class?) :
    state.Advances setting next :=
  ⟨changes, fun found => same ▸ found, fun found => .inl (same ▸ found)⟩

/-- Classes that get linked have nothing that would have to be seen to. -/
theorem consistent (fair : setting.IsFair) (valid : state.Valid setting)
    (advances : state.Advances setting next) (consistent : state.Consistent) : next.Consistent := by
  have grows := Changes.grows advances.changes
  refine ⟨fun {name cls} found uses => ?_, fun {name cls} found uses => ?_,
    fun {name cls other call} found resident noted => ?_⟩
  · rcases advances.links found with before | ⟨_, fresh⟩
    · exact (consistent.created before uses).grows grows (.refl _)
    · rw [← fresh] at uses; cases uses
  · rcases advances.links found with before | ⟨_, fresh⟩
    · exact consistent.read before uses
    · rw [← fresh] at uses; cases uses
  · rcases advances.links found with before | ⟨_, fresh⟩
    · obtain ⟨below, hb, _⟩ := valid.residents before resident
      exact Changes.dispatched fair valid advances.changes hb
        (consistent.dispatched before resident noted)
    · rw [← fresh] at resident; cases resident

end Advances

/-- Classes have been asked for or settled, and none has been loaded. -/
structure Settling (setting : Setting) (before after : State) : Prop
    extends Advances setting before after where
  asks : before.Asks → after.Asks
  isLoaded : ∀ {name}, after.isLoaded name = true → before.isLoaded name = true
  wanted : before.wanted ⊆ after.wanted

namespace Settling

theorem refl (setting : Setting) (state : State) : state.Settling setting state :=
  ⟨.refl .., id, id, List.Subset.refl _⟩

theorem trans {first second third : State} (early : first.Settling setting second)
    (late : second.Settling setting third) : first.Settling setting third where
  toAdvances := early.toAdvances.trans late.toAdvances
  asks := late.asks ∘ early.asks
  isLoaded := early.isLoaded ∘ late.isLoaded
  wanted := fun _ mem => late.wanted (early.wanted mem)

theorem wanted_ne_nil (settling : state.Settling setting next) (some : state.wanted ≠ []) :
    next.wanted ≠ [] := by
  obtain ⟨first, rest, h⟩ := List.exists_cons_of_ne_nil some
  exact List.ne_nil_of_mem (settling.wanted (h ▸ List.mem_cons_self))

end Settling

end State

theorem LinkStep.settling (step : LinkStep setting state next) :
    state.Settling setting next := by
  have progress := step.progress
  refine ⟨⟨LinkSteps.changes (.single step), fun {name cls} found => ?_,
      fun {name record} found => ?_⟩,
    fun asks => ⟨?_, fun {name} => ?_⟩, progress.isLoaded, fun _ mem => progress.wanted ▸ mem⟩
  · rcases progress.status name with same | ⟨loaded, _⟩
    · rw [State.class?_eq_some] at found ⊢
      rw [same, found]
    · exact absurd loaded (State.IsSettledClass.not_loaded (.inl ⟨cls, found⟩))
  · cases step with
    | absent status =>
      rw [State.class?_revise] at found
      split at found
      · rename_i same
        cases found
        exact .inr ⟨same ▸ State.class?_eq_none_of_status status rfl, rfl⟩
      · exact .inl found
    | link _ status =>
      rw [State.class?_revise] at found
      split at found
      · rename_i same
        cases found
        exact .inr ⟨same ▸ State.class?_eq_none_of_status status rfl, rfl⟩
      · exact .inl found
    | fail status =>
      rw [State.class?_setStatus (State.class?_eq_none_of_status status rfl) rfl] at found
      exact .inl found
    | cycle _ loaded =>
      rw [State.class?_failCycle _ loaded] at found
      exact .inl found
  · rw [progress.wanted]
    exact asks.nodup
  · rw [progress.wanted, asks.wanted]
    rcases progress.status name with same | ⟨loaded, settled⟩
    · rw [same]
    · obtain ⟨summary, parked, before⟩ := State.isLoaded_iff.1 loaded
      rw [before]
      rcases settled with ⟨cls, found⟩ | failed
      · rw [State.class?_eq_some.1 found]; simp
      · rw [failed]; simp

theorem LinkSteps.settling (steps : LinkSteps setting state next) :
    state.Settling setting next := by
  induction steps with
  | refl => exact .refl _ _
  | tail _ step ih => exact ih.trans step.settling

namespace State

/-! ### Asking for classes -/

/-- Asking for a class makes no class available. -/
theorem isAvailable_request (name other : ClassName) :
    (state.request name).isAvailable other = state.isAvailable other := by
  unfold request
  split
  · rename_i new
    unfold isAvailable
    rw [status?_await]
    by_cases same : name = other
    · rw [if_pos same, ← same, new]
    · rw [if_neg same]
  · rfl

/-- A class that is asked for is awaited, if it is not available. -/
theorem settling_request (name : ClassName) :
    state.Settling setting (state.request name) ∧
      (state.Asks → state.isAvailable name = false → (state.request name).wanted ≠ []) ∧
      (state.isAvailable name = true → state.request name = state) := by
  cases h : state.status? name with
  | none =>
    have same : state.request name = state.await name [] := by simp only [request, h]
    have unlinked : state.class? name = none := class?_eq_none_of_new h
    rw [same]
    refine ⟨⟨.of_class?_eq (.single (.await h fun _ mem => (by cases mem)))
        (class?_setStatus unlinked rfl), fun asks => asks.await h [], isLoaded_of_await,
        List.subset_append_left ..⟩, fun _ _ => ?_, fun available => ?_⟩
    · exact List.append_ne_nil_of_right_ne_nil _ (List.cons_ne_nil _ _)
    · simp only [isAvailable, h, Bool.false_eq_true] at available
  | some status =>
    have same : state.request name = state := by simp only [request, h]
    rw [same]
    refine ⟨.refl _ _, fun asks missing => ?_, fun _ => rfl⟩
    cases status with
    | awaited parked => exact List.ne_nil_of_mem (asks.wanted.2 ⟨parked, h⟩)
    | loaded | linked | failed => simp only [isAvailable, h, Bool.true_eq_false] at missing

theorem settling_requests (names : List ClassName) :
    state.Settling setting (names.foldl State.request state) ∧
      (state.Asks → ∀ name ∈ names, state.isAvailable name = false →
        (names.foldl State.request state).wanted ≠ []) ∧
      ((∀ name ∈ names, state.isAvailable name = true) →
        names.foldl State.request state = state) := by
  induction names generalizing state with
  | nil => exact ⟨.refl _ _, fun _ _ mem => (by cases mem), fun _ => rfl⟩
  | cons first rest ih =>
    obtain ⟨asked, wants, idle⟩ := @settling_request setting state first
    obtain ⟨later, wants', idle'⟩ := @ih (state.request first)
    simp only [List.foldl_cons]
    refine ⟨asked.trans later, fun asks name mem missing => ?_, fun available => ?_⟩
    · rcases List.mem_cons.1 mem with rfl | mem
      · exact later.wanted_ne_nil (wants asks missing)
      · exact wants' (asked.asks asks) name mem ((isAvailable_request ..).trans missing)
    · have same := idle (available first List.mem_cons_self)
      rw [same] at idle' ⊢
      exact idle' fun name mem => available name (List.mem_cons_of_mem _ mem)

/-! ### Linking what can be linked -/

/-- A class that is loaded is one of the known names. -/
theorem contains_knownNames (known : ∃ status, state.status? name = some status) :
    state.knownNames.contains name = true := by
  obtain ⟨status, h⟩ := known
  have key : name ∈ state.table.keys := by
    rw [Std.ExtTreeMap.mem_keys, Std.ExtTreeMap.mem_iff_isSome_getElem?]
    exact Option.isSome_iff_exists.2 ⟨status, h⟩
  simp only [knownNames, Std.ExtTreeSet.contains_ofList, List.contains_eq_mem, decide_eq_true_eq]
  exact List.mem_append_left _ key

/-- So are the parents that a loaded class names. -/
theorem contains_knownNames_of_mem {child parent : ClassName}
    (mem : parent ∈ state.openParents child) : state.knownNames.contains parent = true := by
  have key : child ∈ state.table.keys := by
    rw [Std.ExtTreeMap.mem_keys, Std.ExtTreeMap.mem_iff_isSome_getElem?]
    unfold openParents at mem
    split at mem
    · rename_i h
      exact Option.isSome_iff_exists.2 ⟨_, h⟩
    · cases mem
  simp only [knownNames, Std.ExtTreeSet.contains_ofList, List.contains_eq_mem, decide_eq_true_eq]
  exact List.mem_append_right _ (List.mem_flatMap.2 ⟨child, key, mem⟩)

/-- The lineage of a class holds everything that it inherits from, as far as loaded. -/
theorem isReady_of_lineage (loaded : state.isLoaded name = true)
    (available : ∀ above ∈ state.lineage name, state.isAvailable above = true) :
    state.IsReady name := by
  intro above reaches
  refine available above (mem_preorder List.mem_cons_self ?_ ?_)
  · obtain ⟨_, _, h⟩ := isLoaded_iff.1 loaded
    exact contains_knownNames ⟨_, h⟩
  · refine (Relation.ReflTransGen.mono fun child parent mem => ?_) _ _ reaches
    exact ⟨List.mem_reverse.2 mem, contains_knownNames_of_mem mem⟩

/-- There are no more loaded classes than classes in the table. -/
theorem isBounded_size (state : State) : state.IsBounded state.table.size := by
  intro names nodup loaded
  have sub : names ⊆ state.table.keys := by
    intro name mem
    rw [Std.ExtTreeMap.mem_keys, Std.ExtTreeMap.mem_iff_isSome_getElem?]
    obtain ⟨_, _, h⟩ := isLoaded_iff.1 (loaded name mem)
    exact Option.isSome_iff_exists.2 ⟨_, h⟩
  rw [← Std.ExtTreeMap.length_keys]
  exact (List.subperm_of_subset nodup sub).length_le

/-- A loaded class is settled if everything that it inherits from is available. -/
theorem linkSteps_linkIfReady (fair : setting.IsFair) (valid : state.Valid setting)
    (first : state.RootFirst) (loaded : state.isLoaded name = true)
    (available : ∀ above ∈ state.lineage name, state.isAvailable above = true) :
    LinkSteps setting state (state.linkIfReady name) ∧
      (state.linkIfReady name).IsSettledClass name := by
  have idle := (@settling_requests setting state (state.lineage name)).2.2 available
  have ready : (state.lineage name).all state.isAvailable = true := List.all_eq_true.2 available
  simp only [linkIfReady, loaded, awaitParents, ready, if_true, idle]
  have searches : Searches setting state state.table.size name [] :=
    ⟨valid, first, isBounded_size state,
      fun cls mem => List.mem_singleton.1 mem ▸ isReady_of_lineage loaded available,
      List.isChain_singleton _, by simp, fun cls mem => List.mem_singleton.1 mem ▸ loaded⟩
  obtain ⟨steps, outcome⟩ := linkSteps_linkAbove fair (state.table.size + 1) searches (by simp)
  exact ⟨steps, outcome.isSettledClass⟩

/-- A loaded class gets settled, unless some class is awaited. -/
theorem settling_linkIfReady (fair : setting.IsFair) (valid : state.Valid setting)
    (first : state.RootFirst) (asks : state.Asks) (name : ClassName) :
    state.Settling setting (state.linkIfReady name) ∧
      ((state.linkIfReady name).isLoaded name = true → (state.linkIfReady name).wanted ≠ []) := by
  by_cases loaded : state.isLoaded name = true
  · cases ready : (state.lineage name).all state.isAvailable with
    | true =>
      obtain ⟨steps, settled⟩ :=
        linkSteps_linkIfReady fair valid first loaded (List.all_eq_true.1 ready)
      exact ⟨steps.settling, fun still => absurd still settled.not_loaded⟩
    | false =>
      obtain ⟨asked, wants, _⟩ := @settling_requests setting state (state.lineage name)
      obtain ⟨above, mem, missing⟩ := List.all_eq_false.1 ready
      simp only [linkIfReady, loaded, awaitParents, ready, if_true, Bool.false_eq_true, if_false]
      exact ⟨asked, fun _ => wants asks above mem (Bool.eq_false_iff.2 missing)⟩
  · simp only [linkIfReady, loaded, Bool.false_eq_true, if_false]
    exact ⟨.refl _ _, False.elim⟩

theorem settling_linkAll (fair : setting.IsFair) (valid : state.Valid setting)
    (first : state.RootFirst) (asks : state.Asks) (names : List ClassName) :
    state.Settling setting (names.foldl State.linkIfReady state) ∧
      ∀ name ∈ names, (names.foldl State.linkIfReady state).isLoaded name = true →
        (names.foldl State.linkIfReady state).wanted ≠ [] := by
  induction names generalizing state with
  | nil => exact ⟨.refl _ _, fun _ mem => (by cases mem)⟩
  | cons head rest ih =>
    obtain ⟨early, waits⟩ := settling_linkIfReady fair valid first asks head
    obtain ⟨later, waits'⟩ := ih (Changes.valid fair early.changes valid)
      (first.mono early.isLoaded (Changes.grows early.changes)) (early.asks asks)
    refine ⟨early.trans later, fun name mem loaded => ?_⟩
    rcases List.mem_cons.1 mem with rfl | mem
    · exact later.wanted_ne_nil (waits (later.isLoaded loaded))
    · exact waits' name mem loaded

/-- After linking what can be linked, a loaded class waits for one that is awaited. -/
theorem advances_linkAvailable (fair : setting.IsFair) (valid : state.Valid setting)
    (first : state.RootFirst) (asks : state.Asks)
    (listed : ∀ {name}, state.isLoaded name = true → name ∈ state.unlinked) :
    state.Advances setting state.linkAvailable ∧ state.linkAvailable.Queued := by
  let start : State := { state with unlinked := [] }
  let linked := state.unlinked.foldl State.linkIfReady start
  have begins : Changes setting state start := .single (.queue state.wanted [])
  obtain ⟨settling, waits⟩ := @settling_linkAll setting start fair
    (Changes.valid fair begins valid) first ⟨asks.nodup, asks.wanted⟩ state.unlinked
  have ends : Changes setting linked state.linkAvailable :=
    .single (.queue linked.wanted (state.unlinked.filter linked.isLoaded))
  refine ⟨(Advances.of_class?_eq begins rfl).trans
    (settling.toAdvances.trans (.of_class?_eq ends rfl)), ?_⟩
  have asks' := settling.asks ⟨asks.nodup, asks.wanted⟩
  refine ⟨⟨asks'.nodup, asks'.wanted⟩, fun {name} loaded => ?_, fun {name} loaded => ?_⟩
  · exact List.mem_filter.2 ⟨listed (settling.isLoaded loaded), loaded⟩
  · exact waits name (listed (settling.isLoaded loaded)) loaded

/-! ### Taking in answers -/

theorem isLoaded_receive {summary : Option ClassSummary}
    (loaded : (state.receive name summary).isLoaded other = true) :
    other = name ∨ state.isLoaded other = true := by
  by_cases same : other = name
  · exact .inl same
  · right
    unfold isLoaded at loaded ⊢
    rwa [show (state.receive name summary).status? other = _ from status?_setStatus ..,
      if_neg (Ne.symm same)] at loaded

/-- Classes that are awaited get loaded when the answers for them are taken in. -/
theorem advances_receiveAll
    {answers : List (ClassName × Except LoadError (Option ClassSummary))} {after : State}
    (received : state.receiveAll answers = .ok after)
    (correct : ∀ name summary, (name, .ok summary) ∈ answers → summary = setting.world name)
    (nodup : (answers.map Prod.fst).Nodup)
    (awaited : ∀ name ∈ answers.map Prod.fst, ∃ parked,
      state.status? name = some (.awaited parked))
    (listed : ∀ {name}, state.isLoaded name = true → name ∈ state.unlinked) :
    state.Advances setting after ∧ after.wanted = state.wanted ∧
      (∀ {name}, after.isLoaded name = true → name ∈ after.unlinked) ∧
      ∀ {name parked}, after.status? name = some (.awaited parked) →
        state.status? name = some (.awaited parked) ∧ name ∉ answers.map Prod.fst := by
  induction answers generalizing state with
  | nil =>
    cases received
    exact ⟨.refl _ _, rfl, listed, fun h => ⟨h, List.not_mem_nil⟩⟩
  | cons answer rest ih =>
    obtain ⟨name, _ | summary⟩ := answer
    · cases received
    · obtain rfl := correct name summary List.mem_cons_self
      obtain ⟨fresh, nodup⟩ := List.nodup_cons.1 nodup
      obtain ⟨parked, status⟩ := awaited name List.mem_cons_self
      have unseen : ∀ other, state.status? name = some other → ∃ parked, other = .awaited parked :=
        fun other h => ⟨parked, (Option.some.inj (status.symm.trans h)).symm⟩
      have others : ∀ other, other ≠ name →
          (state.receive name (setting.world name)).status? other = state.status? other :=
        fun other ne => (status?_setStatus ..).trans (if_neg ne.symm)
      have taken : state.Advances setting (state.receive name (setting.world name)) :=
        .of_class?_eq (.single (.receive unseen))
          (class?_setStatus (class?_eq_none_of_status status rfl) rfl)
      obtain ⟨later, wanted, listed', awaited'⟩ := @ih (state.receive name (setting.world name))
        received (fun other summary mem => correct other summary (List.mem_cons_of_mem _ mem))
        nodup (fun other mem => by
          rw [others other (by rintro rfl; exact fresh mem)]
          exact awaited other (List.mem_cons_of_mem _ mem))
        (fun {other} loaded => by
          rcases isLoaded_receive loaded with rfl | loaded
          · exact List.mem_append_right _ List.mem_cons_self
          · exact List.mem_append_left _ (listed loaded))
      refine ⟨taken.trans later, wanted, listed', fun {other parked'} h => ?_⟩
      obtain ⟨before, apart⟩ := awaited' h
      have ne : other ≠ name := by
        rintro rfl
        rw [show (state.receive other (setting.world other)).status? other = _ from
          status?_setStatus .., if_pos rfl] at before
        cases before
      rw [others other ne] at before
      exact ⟨before, fun mem => (List.mem_cons.1 mem).elim ne apart⟩

end State

end ClassLinker
