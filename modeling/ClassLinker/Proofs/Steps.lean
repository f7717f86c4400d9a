import ClassLinker.Proofs.Tasks

/-!
# One step of the work list

`State.Queued` says that the queues of a state hold what they are to hold: `wanted` the awaited
classes, each once, and `unlinked` at least those that are loaded. A loaded class waits for one that
is awaited. `State.performs` is doing the first task.
-/

namespace ClassLinker

variable {setting : Setting} {state next : State}
variable {name other : ClassName} {cls record : ClassRecord} {task : Task}

/-- The class is linked or has failed. -/
def State.IsSettledClass (state : State) (name : ClassName) : Prop :=
  (∃ cls, state.class? name = some cls) ∨ state.status? name = some .failed

/-- The classes that are awaited are wanted, each once. -/
structure State.Asks (state : State) : Prop where
  nodup : state.wanted.Nodup
  wanted : ∀ {name}, name ∈ state.wanted ↔ ∃ parked, state.status? name = some (.awaited parked)

/-- The queues hold the classes that are awaited, and at least those that are loaded. As long as
there is a loaded class, some class is awaited. -/
structure State.Queued (state : State) : Prop extends state.Asks where
  unlinked : ∀ {name}, state.isLoaded name = true → name ∈ state.unlinked
  waits : ∀ {name}, state.isLoaded name = true → state.wanted ≠ []

namespace State

theorem isLoaded_iff : state.isLoaded name = true ↔
    ∃ summary parked, state.status? name = some (.loaded summary parked) := by
  unfold isLoaded
  cases state.status? name with
  | none => simp
  | some status => cases status <;> simp [Status.isLoaded]

/-- The queues depend on the classes that are not linked only. -/
theorem Queued.congr (queued : state.Queued) (same : state.SameQueue next)
    (grows : state.Grows next) : next.Queued := by
  have status : ∀ {name status}, status.record? = none →
      (next.status? name = some status ↔ state.status? name = some status) := by
    intro name status unlinked
    cases found : state.class? name with
    | none => rw [same.status found]
    | some cls =>
      obtain ⟨record, found', _⟩ := grows.classes found
      rw [class?_eq_some.1 found, class?_eq_some.1 found']
      constructor <;> · intro h; cases h; cases unlinked
  have loaded : ∀ {name}, next.isLoaded name = true ↔ state.isLoaded name = true := by
    intro name
    simp only [isLoaded_iff]
    exact exists_congr fun summary => exists_congr fun parked => status rfl
  refine ⟨⟨same.wanted ▸ queued.nodup, fun {name} => ?_⟩, fun {name} h => ?_, fun {name} h => ?_⟩
  · rw [same.wanted, queued.wanted]
    exact exists_congr fun parked => (status rfl).symm
  · rw [same.unlinked]; exact queued.unlinked (loaded.1 h)
  · rw [same.wanted]; exact queued.waits (loaded.1 h)

/-- A class that is not linked gets more tasks parked, or is awaited from now on. -/
theorem Queued.setStatus (queued : state.Queued) {status : Status}
    (awaited : (∃ parked, status = .awaited parked) ↔
      ∃ parked, state.status? name = some (.awaited parked))
    (loaded : status.isLoaded = true → state.isLoaded name = true) :
    (state.setStatus name status).Queued := by
  have still : ∀ {other}, (state.setStatus name status).isLoaded other = true →
      state.isLoaded other = true := by
    intro other h
    unfold isLoaded at h
    rw [status?_setStatus] at h
    split at h
    · rename_i same
      subst same
      exact loaded h
    · exact h
  refine ⟨⟨queued.nodup, fun {other} => ?_⟩, fun {other} h => queued.unlinked (still h),
    fun {other} h => queued.waits (still h)⟩
  rw [status?_setStatus]
  show other ∈ state.wanted ↔ _
  rw [queued.wanted]
  split
  · rename_i same
    subst same
    rw [← awaited]
    simp only [Option.some.injEq]
  · rfl

theorem status?_await (parked : List Task) : (state.await name parked).status? other =
    if name = other then some (.awaited parked) else state.status? other :=
  status?_setStatus ..

/-- Asking for a class loads none. -/
theorem isLoaded_of_await {parked : List Task}
    (loaded : (state.await name parked).isLoaded other = true) : state.isLoaded other = true := by
  unfold isLoaded at loaded
  rw [status?_await] at loaded
  split at loaded
  · cases loaded
  · exact loaded

theorem Asks.await (asks : state.Asks) (new : state.status? name = none) (parked : List Task) :
    (state.await name parked).Asks := by
  refine ⟨?_, fun {other} => ?_⟩
  · refine List.nodup_append.2 ⟨asks.nodup, by simp, fun a ha b hb => ?_⟩
    rintro rfl
    obtain rfl := List.mem_singleton.1 hb
    obtain ⟨_, h⟩ := asks.wanted.1 ha
    rw [new] at h; cases h
  · rw [status?_await]
    show other ∈ state.wanted ++ [name] ↔ _
    rw [List.mem_append, asks.wanted, List.mem_singleton]
    split
    · rename_i same
      exact ⟨fun _ => ⟨_, rfl⟩, fun _ => .inr same.symm⟩
    · rename_i ne
      exact ⟨fun h => h.resolve_right fun same => ne same.symm, .inl⟩

theorem Queued.await (queued : state.Queued) (new : state.status? name = none)
    (parked : List Task) : (state.await name parked).Queued where
  toAsks := queued.toAsks.await new parked
  unlinked loaded := queued.unlinked (isLoaded_of_await loaded)
  waits _ := List.append_ne_nil_of_right_ne_nil _ (List.cons_ne_nil _ _)

/-- What is kept and what is achieved by doing a task. -/
structure Does (setting : Setting) (before : State) (task : Task) (after : State) : Prop where
  changes : Changes setting before after
  queued : before.Queued → after.Queued
  consistent : before.Consistent → after.Consistent
  covers : after.Covers task
  modules : ∀ {name record}, after.class? name = some record → record.uses.module = true →
    record.kind.isOrdinary = true →
      (∃ cls, before.class? name = some cls ∧ cls.uses.module = true) ∨
        ∃ cause, constructorTask name cause ∈ after.work
  settled : ∀ {name}, after.IsSettledClass name → before.IsSettledClass name
  made : ∀ {name record other call}, after.class? name = some record →
    other ∈ record.inhabited → call ∈ record.calls →
      (∃ cls, before.class? name = some cls ∧ other ∈ cls.inhabited ∧ call ∈ cls.calls) ∨
        State.Made setting before after other call

theorem Performs.does (performs : state.Performs setting next) (covers : next.Covers task) :
    state.Does setting task next := by
  refine ⟨performs.changes,
    fun queued => queued.congr performs.sameQueue (Changes.grows performs.changes),
    performs.consistent, covers, performs.modules, fun {name} settled => ?_, performs.made⟩
  cases found : state.class? name with
  | some cls => exact .inl ⟨cls, found⟩
  | none =>
    have same := performs.sameQueue.status found
    rcases settled with ⟨cls, linked⟩ | failed
    · rw [class?, same] at linked
      exact absurd (found.symm.trans linked) (by simp)
    · exact .inr (same ▸ failed)

/-- Classes that are linked already stay as they are while tasks are parked. -/
theorem Does.of_class?_eq (fair : setting.IsFair) (valid : state.Valid setting)
    (changes : Changes setting state next) (same : next.class? = state.class?)
    (failed : ∀ {name}, next.status? name = some .failed → state.status? name = some .failed)
    (queued : state.Queued → next.Queued) (covers : next.Covers task) :
    state.Does setting task next := by
  refine ⟨changes, queued, fun consistent => ?_, covers, fun {name record} found uses _ => ?_,
    fun settled => settled.imp (fun ⟨cls, found⟩ => ⟨cls, same ▸ found⟩) failed,
    fun found resident noted => .inl ⟨_, same ▸ found, resident, noted⟩⟩
  · refine ⟨fun {name cls} found uses => ?_, fun {name cls} found uses => ?_,
      fun {name cls other call} found resident noted => ?_⟩
    · exact (consistent.created (same ▸ found) uses).grows (Changes.grows changes) (.refl _)
    · exact consistent.read (same ▸ found) uses
    · obtain ⟨below, hb, _⟩ := valid.residents (same ▸ found) resident
      exact Changes.dispatched fair valid changes hb
        (consistent.dispatched (same ▸ found) resident noted)
  · exact .inl ⟨record, same ▸ found, uses⟩

/-- A task for a linked class is done. -/
theorem performs_linked (fair : setting.IsFair) (valid : state.Valid setting)
    (consistent : state.Consistent) (found : state.class? task.cls = some cls)
    (justified : setting.Justifies task) :
    state.Performs setting (state.perform task) ∧ (state.perform task).Covers task := by
  have h := class?_eq_some.1 found
  cases present : cls.isPresent with
  | true =>
    have same : state.perform task = state.act cls task.action task.cause := by
      simp only [perform, h, present, if_true]
    obtain ⟨performs, settles⟩ := performs_act fair valid consistent found present justified
    rw [same]
    exact ⟨performs, .inr settles⟩
  | false =>
    have idle : ∀ {next : State}, next.class? = state.class? →
        task.isOptional = true ∨ next.errors ≠ [] → next.Covers task := fun same spares =>
      .inr ⟨cls, same ▸ found, .inr spares, fun h => by rw [present] at h; cases h⟩
    cases optional : task.isOptional with
    | true =>
      have same : state.perform task = state := by
        simp only [perform, h, present, optional, Bool.false_eq_true, if_false, if_true]
      rw [same]
      exact ⟨.of_acts fair valid .refl, idle rfl (.inl optional)⟩
    | false =>
      have same : state.perform task =
          state.extend [] [.missingClass task.cls task.cause] := by
        rw [← report_eq]
        simp only [perform, h, present, optional, Bool.false_eq_true, if_false]
      rw [same]
      have acts : Acts setting {} state (state.extend [] [.missingClass task.cls task.cause]) :=
        .single (.extend _ fun _ mem => by cases mem)
      refine ⟨.of_acts fair valid acts, idle rfl (.inr ?_)⟩
      exact List.append_ne_nil_of_right_ne_nil _ (List.cons_ne_nil _ _)

/-- A task is done, or parked with its class, or its class has failed. -/
theorem performs (fair : setting.IsFair) (valid : state.Valid setting)
    (consistent : state.Consistent) (justified : setting.Justifies task) :
    state.Does setting task (state.perform task) := by
  have parks : ∀ {status : Status}, (state.setStatus task.cls status).status? task.cls =
      some status := by
    intro status
    rw [status?_setStatus, if_pos rfl]
  have unfailed : ∀ {status : Status} {name}, status ≠ .failed →
      (state.setStatus task.cls status).status? name = some .failed →
        state.status? name = some .failed := by
    intro status name ne failed
    rw [status?_setStatus] at failed
    split at failed
    · exact absurd (Option.some.inj failed) ne
    · exact failed
  cases h : state.status? task.cls with
  | none =>
    have same : state.perform task = state.await task.cls [task] := by
      simp only [perform, h]
    have unlinked : state.class? task.cls = none := class?_eq_none_of_new h
    rw [same]
    refine .of_class?_eq fair valid (.single (.await h fun _ mem => ?_))
      (class?_setStatus unlinked rfl) (unfailed (by simp)) (fun queued => queued.await h _)
      (.inl (.inr ⟨_, parks, .inl List.mem_cons_self⟩))
    rw [List.mem_singleton.1 mem]
    exact justified
  | some status =>
    cases status with
    | awaited parked =>
      have same : state.perform task =
          state.setStatus task.cls (.awaited (parked ++ [task])) := by simp only [perform, h]
      rw [same]
      refine .of_class?_eq fair valid (.single (.park h justified))
        (class?_setStatus (class?_eq_none_of_status h rfl) rfl) (unfailed (by simp))
        (fun queued => queued.setStatus ⟨fun _ => ⟨_, h⟩, fun _ => ⟨_, rfl⟩⟩ (fun h => by cases h))
        (.inl (.inr ⟨_, parks, .inl (List.mem_append_right _ List.mem_cons_self)⟩))
    | loaded summary parked =>
      have same : state.perform task =
          state.setStatus task.cls (.loaded summary (parked ++ [task])) := by simp only [perform, h]
      rw [same]
      refine .of_class?_eq fair valid (.single (.parkLoaded h justified))
        (class?_setStatus (class?_eq_none_of_status h rfl) rfl) (unfailed (by simp))
        (fun queued => queued.setStatus ?_ fun _ => isLoaded_iff.2 ⟨_, _, h⟩)
        (.inl (.inr ⟨_, parks, .inl (List.mem_append_right _ List.mem_cons_self)⟩))
      rw [h]
      constructor <;> rintro ⟨_, ⟨⟩⟩
    | failed =>
      have same : state.perform task = state := by simp only [perform, h]
      rw [same]
      exact .of_class?_eq fair valid .refl rfl id id (.inl (.inr ⟨_, h, .inr rfl⟩))
    | linked cls =>
      obtain ⟨performs, covers⟩ :=
        performs_linked fair valid consistent (class?_eq_some.2 h) justified
      exact performs.does covers

end State

end ClassLinker
