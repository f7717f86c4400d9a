import ClassLinker.Proofs.Outcomes

/-!
# The turns of a run

`Change` tells what a run may do to its state, whatever the order. Some properties need to know more
exactly what a run does: which task is done, that only parents of loaded classes are asked for, and
in what state of its parents a class is linked. `Turn setting state next` tells this. Every run is a
sequence of turns (`State.turns_start`, `State.turns_settle`), so what every turn preserves holds in
the end.
-/

namespace ClassLinker

variable {setting : Setting} {state next : State}
variable {name other : ClassName} {cls record : ClassRecord} {task : Task}

/-- One step of linking what can be linked. -/
inductive Linking (setting : Setting) (state : State) : State → Prop
  /-- A loaded class is linked or fails. -/
  | settle {next : State} (step : LinkStep setting state next) : Linking setting state next
  /-- A parent that a loaded class names is asked for. -/
  | request {child parent : ClassName} (declares : parent ∈ state.openParents child)
      (new : state.status? parent = none) : Linking setting state (state.await parent [])
  /-- The list of classes to link is set. -/
  | queue (unlinked : List ClassName) : Linking setting state { state with unlinked }

/-- Some steps of linking what can be linked. -/
abbrev Linkings (setting : Setting) : State → State → Prop :=
  Relation.ReflTransGen (Linking setting)

/-- One turn of a run. -/
inductive Turn (setting : Setting) (state : State) : State → Prop
  /-- The first task is done. -/
  | perform {task : Task} {rest : List Task} (order : state.InOrder setting)
      (work : state.work = task :: rest) :
      Turn setting state ({ state with work := rest }.perform task)
  | link {next : State} (linking : Linking setting state next) : Turn setting state next
  /-- The classes that are wanted are handed over to be loaded. -/
  | handOver : Turn setting state { state with wanted := [] }
  /-- The summary of an awaited class is taken in. -/
  | receive {name : ClassName} {parked : List Task}
      (awaited : state.status? name = some (.awaited parked)) :
      Turn setting state (state.receive name (setting.world name))
  /-- The summary of the root class is taken in before anything else. -/
  | root (blank : state = { allowForwarders := setting.allow }) :
      Turn setting state (state.receive .object (setting.world .object))
  /-- The tasks that the run begins with are put on the list. -/
  | ask : Turn setting state (state.addTasks setting.rootTasks)

/-- Some turns of a run. -/
abbrev Turns (setting : Setting) : State → State → Prop :=
  Relation.ReflTransGen (Turn setting)

theorem LinkSteps.linkings (steps : LinkSteps setting state next) : Linkings setting state next :=
  (Relation.ReflTransGen.mono fun _ _ => Linking.settle) _ _ steps

theorem Linkings.turns (linkings : Linkings setting state next) : Turns setting state next :=
  (Relation.ReflTransGen.mono fun _ _ => Turn.link) _ _ linkings

theorem Linking.changes (linking : Linking setting state next) : Changes setting state next := by
  cases linking with
  | settle step => exact step.changes
  | request _ new => exact .single (.await new fun _ mem => by cases mem)
  | queue unlinked => exact .single (.queue state.wanted unlinked)

theorem Linkings.changes (linkings : Linkings setting state next) : Changes setting state next := by
  induction linkings with
  | refl => exact .refl
  | tail _ linking ih => exact ih.trans linking.changes

/-- A turn is some moves. -/
theorem Turn.moves (fair : setting.IsFair) (turn : Turn setting state next) :
    Moves setting state next := by
  cases turn with
  | @perform task rest order work =>
    have takes := order.takes work
    have does := State.performs fair takes.valid takes.consistent takes.justified
    exact .head (.take (work ▸ List.subset_cons_self ..)) (Changes.moves does.changes)
  | link linking => exact Changes.moves linking.changes
  | handOver => exact .single (.change (.queue [] state.unlinked))
  | receive awaited =>
    exact .single (.change (.receive fun status h => ⟨_, Option.some.inj (h.symm.trans awaited)⟩))
  | root blank =>
    refine .single (.change (.receive fun status h => ?_))
    rw [blank, State.status?_blank] at h
    cases h
  | ask =>
    rw [State.addTasks_eq]
    exact .single (.change (.extend [] fun _ mem => Setting.justifies_rootTasks fair mem))

theorem Turns.moves (fair : setting.IsFair) (turns : Turns setting state next) :
    Moves setting state next := by
  induction turns with
  | refl => exact .refl
  | tail _ turn ih => exact ih.trans (turn.moves fair)

theorem Turns.valid (fair : setting.IsFair) (turns : Turns setting state next)
    (valid : state.Valid setting) : next.Valid setting :=
  Moves.valid fair (Turns.moves fair turns) valid

/-- Only linking settles classes. -/
theorem Turn.settled (fair : setting.IsFair) (turn : Turn setting state next) :
    (∀ {name}, next.IsSettledClass name → state.IsSettledClass name) ∨
      LinkStep setting state next := by
  have unsettled : ∀ {status : Status} {changed name : ClassName}, status.record? = none →
      status ≠ .failed → state.class? changed = none →
        (state.setStatus changed status).IsSettledClass name → state.IsSettledClass name := by
    intro status changed name unlinked unfailed before settled
    rcases settled with ⟨cls, found⟩ | failed
    · rw [State.class?_setStatus before unlinked] at found
      exact .inl ⟨cls, found⟩
    · rcases State.status_of_setStatus failed with ⟨_, same⟩ | failed
      · exact absurd same.symm unfailed
      · exact .inr failed
  have received : ∀ {changed name : ClassName}, state.class? changed = none →
      (state.receive changed (setting.world changed)).IsSettledClass name →
        state.IsSettledClass name := by
    intro changed name unlinked settled
    obtain ⟨parked, same, _⟩ := state.receive_eq changed (setting.world changed)
    rw [same] at settled
    exact unsettled rfl (by simp) unlinked settled
  cases turn with
  | perform order work =>
    have takes := order.takes work
    exact .inl (State.performs fair takes.valid takes.consistent takes.justified).settled
  | link linking =>
    cases linking with
    | settle step => exact .inr step
    | @request _ asked _ new =>
      have unlinked : state.class? asked = none := State.class?_eq_none_of_new new
      exact .inl (unsettled rfl (by simp) unlinked)
    | queue => exact .inl id
  | receive awaited => exact .inl (received (State.class?_eq_none_of_status awaited rfl))
  | root blank =>
    subst blank
    exact .inl (received (State.class?_blank ..))
  | handOver | ask => exact .inl id

/-- A turn does a task, or leaves everything linked as it is. -/
theorem Turn.cases_perform (fair : setting.IsFair) (turn : Turn setting state next) :
    state.Advances setting next ∨ ∃ task rest, state.InOrder setting ∧ state.work = task :: rest ∧
      next = ({ state with work := rest } : State).perform task := by
  have keeps : ∀ {name : ClassName} {status : Status} {after : State}, Changes setting state after →
      state.class? name = none → status.record? = none →
        after.class? = (state.setStatus name status).class? → state.Advances setting after :=
    fun changes unlinked bare same =>
      .of_class?_eq changes (same.trans (State.class?_setStatus unlinked bare))
  have receives : ∀ {name : ClassName}, (∀ status, state.status? name = some status →
      ∃ parked, status = .awaited parked) →
        state.Advances setting (state.receive name (setting.world name)) := by
    intro name unseen
    obtain ⟨parked, same, _⟩ := state.receive_eq name (setting.world name)
    have unlinked := State.class?_eq_none_of_unseen unseen
    refine @keeps name (.loaded (setting.world name) parked) _ (.single (.receive unseen)) unlinked
      rfl ?_
    rw [same]
    rfl
  cases turn with
  | perform order work => exact .inr ⟨_, _, order, work, rfl⟩
  | link linking =>
    cases linking with
    | settle step => exact .inl step.settling.toAdvances
    | @request _ parent _ new =>
      have unlinked : state.class? parent = none := State.class?_eq_none_of_new new
      exact .inl (keeps (.single (.await new fun _ mem => by cases mem)) unlinked rfl rfl)
    | queue unlinked => exact .inl (.of_class?_eq (.single (.queue state.wanted unlinked)) rfl)
  | handOver => exact .inl (.of_class?_eq (.single (.queue [] state.unlinked)) rfl)
  | receive awaited =>
    exact .inl (receives fun status h => ⟨_, Option.some.inj (h.symm.trans awaited)⟩)
  | root blank =>
    refine .inl (receives fun status h => ?_)
    rw [blank, State.status?_blank] at h
    cases h
  | ask =>
    refine .inl (.of_class?_eq ?_ rfl)
    rw [State.addTasks_eq]
    exact .single (.extend [] fun _ mem => Setting.justifies_rootTasks fair mem)

namespace State

/-! ### Linking what can be linked -/

theorem openParents_await (new : state.status? name = none) (parked : List Task)
    (other : ClassName) :
    (state.await name parked).openParents other = state.openParents other := by
  unfold openParents
  rw [status?_await]
  by_cases same : name = other
  · rw [if_pos same, ← same, new]
  · rw [if_neg same]

/-- Asking for declared parents of loaded classes. -/
theorem linkings_requests (names : List ClassName)
    (declared : ∀ name ∈ names, state.status? name = none →
      ∃ child, name ∈ state.openParents child) :
    Linkings setting state (names.foldl State.request state) := by
  induction names generalizing state with
  | nil => exact .refl
  | cons first rest ih =>
    cases h : state.status? first with
    | none =>
      have same : state.request first = state.await first [] := by simp only [request, h]
      obtain ⟨child, declares⟩ := declared first List.mem_cons_self h
      rw [List.foldl_cons, same]
      refine .head (.request declares h) (ih fun name mem new => ?_)
      rw [status?_await] at new
      split at new
      · cases new
      · obtain ⟨child, declares⟩ := declared name (List.mem_cons_of_mem _ mem) new
        exact ⟨child, (openParents_await h [] child).symm ▸ declares⟩
    | some status =>
      have same : state.request first = state := by simp only [request, h]
      rw [List.foldl_cons, same]
      exact ih fun name mem => declared name (List.mem_cons_of_mem _ mem)

/-- What a loaded class inherits from, apart from itself, is named as a parent. -/
theorem exists_of_mem_lineage (loaded : state.isLoaded name = true)
    (mem : other ∈ state.lineage name) (new : state.status? other = none) :
    ∃ child, other ∈ state.openParents child := by
  obtain ⟨start, pending, leads⟩ := exists_of_mem_preorder mem
  obtain rfl := List.mem_singleton.1 pending
  rcases Relation.ReflTransGen.cases_tail leads with rfl | ⟨child, _, edge⟩
  · obtain ⟨_, _, h⟩ := isLoaded_iff.1 loaded
    rw [h] at new
    cases new
  · exact ⟨child, List.mem_reverse.1 edge⟩

theorem linkings_linkIfReady (fair : setting.IsFair) (valid : state.Valid setting)
    (first : state.RootFirst) (name : ClassName) :
    Linkings setting state (state.linkIfReady name) := by
  by_cases loaded : state.isLoaded name = true
  · cases ready : (state.lineage name).all state.isAvailable with
    | true =>
      exact LinkSteps.linkings
        (linkSteps_linkIfReady fair valid first loaded (List.all_eq_true.1 ready)).1
    | false =>
      simp only [linkIfReady, loaded, awaitParents, ready, if_true, Bool.false_eq_true, if_false]
      exact linkings_requests _ fun other mem new => exists_of_mem_lineage loaded mem new
  · simp only [linkIfReady, loaded, Bool.false_eq_true, if_false]
    exact .refl

theorem linkings_linkAvailable (fair : setting.IsFair) (valid : state.Valid setting)
    (first : state.RootFirst) (asks : state.Asks) :
    Linkings setting state state.linkAvailable := by
  have linkAll : ∀ (names : List ClassName) {state : State}, state.Valid setting →
      state.RootFirst → state.Asks →
        Linkings setting state (names.foldl State.linkIfReady state) := by
    intro names
    induction names with
    | nil => exact fun _ _ _ => .refl
    | cons head rest ih =>
      intro state valid first asks
      obtain ⟨settling, _⟩ := settling_linkIfReady fair valid first asks head
      exact (linkings_linkIfReady fair valid first head).trans
        (ih (Changes.valid fair settling.changes valid)
          (first.mono settling.isLoaded (Changes.grows settling.changes)) (settling.asks asks))
  let start : State := { state with unlinked := [] }
  have begins : Changes setting state start := .single (.queue state.wanted [])
  have links := linkAll state.unlinked (Changes.valid fair begins valid) first
    ⟨asks.nodup, asks.wanted⟩
  exact .head (.queue []) (links.tail (.queue
    (state.unlinked.filter (state.unlinked.foldl State.linkIfReady start).isLoaded)))

/-! ### Loading -/

theorem turns_receiveAll
    {answers : List (ClassName × Except LoadError (Option ClassSummary))} {after : State}
    (received : state.receiveAll answers = .ok after)
    (correct : ∀ name summary, (name, .ok summary) ∈ answers → summary = setting.world name)
    (nodup : (answers.map Prod.fst).Nodup)
    (awaited : ∀ name ∈ answers.map Prod.fst, ∃ parked,
      state.status? name = some (.awaited parked)) : Turns setting state after := by
  induction answers generalizing state with
  | nil => cases received; exact .refl
  | cons answer rest ih =>
    obtain ⟨name, _ | summary⟩ := answer
    · cases received
    · obtain rfl := correct name summary List.mem_cons_self
      obtain ⟨fresh, nodup⟩ := List.nodup_cons.1 nodup
      obtain ⟨parked, status⟩ := awaited name List.mem_cons_self
      refine .head (.receive status) (ih received
        (fun other summary mem => correct other summary (List.mem_cons_of_mem _ mem)) nodup
        fun other mem => ?_)
      have ne : name ≠ other := by rintro rfl; exact fresh mem
      rw [show (state.receive name (setting.world name)).status? other = _ from
        status?_setStatus .., if_neg ne]
      exact awaited other (List.mem_cons_of_mem _ mem)

theorem turns_loadWanted (fair : setting.IsFair) (order : state.InOrder setting)
    {loader : Loader} (world : setting.world = loader.knows)
    (loads : (state.loadWanted loader).1 = .ok next) : Turns setting state next := by
  obtain ⟨answers, middle, loads⟩ := order.loads world loads
  rw [loads.next_eq]
  exact .head .handOver
    ((turns_receiveAll loads.received loads.correct loads.nodup loads.awaited).trans
      (Linkings.turns (linkings_linkAvailable fair
        (Changes.valid fair loads.advances.changes order.valid) (loads.rootFirst order.rooted)
        loads.asks)))

/-! ### Runs -/

/-- The state in which a run begins. -/
theorem turns_start (fair : setting.IsFair) {root : ClassSummary}
    (known : setting.world .object = some root) :
    Turns setting { allowForwarders := setting.allow }
      (State.start setting.allow root setting.requirement setting.entryPoints) := by
  have taken : Turn setting { allowForwarders := setting.allow }
      (rootLoaded setting.allow root) := by
    have turn := @Turn.root setting { allowForwarders := setting.allow } rfl
    rwa [known] at turn
  have valid := Changes.valid fair (advances_rootLoaded known).changes (valid_empty setting)
  have links := linkings_linkAvailable fair valid (rootFirst_rootLoaded _ _) (asks_rootLoaded _ _)
  exact .head taken ((Linkings.turns links).tail .ask)

/-- A step from a state in order makes turns. -/
theorem turns_step (fair : setting.IsFair) (order : state.InOrder setting) {before after : Loader}
    (world : setting.world = before.knows) (steps : state.step before = (.ok next, after)) :
    Turns setting state next := by
  rcases step_cases steps with ⟨task, rest, work, rfl, _⟩ | ⟨_, loads, _⟩
  · exact .single (.perform order work)
  · exact turns_loadWanted fair order world loads

/-- A run from a state in order makes turns. -/
theorem turns_settle (fair : setting.IsFair) (steps : Nat) {loader after : Loader}
    (world : setting.world = loader.knows) (order : state.InOrder setting)
    (ends : state.settle steps loader = (.ok next, after)) : Turns setting state next := by
  have preserves : ∀ {middle next : State} {before after : Loader},
      middle.InOrder setting ∧ loader.Loads before ∧ Turns setting state middle →
        middle.isSettled = false → middle.step before = (.ok next, after) →
          next.InOrder setting ∧ loader.Loads after ∧ Turns setting state next := by
    rintro middle next before after ⟨order, early, turns⟩ _ stepped
    have world := world.trans early.knows.symm
    obtain ⟨order', late⟩ := order.step fair world stepped
    exact ⟨order', early.trans late, turns.trans (turns_step fair order world stepped)⟩
  exact (settle_induct preserves steps ⟨order, .refl, .refl⟩ ends).1.2.2

/-- A run that ends within its steps has come there by turns. -/
theorem turns_of_settle (fair : setting.IsFair) {root : ClassSummary}
    (known : setting.world .object = some root) (isRoot : root.isRoot = true) {steps : Nat}
    {loader after : Loader} (world : setting.world = loader.knows)
    (ends : (State.start setting.allow root setting.requirement setting.entryPoints).settle steps
      loader = (.ok state, after)) :
    state.InOrder setting ∧ state.isSettled = true ∧
      Turns setting { allowForwarders := setting.allow } state := by
  have start := inOrder_start fair known isRoot
  obtain ⟨order, settled, _⟩ := inOrder_settle fair steps world start ends
  exact ⟨order, settled, (turns_start fair known).trans (turns_settle fair steps world start ends)⟩

end State

end ClassLinker
