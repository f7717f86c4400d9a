import ClassLinker.Proofs.Mirrors

/-!
# Lists with repetitions

`Repeats may known first second` says that the second list is the first one with repetitions put in,
each of an entry that stands earlier in the list or is known otherwise. Appending keeps this, it is
transitive, and without repetitions both lists are the same (`Repeats.eraseDups_eq`). As a leeway
for tasks and errors it compares a state to one in which some tasks have been repeated.
-/

namespace ClassLinker

variable {α : Type} {may known known' : α → Prop} {entry : α}
variable {first second third more more' : List α}

/-- The second list is the first one with repetitions of entries that are known, or earlier in the
list, and may be repeated. -/
inductive Repeats (may : α → Prop) : (α → Prop) → List α → List α → Prop
  | nil {known : α → Prop} : Repeats may known [] []
  | keep {known : α → Prop} {entry : α} {first second : List α}
      (rest : Repeats may (fun other => known other ∨ other = entry) first second) :
      Repeats may known (entry :: first) (entry :: second)
  | again {known : α → Prop} {entry : α} {first second : List α} (allowed : may entry)
      (seen : known entry) (rest : Repeats may known first second) :
      Repeats may known first (entry :: second)

namespace Repeats

theorem refl (known : α → Prop) (list : List α) : Repeats may known list list := by
  induction list generalizing known with
  | nil => exact .nil
  | cons entry rest ih => exact .keep (ih _)

/-- More may be known, and only what may be repeated counts. -/
theorem mono (implies : ∀ entry, may entry → known entry → known' entry)
    (repeats : Repeats may known first second) : Repeats may known' first second := by
  induction repeats generalizing known' with
  | nil => exact .nil
  | keep _ ih => exact .keep (ih fun entry allowed => Or.imp_left (implies entry allowed))
  | again allowed seen _ ih => exact .again allowed (implies _ allowed seen) (ih implies)

theorem append (repeats : Repeats may known first second)
    (more_repeats : Repeats may (fun entry => known entry ∨ entry ∈ first) more more') :
    Repeats may known (first ++ more) (second ++ more') := by
  induction repeats with
  | nil => exact more_repeats.mono fun _ _ => Or.rec id fun mem => (by cases mem)
  | keep _ ih =>
    refine .keep (ih (more_repeats.mono fun other _ seen => ?_))
    rcases seen with seen | mem
    · exact .inl (.inl seen)
    · exact (List.mem_cons.1 mem).elim (fun same => .inl (.inr same)) .inr
  | again allowed seen _ ih => exact .again allowed seen (ih more_repeats)

/-- The same is put at the end of both lists. -/
theorem extend (repeats : Repeats may known first second) (more : List α) :
    Repeats may known (first ++ more) (second ++ more) :=
  repeats.append (.refl _ more)

/-- Entries of the list are repeated at its end. -/
theorem repeat_mem (repeats : Repeats may known first second) (mem : ∀ entry ∈ more, entry ∈ first)
    (allowed : ∀ entry ∈ more, may entry) : Repeats may known first (second ++ more) := by
  have again : ∀ {more : List α}, (∀ entry ∈ more, entry ∈ first) → (∀ entry ∈ more, may entry) →
      Repeats may (fun entry => known entry ∨ entry ∈ first) [] more := by
    intro more mem allowed
    induction more with
    | nil => exact .nil
    | cons entry rest ih =>
      exact .again (allowed entry List.mem_cons_self) (.inr (mem entry List.mem_cons_self))
        (ih (fun other h => mem other (List.mem_cons_of_mem _ h))
          fun other h => allowed other (List.mem_cons_of_mem _ h))
  have appended := repeats.append (again mem allowed)
  rwa [List.append_nil] at appended

theorem trans (repeats : Repeats may known first second)
    (repeats' : Repeats may known' second third)
    (implies : ∀ entry, may entry → known' entry → known entry) :
    Repeats may known first third := by
  induction repeats' generalizing known first with
  | nil => exact repeats
  | keep _ ih =>
    cases repeats with
    | keep rest =>
      exact .keep (ih rest fun entry allowed => Or.imp_left (implies entry allowed))
    | again allowed seen rest =>
      refine .again allowed seen (ih rest fun other allowed' known => ?_)
      rcases known with known | rfl
      · exact implies other allowed' known
      · exact seen
  | again allowed seen _ ih => exact .again allowed (implies _ allowed seen) (ih repeats implies)

theorem eq_nil (repeats : Repeats may known first []) : first = [] := by
  cases repeats
  rfl

/-- Without repetitions, both lists are the same. -/
theorem eraseDups_eq [DecidableEq α] (repeats : Repeats may (fun _ => False) first second) :
    second.eraseDups = first.eraseDups := by
  -- The log of what has been seen has all that is known, so a repeated entry is not recorded.
  have records : ∀ {known first second} (log : List α), Repeats may known first second →
      (∀ entry, known entry → entry ∈ log) →
        second.foldl recordOnce log = first.foldl recordOnce log := by
    intro known first second log repeats
    induction repeats generalizing log with
    | nil => exact fun _ => rfl
    | keep _ ih =>
      intro logged
      refine ih _ fun other seen => mem_recordOnce.2 ?_
      exact seen.imp_left (logged other)
    | again _ seen _ ih =>
      intro logged
      rw [List.foldl_cons, recordOnce, if_pos (logged _ seen)]
      exact ih log logged
  rw [eraseDups_eq_foldl, eraseDups_eq_foldl]
  exact records [] repeats fun _ none => none.elim

end Repeats

/-! ### Repeated tasks -/

/-- Tasks that are known, are listed, or wait already may be repeated, and so may errors. -/
def Leeway.repeats (may known : Task → Prop) : Leeway where
  work := Repeats may known
  parked := Repeats may fun _ => False
  errors := Repeats (fun _ => True) fun _ => False
  idle := .nil
  extend more repeats := repeats.extend more
  release repeats parked := repeats.append (parked.mono fun _ _ none => none.elim)
  report more repeats := repeats.extend more

namespace State.Mirrors

variable {may known known' : Task → Prop} {state mirror third : State}

theorem refl_repeats (state : State) : state.Mirrors (.repeats may known) state :=
  .refl (fun _ => Repeats.refl _ _) (fun _ => Repeats.refl _ _) (fun _ => Repeats.refl _ _) state

theorem trans_repeats (mirrors : state.Mirrors (.repeats may known) mirror)
    (mirrors' : mirror.Mirrors (.repeats may known) third) :
    state.Mirrors (.repeats may known) third :=
  mirrors.trans (fun early late => Repeats.trans early late fun _ _ => id)
    (fun early late => Repeats.trans early late fun _ _ => id)
    (fun early late => Repeats.trans early late fun _ _ => id) mirrors'

/-- What is known matters only for the tasks that are listed. -/
theorem of_work (mirrors : state.Mirrors (.repeats may known) mirror) {tasks tasks' : List Task}
    (work : Repeats may known' tasks tasks') :
    { state with work := tasks : State }.Mirrors (.repeats may known')
      { mirror with work := tasks' } where
  allow := mirrors.allow
  status name := by
    have same := mirrors.status name
    show Option.Rel _ (state.status? name) (mirror.status? name)
    generalize state.status? name = first, mirror.status? name = second at same
    cases same with
    | none => exact .none
    | some same =>
      refine .some ?_
      cases same with
      | awaited parked => exact .awaited parked
      | loaded _ parked => exact .loaded _ parked
      | linked => exact .linked _
      | failed => exact .failed
  work := work
  wanted := mirrors.wanted
  unlinked := mirrors.unlinked
  errors := mirrors.errors

/-- Both states do the same task. -/
theorem perform_repeats (mirrors : state.Mirrors (.repeats may known) mirror) (task : Task) :
    (state.perform task).Mirrors (.repeats may known) (mirror.perform task) :=
  mirrors.perform rfl rfl rfl (fun parked => Repeats.extend parked [task])
    fun errors => Repeats.extend errors task.missing

end State.Mirrors

end ClassLinker
