import ClassLinker.Proofs.Courses
import ClassLinker.Proofs.Reports

/-!
# The hierarchy of the linked classes

Whatever order classes are loaded and linked in, the linked ones form a proper hierarchy
(`IsLinkedIn`): the parents of a linked class are linked and of accepted kinds, nothing inherits
from itself, and the ancestors of a class are what its parents lead to, in the order of the
parents.

How a class is linked, and which errors about its parents are raised then, is a matter of the
universe alone (`Universe.Links` and `Universe.Raises`), so it is the same in all runs in which the
class is linked at all (`linked_hierarchy`).
-/

namespace ClassLinker

variable {setting : Setting} {world : Universe} {classes : Lookup} {state next : State}
variable {name other : ClassName} {cls record : ClassRecord} {summary : ClassSummary}
variable {error : Diagnostic} {raised : List Diagnostic}

/-! ### The relation of linked classes to their parents -/

/-- The first class is linked with the second as a parent. -/
def ParentIn (classes : Lookup) (child parent : ClassName) : Prop :=
  ∃ cls, classes child = some cls ∧ parent ∈ cls.parents

/-- The first class is linked with the second as its super class. -/
def SuperIn (classes : Lookup) (child parent : ClassName) : Prop :=
  ∃ cls, classes child = some cls ∧ cls.superClass = some parent

/-- What holds of every linked class. -/
structure IsLinkedIn (classes : Lookup) (name : ClassName) (cls : ClassRecord) : Prop where
  parents : ∀ parent ∈ cls.parents, ∃ record, classes parent = some record
  acyclic : ¬ Relation.TransGen (ParentIn classes) name name
  self : cls.ancestors.head? = some name
  nodup : cls.ancestors.Nodup
  closure : ∀ other, other ∈ cls.ancestors ↔ Relation.ReflTransGen (ParentIn classes) name other
  order : cls.ancestors = ancestorsOf name
    (cls.parents.map fun parent => ((classes parent).map ClassRecord.ancestors).getD [])
  declared : ∀ summary, cls.summary = some summary → cls.interfaces.Sublist summary.interfaces
  superClass : ∀ parent record, cls.superClass = some parent → classes parent = some record →
    record.isPresent = true → cls.kind.mayExtend parent record.kind = true
  interfaces : ∀ interface ∈ cls.interfaces, ∀ record, classes interface = some record →
    record.isPresent = true → record.kind = cls.kind.implementedKind
  family : cls.kind.isJS = false → ∀ other ∈ cls.ancestors,
    ¬ Relation.ReflTransGen (SuperIn classes) name other →
      ∀ record, classes other = some record → record.isPresent = true → record.kind = .interface

namespace Follows

variable (follows : Follows world classes) (rooted : world.IsRooted)

include follows rooted

/-- The parents of a linked class are linked. -/
theorem exists_parent (found : classes name = some cls) (mem : other ∈ cls.parents) :
    ∃ record, classes other = some record := by
  have mem : other ∈ cls.fresh.parents := mem
  have above : other ∈ cls.fresh.ancestors := (follows.links found).parent_mem rooted mem
  exact follows.ancestor found above

/-- A parent has fewer ancestors. -/
theorem length_parent_lt (found : classes name = some cls) (mem : other ∈ cls.parents)
    (above : classes other = some record) : record.ancestors.length < cls.ancestors.length := by
  have links := follows.links found
  have mem : other ∈ cls.fresh.parents := mem
  have ne : other ≠ name := by
    rintro rfl
    rcases links.parent_cases mem with loops | ⟨rfl, ne⟩
    · exact links.not_extends_itself (.single loops)
    · exact ne rfl
  have shorter := links.length_ancestors_lt rooted (follows.links above)
    (links.parent_mem rooted mem) ne
  exact shorter

/-- Going up from a class, the ancestors become fewer. -/
theorem length_lt_of_transGen (leads : Relation.TransGen (ParentIn classes) name other)
    (found : classes name = some cls) (above : classes other = some record) :
    record.ancestors.length < cls.ancestors.length := by
  induction leads using Relation.TransGen.head_induction_on generalizing cls with
  | single parent =>
    obtain ⟨_, found', mem⟩ := parent
    obtain rfl := Option.some.inj (found.symm.trans found')
    exact follows.length_parent_lt rooted found mem above
  | head parent _ ih =>
    obtain ⟨_, found', mem⟩ := parent
    obtain rfl := Option.some.inj (found.symm.trans found')
    obtain ⟨middle, found''⟩ := follows.exists_parent rooted found mem
    exact (ih found'').trans (follows.length_parent_lt rooted found mem found'')

/-- The ancestors of a class are the class itself and those of its parents, as they are linked. -/
theorem ancestors_eq (found : classes name = some cls) :
    cls.ancestors = ancestorsOf name
      (cls.parents.map fun parent => ((classes parent).map ClassRecord.ancestors).getD []) := by
  let parents : ClassName → ClassRecord := fun parent => (classes parent).getD (.absent parent)
  have linked : ∀ parent ∈ cls.fresh.parents, world.Links parent (parents parent).fresh := by
    intro parent mem
    obtain ⟨record, above⟩ := follows.exists_parent rooted found mem
    simp only [parents, above, Option.getD_some]
    exact follows.links above
  have computed := (follows.links found).ancestors_eq rooted (fun parent => (parents parent).fresh)
    linked
  refine computed.trans (congrArg (ancestorsOf name) (List.map_congr_left fun parent mem => ?_))
  obtain ⟨record, above⟩ := follows.exists_parent rooted found mem
  simp only [parents, above, Option.getD_some, Option.map_some]
  rfl

theorem mem_ancestors_iff (found : classes name = some cls) :
    other ∈ cls.ancestors ↔ other = name ∨ ∃ parent ∈ cls.parents, ∃ record,
      classes parent = some record ∧ other ∈ record.ancestors := by
  rw [follows.ancestors_eq rooted found]
  simp only [ancestorsOf, List.mem_eraseDups, List.mem_cons, List.mem_flatten, List.mem_map,
    exists_exists_and_eq_and]
  refine or_congr_right (exists_congr fun parent => and_congr_right fun mem => ?_)
  obtain ⟨record, above⟩ := follows.exists_parent rooted found mem
  simp [above]

/-- Facts about linked classes are proved from those about their parents. -/
theorem induct
    {motive : (name : ClassName) → (cls : ClassRecord) → classes name = some cls → Prop}
    (step : ∀ name cls (found : classes name = some cls),
      (∀ parent ∈ cls.parents, ∀ record (above : classes parent = some record),
        motive parent record above) → motive name cls found)
    (found : classes name = some cls) : motive name cls found := by
  generalize bound : cls.ancestors.length = length
  induction length using Nat.strong_induction_on generalizing name cls with
  | _ length ih =>
    subst bound
    exact step name cls found fun parent mem record above =>
      ih _ (follows.length_parent_lt rooted found mem above) above rfl

/-- The ancestors of a class are what its parents lead to. -/
theorem mem_ancestors_iff_leads (found : classes name = some cls) :
    other ∈ cls.ancestors ↔ Relation.ReflTransGen (ParentIn classes) name other := by
  induction name, cls, found using follows.induct rooted with
  | step name cls found ih =>
    rw [follows.mem_ancestors_iff rooted found]
    constructor
    · rintro (rfl | ⟨parent, mem, record, above, inside⟩)
      · exact .refl
      · exact .head ⟨cls, found, mem⟩ ((ih parent mem record above).1 inside)
    · intro leads
      rcases Relation.ReflTransGen.cases_head leads with rfl | ⟨parent, ⟨_, found', mem⟩, leads⟩
      · exact .inl rfl
      · obtain rfl := Option.some.inj (found.symm.trans found')
        obtain ⟨record, above⟩ := follows.exists_parent rooted found mem
        exact .inr ⟨parent, mem, record, above, (ih parent mem record above).2 leads⟩

omit rooted in
/-- A class that does not exist has no parents. -/
theorem alone (found : classes name = some cls) (missing : cls.isPresent = false) :
    cls.superClass = none ∧ cls.ancestors = [name] :=
  ((follows.links found).alone missing).2

theorem kind_of_superClass (found : classes name = some cls) (family : cls.kind.isJS = false)
    (extends_ : cls.superClass = some other) (above : classes other = some record)
    (present : record.isPresent = true) : cls.kind ≠ .interface ∧ record.kind = .plain := by
  have kinds := (follows.links found).kind_of_superClass rooted family (follows.links above)
    extends_ present
  exact kinds

/-- No class that exists is above an interface by way of super classes. -/
theorem eq_of_superIn (found : classes name = some cls) (kind : cls.kind = .interface)
    (leads : Relation.ReflTransGen (SuperIn classes) name other)
    (above : classes other = some record) (present : record.isPresent = true) : other = name := by
  rcases Relation.ReflTransGen.cases_head leads with rfl | ⟨upper, ⟨_, found', extends_⟩, leads⟩
  · rfl
  · obtain rfl := Option.some.inj (found.symm.trans found')
    obtain ⟨middle, found''⟩ := follows.exists_parent rooted found
      (List.mem_append_left _ (Option.mem_toList.2 extends_))
    have missing : middle.isPresent = false := by
      by_contra there
      refine (follows.kind_of_superClass rooted found ?_ extends_ found''
        (Bool.not_eq_false _ ▸ there)).1 kind
      rw [kind]
      rfl
    rcases Relation.ReflTransGen.cases_head leads with rfl | ⟨_, ⟨_, found', extends_⟩, _⟩
    · obtain rfl := Option.some.inj (above.symm.trans found'')
      rw [missing] at present
      cases present
    · obtain rfl := Option.some.inj (found''.symm.trans found')
      rw [(follows.alone found'' missing).1] at extends_
      cases extends_

/-- Above a class outside of JavaScript, everything that exists is an interface, apart from the
class and its super classes. -/
theorem kind_of_ancestor (found : classes name = some cls) (family : cls.kind.isJS = false)
    (mem : other ∈ cls.ancestors) (outside : ¬ Relation.ReflTransGen (SuperIn classes) name other)
    (above : classes other = some record) (present : record.isPresent = true) :
    record.kind = .interface := by
  induction name, cls, found using follows.induct rooted with
  | step name cls found ih =>
    rcases (follows.mem_ancestors_iff rooted found).1 mem with
      rfl | ⟨parent, hp, middle, found', mem⟩
    · exact absurd .refl outside
    · have there : middle.isPresent = true := by
        by_contra missing
        have missing : middle.isPresent = false := Bool.eq_false_iff.2 missing
        rw [(follows.alone found' missing).2, List.mem_singleton] at mem
        subst mem
        obtain rfl := Option.some.inj (above.symm.trans found')
        rw [missing] at present
        cases present
      rcases List.mem_append.1 hp with extends_ | implements_
      · have extends_ := Option.mem_toList.1 extends_
        have kind := (follows.kind_of_superClass rooted found family extends_ found' there).2
        exact ih parent hp middle found' (by rw [kind]; rfl) mem fun leads =>
          outside (.head ⟨cls, found, extends_⟩ leads)
      · have kind : middle.kind = .interface := by
          have implemented :=
            (follows.links found).implements (follows.links found') implements_ there
          have implemented : middle.kind = cls.kind.implementedKind := implemented
          rw [implemented, ClassKind.implementedKind, family]
          rfl
        by_cases leads : Relation.ReflTransGen (SuperIn classes) parent other
        · obtain rfl := follows.eq_of_superIn rooted found' kind leads above present
          obtain rfl := Option.some.inj (above.symm.trans found')
          exact kind
        · exact ih parent hp middle found' (by rw [kind]; rfl) mem leads

/-- Every linked class is linked properly. -/
theorem isLinkedIn (found : classes name = some cls) : IsLinkedIn classes name cls where
  parents _ mem := follows.exists_parent rooted found mem
  acyclic loops := Nat.lt_irrefl _ (follows.length_lt_of_transGen rooted loops found found)
  self := by
    rw [follows.ancestors_eq rooted found, ancestorsOf, List.eraseDups_cons, List.head?_cons]
  nodup := (follows.links found).nodup_ancestors
  closure _ := follows.mem_ancestors_iff_leads rooted found
  order := follows.ancestors_eq rooted found
  declared summary known := by
    have inOrder := (follows.links found).interfaces_sublist
      ((follows.summary_eq found).symm.trans known)
    exact inOrder
  superClass _ _ extends_ above present := by
    have accepted := (follows.links found).mayExtend rooted (follows.links above) extends_ present
    exact accepted
  interfaces _ mem _ above present := by
    have kind := (follows.links found).implements (follows.links above) mem present
    exact kind
  family kind _ mem outside _ above present :=
    follows.kind_of_ancestor rooted found kind mem outside above present

end Follows

/-! ### Errors about parents -/

/-- The error says that something is wrong with the parents of the class. -/
inductive Diagnostic.IsAboutParents (world : Universe) (name : ClassName) : Diagnostic → Prop
  | missingSuperClass (kind : ClassKind) (cause : Cause) :
      IsAboutParents world name (.missingSuperClass name kind cause)
  | invalidSuperClass (parent : ClassName) (parentKind kind : ClassKind) (cause : Cause) :
      IsAboutParents world name (.invalidSuperClass parent parentKind name kind cause)
  | invalidInterface (interface : ClassName) (interfaceKind kind : ClassKind) (cause : Cause) :
      IsAboutParents world name (.invalidInterface interface interfaceKind name kind cause)
  | missingClass {parent : ClassName} (declares : world.Extends name parent) :
      IsAboutParents world name (.missingClass parent (.cls name))

/-- What is reported when the class is linked. -/
inductive Universe.Raises (world : Universe) (name : ClassName) : List Diagnostic → Prop
  | absent (unknown : world name = none) : Raises world name []
  | present {summary : ClassSummary} (parents : ClassName → ClassRecord)
      (known : world name = some summary)
      (linked : ∀ parent ∈ summary.parents, world.Links parent (parents parent)) :
      Raises world name (summary.linkErrors name parents)

namespace ClassSummary

variable {parents : ClassName → ClassRecord}

/-- A parent that is declared and does not exist is reported. -/
theorem missingClass_mem_linkErrors (declared : other ∈ summary.parents)
    (missing : (parents other).isPresent = false) :
    .missingClass other (.cls name) ∈ summary.linkErrors name parents := by
  rcases List.mem_append.1 declared with extends_ | implements_
  · refine List.mem_append_left _ ?_
    unfold superClassErrors
    rw [Option.mem_toList.1 extends_]
    simp [missing]
  · refine List.mem_append_right _ (List.mem_flatMap.2 ⟨other, implements_, ?_⟩)
    simp [missing]

/-- Everything that linking a class reports is about its own parents. -/
theorem isAboutParents_of_mem_linkErrors (known : world name = some summary)
    (mem : error ∈ summary.linkErrors name parents) :
    error.IsAboutParents world name ∧
      ∀ {other}, error.IsAboutParents world other → other = name := by
  rcases List.mem_append.1 mem with mem | mem
  · unfold superClassErrors at mem
    split at mem
    · split at mem
      · rw [List.mem_singleton.1 mem]
        exact ⟨.missingSuperClass _ _, fun about => by cases about; rfl⟩
      · cases mem
    · rename_i parent declared
      split at mem
      · rw [List.mem_singleton.1 mem]
        refine ⟨.missingClass ⟨summary, known, ?_⟩, fun about => by cases about; rfl⟩
        simp [ClassSummary.parents, declared]
      · split at mem
        · cases mem
        · rw [List.mem_singleton.1 mem]
          exact ⟨.invalidSuperClass _ _ _ _, fun about => by cases about; rfl⟩
  · obtain ⟨interface, declared, mem⟩ := List.mem_flatMap.1 mem
    split at mem
    · rw [List.mem_singleton.1 mem]
      exact ⟨.missingClass ⟨summary, known, List.mem_append_right _ declared⟩,
        fun about => by cases about; rfl⟩
    · split at mem
      · cases mem
      · rw [List.mem_singleton.1 mem]
        exact ⟨.invalidInterface _ _ _ _, fun about => by cases about; rfl⟩

end ClassSummary

namespace Universe.Raises

theorem unique {others : List Diagnostic} (raises : world.Raises name raised) :
    world.Raises name others → raised = others := by
  rintro (unknown | ⟨parents, known, linked⟩)
  · cases raises with
    | absent => rfl
    | present _ known => rw [unknown] at known; cases known
  · cases raises with
    | absent unknown => rw [unknown] at known; cases known
    | present parents' known' linked' =>
      obtain rfl := Option.some.inj (known'.symm.trans known)
      exact ClassSummary.linkErrors_congr fun parent mem =>
        (linked' parent mem).unique (linked parent mem)

/-- What linking a class reports is about its parents. -/
theorem isAboutParents (raises : world.Raises name raised) (mem : error ∈ raised) :
    error.IsAboutParents world name := by
  cases raises with
  | absent => cases mem
  | present parents known => exact (ClassSummary.isAboutParents_of_mem_linkErrors known mem).1

/-- An error about a parent that does not exist is among those that linking reports, whatever it
has been reported for. -/
theorem mem_of_isOfUse (raises : world.Raises name raised) (ofUse : error.IsOfUse world)
    (about : error.IsAboutParents world name) : error ∈ raised := by
  cases about with
  | missingClass declares =>
    obtain ⟨summary, known, declared⟩ := declares
    cases ofUse with
    | missingClass unknown =>
      cases raises with
      | absent unknown' => rw [known] at unknown'; cases unknown'
      | present parents known' linked =>
        obtain rfl := Option.some.inj (known.symm.trans known')
        refine ClassSummary.missingClass_mem_linkErrors declared ?_
        rw [(linked _ declared).unique (.absent unknown)]
        rfl
  | missingSuperClass | invalidSuperClass | invalidInterface => cases ofUse

end Universe.Raises

/-! ### Runs -/

/-- The errors about the parents of every linked class have been raised, one after the other, and
nothing else is reported about the parents of a class. -/
structure State.RaisesErrors (setting : Setting) (state : State) : Prop where
  linked : ∀ {name cls}, state.class? name = some cls →
    ∃ raised, setting.world.Raises name raised ∧ raised <:+: state.errors
  told : ∀ {error name raised}, error ∈ state.errors → error.IsAboutParents setting.world name →
    setting.world.Raises name raised → error ∈ raised

theorem State.RaisesErrors.extend {more : List Diagnostic} (raises : state.RaisesErrors setting)
    (grown : next.errors = state.errors ++ more)
    (links : ∀ {name cls}, next.class? name = some cls →
      (∃ record, state.class? name = some record) ∨ setting.world.Raises name more)
    (told : ∀ error ∈ more, ∀ {name raised}, error.IsAboutParents setting.world name →
      setting.world.Raises name raised → error ∈ raised) : next.RaisesErrors setting := by
  refine ⟨fun {name cls} found => ?_, fun {error name raised} mem about raises' => ?_⟩
  · rw [grown]
    rcases links found with ⟨record, before⟩ | raises'
    · obtain ⟨raised, raises', inside⟩ := raises.linked before
      exact ⟨raised, raises', inside.trans (List.prefix_append ..).isInfix⟩
    · exact ⟨more, raises', (List.suffix_append ..).isInfix⟩
  · rw [grown] at mem
    exact (List.mem_append.1 mem).elim (fun before => raises.told before about raises')
      fun new => told error new about raises'

theorem LinkStep.raisesErrors (valid : state.Valid setting) (step : LinkStep setting state next)
    (raises : state.RaisesErrors setting) : next.RaisesErrors setting := by
  cases step with
  | absent status =>
    refine raises.extend rfl (fun found => ?_) fun _ mem => by cases mem
    rw [State.class?_revise] at found
    split at found
    · rename_i same
      exact .inr (.absent (same ▸ (valid.loaded status).symm))
    · exact .inl ⟨_, found⟩
  | @link name summary _ parents status above =>
    -- The errors depend on nothing that is found out about the parents after they are linked.
    have raised : setting.world.Raises name (summary.linkErrors name parents) :=
      .present (fun parent => (parents parent).fresh) (valid.loaded status).symm
        fun parent mem => valid.follows.links (above parent mem)
    refine raises.extend rfl (fun found => ?_) fun error mem other others about raises' => ?_
    · rw [State.class?_revise] at found
      split at found
      · rename_i same
        exact .inr (same ▸ raised)
      · exact .inl ⟨_, found⟩
    · obtain rfl := (ClassSummary.isAboutParents_of_mem_linkErrors
        (valid.loaded status).symm mem).2 about
      exact raised.unique raises' ▸ mem
  | fail status =>
    refine raises.extend (List.append_nil _).symm (fun found => ?_) fun _ mem => by cases mem
    rw [State.class?_setStatus (State.class?_eq_none_of_status status rfl) rfl] at found
    exact .inl ⟨_, found⟩
  | cycle _ loaded =>
    refine raises.extend (State.errors_failCycle ..) (fun found => ?_)
      fun error mem _ _ about => ?_
    · rw [State.class?_failCycle _ loaded] at found
      exact .inl ⟨_, found⟩
    · rw [List.mem_singleton.1 mem] at about
      cases about

theorem Turn.raisesErrors (fair : setting.IsFair) (full : ∀ fact, setting.facts fact)
    (valid : state.Valid setting) (turn : Turn setting state next)
    (raises : state.RaisesErrors setting) : next.RaisesErrors setting := by
  rcases turn.settles_or_uses fair full with step | uses
  · exact step.raisesErrors valid raises
  · obtain ⟨more, grown, ofUse⟩ := uses.reports
    refine raises.extend grown (fun found => ?_) fun error mem _ _ about raises' =>
      raises'.mem_of_isOfUse (ofUse error mem) about
    obtain ⟨cls, before, _⟩ := uses.found_before found
    exact .inl ⟨cls, before⟩

theorem Turns.raisesErrors (fair : setting.IsFair) (full : ∀ fact, setting.facts fact)
    (valid : state.Valid setting) (turns : Turns setting state next)
    (raises : state.RaisesErrors setting) : next.RaisesErrors setting := by
  induction turns with
  | refl => exact raises
  | tail early turn ih => exact turn.raisesErrors fair full (Turns.valid fair early valid) ih

theorem State.raisesErrors_blank (setting : Setting) :
    State.RaisesErrors setting { allowForwarders := setting.allow } := by
  refine ⟨fun found => ?_, fun mem => by cases mem⟩
  rw [State.class?_blank] at found
  cases found

namespace Loader.Reaches

variable {loader : Loader} {allow : Bool} {requirement : Requirement}

/-- The errors about the parents of a linked class are those that the universe tells. -/
theorem exists_raised (reaches : loader.Reaches allow requirement state)
    (found : state.class? name = some cls) :
    ∃ raised, loader.knows.Raises name raised ∧ raised <:+: state.errors ∧
      ∀ error, error.IsAboutParents loader.knows name →
        (error ∈ state.errors ↔ error ∈ raised) := by
  have raises := Turns.raisesErrors reaches.isFair (fun _ => trivial) (State.valid_empty _)
    reaches.turns (State.raisesErrors_blank _)
  obtain ⟨raised, raised', inside⟩ := raises.linked found
  exact ⟨raised, raised', inside, fun error about =>
    ⟨fun mem => raises.told mem about raised', fun mem => inside.subset mem⟩⟩

end Loader.Reaches

/-- The class has been linked alike in both states, with the same errors about its parents. -/
structure LinkedAlike (world : Universe) (name : ClassName) (first second : State)
    (cls record : ClassRecord) : Prop where
  kind : record.kind = cls.kind
  superClass : record.superClass = cls.superClass
  interfaces : record.interfaces = cls.interfaces
  ancestors : record.ancestors = cls.ancestors
  errors : ∃ raised, (∀ error ∈ raised, error.IsAboutParents world name) ∧
    raised <:+: first.errors ∧ raised <:+: second.errors ∧
      ∀ error, error.IsAboutParents world name →
        (error ∈ first.errors ↔ error ∈ raised) ∧ (error ∈ second.errors ↔ error ∈ raised)

/-- In every state of a run each linked class is linked properly, and runs over the same universe
link it alike. -/
theorem linked_hierarchy :
    (∀ {loader : Loader} {allow requirement state name cls},
      loader.Reaches allow requirement state → state.class? name = some cls →
        IsLinkedIn state.class? name cls) ∧
    ∀ {loader others : Loader} {allow allow' requirement requirement' first second name cls record},
      others.knows = loader.knows → loader.Reaches allow requirement first →
        others.Reaches allow' requirement' second → first.class? name = some cls →
          second.class? name = some record →
            LinkedAlike loader.knows name first second cls record := by
  refine ⟨fun reaches found => reaches.valid.follows.isLinkedIn reaches.rooted found, ?_⟩
  intro loader others allow allow' requirement requirement' first second name cls record same
    reaches reaches' found found'
  have links : loader.knows.Links name cls.fresh := reaches.valid.follows.links found
  have links' : others.knows.Links name record.fresh := reaches'.valid.follows.links found'
  rw [same] at links'
  have alike : record.fresh = cls.fresh := links'.unique links
  obtain ⟨raised, raises, inside, told⟩ := reaches.exists_raised found
  obtain ⟨raised', raises', inside', told'⟩ := reaches'.exists_raised found'
  rw [same] at raises' told'
  obtain rfl := raises.unique raises'
  have kind : record.fresh.kind = cls.fresh.kind := by rw [alike]
  have superClass : record.fresh.superClass = cls.fresh.superClass := by rw [alike]
  have interfaces : record.fresh.interfaces = cls.fresh.interfaces := by rw [alike]
  have ancestors : record.fresh.ancestors = cls.fresh.ancestors := by rw [alike]
  exact ⟨kind, superClass, interfaces, ancestors, raised, fun _ => raises.isAboutParents, inside,
    inside', fun error about => ⟨told error about, told' error about⟩⟩

/-- A class that extends an interface, and one below it. -/
def misfit : List ClassDecl :=
  [.ofMethods .object .plain [] [],
    .ofMethods ⟨"I"⟩ .interface [] [],
    .ofMethods ⟨"A"⟩ .plain [⟨"I"⟩] [],
    .ofMethods ⟨"B"⟩ .plain [⟨"A"⟩] []]

/-- The class is linked below the root class instead, whether or not the class below it is there. -/
theorem linked_hierarchy_misfit :
    ∃ first second cls record, first.class? ⟨"A"⟩ = some cls ∧ second.class? ⟨"A"⟩ = some record ∧
      IsLinkedIn first.class? ⟨"A"⟩ cls ∧
      LinkedAlike (Loader.ofDecls misfit).knows ⟨"A"⟩ first second cls record := by
  have told : ∀ required ∈ [⟨"A"⟩, ⟨"B"⟩], (analyze true (.typeData "test" required)
      (Loader.ofDecls misfit)).1.toOption.map (fun analysis =>
        (analysis.class? ⟨"A"⟩).isSome) = some true := by decide +kernel
  have reached : ∀ required ∈ [⟨"A"⟩, ⟨"B"⟩], ∃ state cls,
      (Loader.ofDecls misfit).Reaches true (.typeData "test" required) state ∧
        state.class? ⟨"A"⟩ = some cls := by
    intro required mem
    obtain ⟨analysis, after, ends, linked⟩ := exists_of_toOption_map (told required mem)
    obtain ⟨cls, found⟩ := Option.isSome_iff_exists.1 linked
    obtain ⟨state, reaches, found, _⟩ := exists_reached_of_analyze ends found
    exact ⟨state, cls, reaches, found⟩
  obtain ⟨first, cls, reaches, found⟩ := reached ⟨"A"⟩ (by decide)
  obtain ⟨second, record, reaches', found'⟩ := reached ⟨"B"⟩ (by decide)
  exact ⟨first, second, cls, record, found, found', linked_hierarchy.1 reaches found,
    linked_hierarchy.2 rfl reaches reaches' found found'⟩

end ClassLinker
