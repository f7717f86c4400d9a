import ClassLinker.Proofs.Keeping
import ClassLinker.Proofs.Summaries
import ClassLinker.Proofs.Validity

/-!
# Code that is kept, and code that is analyzed

The analysis never sees code, only the summary of a class, and what is kept of the class is told
from its declaration. So both must agree on what makes a piece of code count (`Keeper`): a method
that is reachable, instances of the class, or an export.

* `CodeParts.Has` tells what code there is in a declaration or in what is kept of one, and
  `KeptClass.has_ofRecord` which code is kept;
* `ClassSummary.followed` are the demands that an analysis follows then
  (`ClassRecord.Valid.mem_dues`);
* `ClassDecl.IsAnalyzed`: for all code that is kept, one of these holds all that it demands.

This is so for the bodies of methods that are listed once, of JavaScript constructors, of exported
members and of exported functions. It is not for the computed names of JavaScript fields, which no
summary tells of, nor for a method that the class lists another time
(`ClassDecl.isAnalyzed_iff`).
-/

namespace ClassLinker

variable {decl : ClassDecl} {cls : ClassRecord} {kept : KeptClass} {entry : VersionedDecl}
variable {setting : Setting} {made : List MethodDecl} {code : Expr} {key : MethodKey}

/-! ### Code -/

/-- What has a piece of code of a class kept. -/
inductive Keeper where
  /-- The method is reachable. -/
  | method (key : MethodKey)
  /-- There are instances of the class. -/
  | instances
  /-- The class is kept, with its export at this position. -/
  | exported (index : Nat)

/-- The parts of a class that hold code. -/
structure CodeParts where
  fields : List FieldDecl
  methods : List MethodDecl
  jsConstructor : Option JSConstructor
  exportedMembers : List ExportedMember
  exports : List Export

/-- The parts of a declaration. -/
def ClassDecl.parts (decl : ClassDecl) : CodeParts where
  fields := decl.fields
  methods := decl.methods
  jsConstructor := decl.jsConstructor
  exportedMembers := decl.exportedMembers
  exports := decl.exports

/-- The parts of what is kept of a class. -/
def KeptClass.parts (kept : KeptClass) : CodeParts where
  fields := kept.fields
  methods := kept.methods
  jsConstructor := kept.jsConstructor
  exportedMembers := kept.exportedMembers
  exports := kept.exports

/-- A piece of code, and what has it kept. -/
inductive CodeParts.Has (parts : CodeParts) : Keeper → Expr → Prop
  | method {method : MethodDecl} {body : Expr} (mem : method ∈ parts.methods)
      (has : method.body = some body) : Has parts (.method ⟨method.space, method.name⟩) body
  | fieldName {name : Expr} {type : Ty} (mem : .computed name type ∈ parts.fields) :
      Has parts .instances name
  | jsConstructor {ctor : JSConstructor} (has : parts.jsConstructor = some ctor) :
      Has parts .instances ctor.body
  | member {member : ExportedMember} (mem : member ∈ parts.exportedMembers) :
      Has parts .instances member.body
  | function {index : Nat} {item : Export} {params : List Param} {body : Expr}
      (at_ : parts.exports[index]? = some item) (target : item.target = .function params body) :
      Has parts (.exported index) body

/-- What is known of the class asks for keeping this code. -/
def ClassRecord.Keeps (cls : ClassRecord) : Keeper → Prop
  | .method key => ∃ entry, cls.method? key = some entry ∧ entry.isReached = true ∧
      entry.forwarder = none
  | .instances => cls.hasInstances = true
  | .exported _ => True

theorem ClassRecord.keepsMethod_iff {method : MethodDecl} :
    cls.keepsMethod method = true ↔ cls.Keeps (.method ⟨method.space, method.name⟩) := by
  simp [keepsMethod, Keeps, Option.any_eq_true]

/-- One of the methods has this code. -/
def HasBody (methods : List MethodDecl) (keeper : Keeper) (code : Expr) : Prop :=
  ∃ method ∈ methods, method.body = some code ∧ keeper = .method ⟨method.space, method.name⟩

/-- The code that is kept of a class is that of its declaration for which there is a reason, and the
methods that have been made for it. -/
theorem KeptClass.has_ofRecord (keeps : ofRecord cls entry made = .ok kept) {keeper : Keeper} :
    kept.parts.Has keeper code ↔
      (entry.decl.parts.Has keeper code ∧ cls.Keeps keeper) ∨ HasBody made keeper code := by
  obtain ⟨_, rfl⟩ := ofRecord_eq_ok.1 keeps
  constructor
  · rintro (⟨mem, has⟩ | mem | has | mem | ⟨at_, target⟩)
    · rcases List.mem_append.1 mem with mem | mem
      · obtain ⟨mem, keeps⟩ := List.mem_filter.1 mem
        exact .inl ⟨.method mem has, ClassRecord.keepsMethod_iff.1 keeps⟩
      · exact .inr ⟨_, mem, has, rfl⟩
    · obtain ⟨mem, keeps⟩ := List.mem_filter.1 mem
      exact .inl ⟨.fieldName mem, keeps⟩
    · obtain ⟨keeps, has⟩ := Option.ite_none_right_eq_some.1 has
      exact .inl ⟨.jsConstructor has, keeps⟩
    · simp only [parts] at mem
      split at mem
      · exact .inl ⟨.member mem, ‹_›⟩
      · cases mem
    · exact .inl ⟨.function at_ target, trivial⟩
  · rintro (⟨has, keeps⟩ | ⟨method, mem, has, rfl⟩)
    · cases has with
      | method mem has =>
        exact .method (List.mem_append_left _
          (List.mem_filter.2 ⟨mem, ClassRecord.keepsMethod_iff.2 keeps⟩)) has
      | fieldName mem => exact .fieldName (List.mem_filter.2 ⟨mem, keeps⟩)
      | jsConstructor has =>
        exact .jsConstructor (Option.ite_none_right_eq_some.2 ⟨keeps, has⟩)
      | member mem =>
        have keeps : cls.hasInstances = true := keeps
        refine .member ?_
        simp only [parts, keeps, ↓reduceIte]
        exact mem
      | function at_ target => exact .function at_ target
    · exact .method (List.mem_append_right _ mem) has

/-! ### Demands that are followed -/

/-- The demands that an analysis follows when this code is kept. -/
def ClassSummary.followed (summary : ClassSummary) : Keeper → List Demands
  | .method key => (summary.method? key.space key.name).toList.map MethodSummary.demands
  | .instances => summary.exportedMembers
  | .exported index => summary.exports[index]?.toList.map ExportSummary.demands

/-- The tasks that an analysis puts on its list when this code is kept. -/
def ClassRecord.dues (cls : ClassRecord) : Keeper → List Task
  | .method key => (cls.method? key).toList.flatMap (State.methodTasks cls)
  | .instances => State.exportedMemberTasks cls
  | .exported _ => State.entryTasks cls

/-- The record is one of the declared class: it has the summary of the declaration, and every method
is entered under its own key. -/
structure ClassRecord.IsOf (cls : ClassRecord) (decl : ClassDecl) : Prop where
  summary_eq : cls.summary = some decl.summary
  key_eq : ∀ {key entry}, cls.method? key = some entry → entry.id.key = key

theorem mem_tasks {demands : Demands} {item : ClassName × Demand} (mem : item ∈ demands.toList)
    (cause : Cause) : { cls := item.1, action := .fulfil item.2, cause } ∈ demands.tasks cause :=
  List.mem_map.2 ⟨item, mem, rfl⟩

theorem ClassRecord.Valid.isOf (valid : cls.Valid setting)
    (known : cls.summary = some decl.summary) : cls.IsOf decl where
  summary_eq := known
  key_eq has := by
    rw [(valid.entries has).id_eq]
    rfl

/-- In a run, the demands that are followed are put on the list of tasks. -/
theorem ClassRecord.Valid.mem_dues (valid : cls.Valid setting)
    (known : cls.summary = some decl.summary) {keeper : Keeper} (live : cls.Keeps keeper)
    {demands : Demands} (followed : demands ∈ decl.summary.followed keeper)
    {item : ClassName × Demand} (mem : item ∈ demands.toList) :
    ∃ cause, { cls := item.1, action := .fulfil item.2, cause } ∈ cls.dues keeper := by
  cases keeper with
  | method key =>
    obtain ⟨entry, has, _, own⟩ := live
    obtain ⟨method, declares, rfl⟩ := List.mem_map.1 followed
    have declares : decl.summary.method? key.space key.name = some method :=
      Option.mem_toList.1 declares
    obtain ⟨listed, space, name⟩ := ClassSummary.mem_of_method? declares
    have isPresent : entry.isPresent = true := by
      refine valid.isPresent_of_listed known listed ?_
      rw [space, name]
      exact has
    refine ⟨.method entry.id, List.mem_flatMap.2 ⟨entry, by simpa using has, ?_⟩⟩
    obtain rfl := (valid.isOf known).key_eq has
    have declares : decl.summary.method? entry.id.space entry.id.name = some method := declares
    rw [State.methodTasks, own]
    simp only [isPresent, ↓reduceIte, known, Option.bind_some, declares]
    exact mem_tasks mem _
  | instances =>
    refine ⟨.exports, ?_⟩
    rw [dues, State.exportedMemberTasks, known]
    exact List.mem_flatMap.2 ⟨demands, followed, mem_tasks mem _⟩
  | exported index =>
    obtain ⟨target, listed, rfl⟩ := List.mem_map.1 followed
    have at_ : decl.summary.exports[index]? = some target := Option.mem_toList.1 listed
    refine ⟨.exports, ?_⟩
    rw [dues, State.entryTasks, known]
    exact List.mem_append_right _
      (List.mem_flatMap.2 ⟨target, List.mem_of_getElem? at_, mem_tasks mem _⟩)

/-! ### What is analyzed -/

/-- One of the demands that are followed holds everything that the code demands. -/
def ClassSummary.Covers (summary : ClassSummary) (keeper : Keeper) (code : Expr) : Prop :=
  ∃ demands ∈ summary.followed keeper, code.demands.toList ⊆ demands.toList

/-- Whatever code is kept of the class, it is covered by what the analysis follows, the methods left
aside that have been made for it. -/
def ClassDecl.IsAnalyzed (decl : ClassDecl) : Prop :=
  ∀ (cls : ClassRecord) (version : Option Version) (made : List MethodDecl) (kept : KeptClass),
    cls.IsOf decl → KeptClass.ofRecord cls ⟨decl, version⟩ made = .ok kept →
      ∀ keeper code, kept.parts.Has keeper code →
        HasBody made keeper code ∨ decl.summary.Covers keeper code

namespace ClassDecl

/-- The names of the JavaScript fields demand nothing that exported members do not demand. -/
def CoversFieldNames (decl : ClassDecl) : Prop :=
  ∀ name type, .computed name type ∈ decl.fields → decl.summary.Covers .instances name

/-- A method demands nothing that the first one of its key does not demand, if that one has a
body. -/
def CoversListedAgain (decl : ClassDecl) : Prop :=
  ∀ method ∈ decl.methods, ∀ first body, decl.method? method.space method.name = some first →
    first.isAbstract = false → method.body = some body →
      body.demands.toList ⊆ first.summary.demands.toList

theorem covers_jsConstructor {ctor : JSConstructor} (has : decl.jsConstructor = some ctor) :
    decl.summary.Covers .instances ctor.body := by
  refine ⟨ctor.body.demands, List.mem_append_left _ ?_, fun _ mem => mem⟩
  rw [has]
  exact List.mem_singleton_self _

theorem covers_member {member : ExportedMember} (mem : member ∈ decl.exportedMembers) :
    decl.summary.Covers .instances member.body :=
  ⟨member.demands, List.mem_append_right _ (List.mem_map_of_mem mem),
    fun _ mem => ExportedMember.mem_demands.2 (.inr mem)⟩

theorem covers_function {index : Nat} {item : Export} {params : List Param} {body : Expr}
    (at_ : decl.exports[index]? = some item) (target : item.target = .function params body) :
    decl.summary.Covers (.exported index) body := by
  refine ⟨item.target.demands decl.name, ?_, ?_⟩
  · have listed : decl.summary.exports[index]? =
        some ⟨item.name, item.target.demands decl.name⟩ := by
      rw [summary, List.getElem?_map, at_, Option.map_some]
    simp [ClassSummary.followed, listed]
  · rw [target]
    exact fun _ mem => mem

theorem covers_method {method first : MethodDecl} {body : Expr}
    (declares : decl.method? method.space method.name = some first)
    (sub : body.demands.toList ⊆ first.summary.demands.toList) :
    decl.summary.Covers (.method ⟨method.space, method.name⟩) body :=
  ⟨first.summary.demands, by simp [ClassSummary.followed, method?_summary_eq_map, declares], sub⟩

/-- If a method of the declaration is kept, then the first one of its key has a body. -/
theorem exists_first_of_keeps {version : Option Version} (isOf : cls.IsOf decl)
    (keeps : KeptClass.ofRecord cls ⟨decl, version⟩ made = .ok kept)
    (live : cls.Keeps (.method key)) :
    ∃ first, decl.method? key.space key.name = some first ∧ first.isAbstract = false := by
  obtain ⟨entry, has, reached, own⟩ := live
  have body := (KeptClass.ofRecord_eq_ok.1 keeps).1 entry
    (ClassRecord.mem_reached.2 ⟨⟨key, has⟩, reached⟩)
  obtain rfl := isOf.key_eq has
  rw [ClassRecord.hasBody, own] at body
  obtain ⟨first, declares, concrete⟩ := (Option.any_eq_true ..).1 body
  exact ⟨first, declares, by simpa using concrete⟩

/-- The record of the class as it is linked. Nothing of it is reachable yet. -/
def record (decl : ClassDecl) : ClassRecord :=
  .ofSummary decl.name decl.summary

theorem record_spec (decl : ClassDecl) : decl.record.IsOf decl ∧
    ∀ key entry, decl.record.method? key = some entry → entry.isReached = false := by
  have shape : ∀ {key entry}, decl.record.method? key = some entry →
      entry.id.key = key ∧ entry.isReached = false := by
    intro key entry has
    obtain ⟨method, _, rfl, rfl⟩ := exists_of_getElem?_declaredMethods has
    exact ⟨rfl, rfl⟩
  exact ⟨⟨rfl, fun has => (shape has).1⟩, fun _ _ has => (shape has).2⟩

/-- The class can be kept with instances and without any of its methods. -/
theorem exists_inhabited (decl : ClassDecl) : ∃ cls kept, cls.IsOf decl ∧
    cls.Keeps .instances ∧ KeptClass.ofRecord cls ⟨decl, none⟩ [] = .ok kept := by
  obtain ⟨isOf, unreached⟩ := decl.record_spec
  refine ⟨{ decl.record with hasInstances := true }, _, ⟨isOf.summary_eq, isOf.key_eq⟩, rfl,
    KeptClass.ofRecord_eq_ok.2 ⟨fun entry mem => ?_, rfl⟩⟩
  obtain ⟨⟨key, has⟩, reached⟩ := ClassRecord.mem_reached.1 mem
  rw [unreached key entry has] at reached
  cases reached

/-- The class can be kept with one of its methods, if the first one of the key has a body. -/
theorem exists_reaching {first : MethodDecl}
    (declares : decl.method? key.space key.name = some first)
    (concrete : first.isAbstract = false) : ∃ cls kept, cls.IsOf decl ∧ cls.Keeps (.method key) ∧
      KeptClass.ofRecord cls ⟨decl, none⟩ [] = .ok kept := by
  obtain ⟨isOf, unreached⟩ := decl.record_spec
  let entry : MethodRecord := { id := ⟨decl.name, key.space, key.name⟩, isReached := true }
  have lookup : ∀ other found, (decl.record.putMethod entry).method? other = some found →
      other = key ∧ found = entry ∨ decl.record.method? other = some found := by
    intro other found has
    rw [ClassRecord.method?_putMethod] at has
    split at has
    · rename_i same
      exact .inl ⟨same.symm, (Option.some.inj has).symm⟩
    · exact .inr has
  refine ⟨decl.record.putMethod entry, _, ⟨isOf.summary_eq, fun {other found} has => ?_⟩,
    ⟨entry, by rw [ClassRecord.method?_putMethod]; exact if_pos rfl, rfl, rfl⟩,
    KeptClass.ofRecord_eq_ok.2 ⟨fun found mem => ?_, rfl⟩⟩
  · rcases lookup other found has with ⟨rfl, rfl⟩ | has
    · rfl
    · exact isOf.key_eq has
  · obtain ⟨⟨other, has⟩, reached⟩ := ClassRecord.mem_reached.1 mem
    rcases lookup other found has with ⟨rfl, rfl⟩ | has
    · simp [ClassRecord.hasBody, entry, declares, concrete]
    · rw [unreached other found has] at reached
      cases reached

/-- Where nothing has been made, all code of the declaration that is kept is covered. -/
theorem IsAnalyzed.covers (analyzed : decl.IsAnalyzed) (isOf : cls.IsOf decl)
    (keeps : KeptClass.ofRecord cls ⟨decl, none⟩ [] = .ok kept) {keeper : Keeper}
    (has : decl.parts.Has keeper code) (live : cls.Keeps keeper) :
    decl.summary.Covers keeper code := by
  have listed := (KeptClass.has_ofRecord keeps).2 (.inl ⟨has, live⟩)
  rcases analyzed cls none [] kept isOf keeps keeper code listed with ⟨_, mem, _⟩ | covers
  · cases mem
  · exact covers

theorem IsAnalyzed.coversFieldNames (analyzed : decl.IsAnalyzed) : decl.CoversFieldNames := by
  intro name type mem
  obtain ⟨cls, kept, isOf, live, keeps⟩ := decl.exists_inhabited
  exact analyzed.covers isOf keeps (.fieldName mem) live

theorem IsAnalyzed.coversListedAgain (analyzed : decl.IsAnalyzed) : decl.CoversListedAgain := by
  intro method mem first body declares concrete has
  obtain ⟨cls, kept, isOf, live, keeps⟩ :=
    @exists_reaching decl ⟨method.space, method.name⟩ first declares concrete
  obtain ⟨demands, followed, sub⟩ := analyzed.covers isOf keeps (.method mem has) live
  rw [ClassSummary.followed, method?_summary_eq_map, declares] at followed
  obtain rfl := List.mem_singleton.1 followed
  exact sub

/-- All code that can be kept of a class is covered if and only if the names of its JavaScript
fields are, and all methods that it lists another time. -/
theorem isAnalyzed_iff (decl : ClassDecl) :
    decl.IsAnalyzed ↔ decl.CoversFieldNames ∧ decl.CoversListedAgain := by
  refine ⟨fun analyzed => ⟨analyzed.coversFieldNames, analyzed.coversListedAgain⟩, ?_⟩
  rintro ⟨names, again⟩ cls version made kept isOf keeps keeper code listed
  rcases (KeptClass.has_ofRecord keeps).1 listed with ⟨has, live⟩ | made
  · right
    cases has with
    | method mem has =>
      obtain ⟨first, declares, concrete⟩ := exists_first_of_keeps isOf keeps live
      exact covers_method declares (again _ mem _ _ declares concrete has)
    | fieldName mem => exact names _ _ mem
    | jsConstructor has => exact covers_jsConstructor has
    | member mem => exact covers_member mem
    | function at_ target => exact covers_function at_ target
  · exact .inl made

/-- A JavaScript class with a field whose name is read from a module. -/
def namedByModule : ClassDecl :=
  { ofMethods ⟨"A"⟩ .js [⟨"N"⟩] [] with
    fields := [.computed (.module ⟨"M"⟩) (.primitive .int)]
    jsConstructor := some ⟨[], .skip⟩
    exports := [⟨"A", .jsClass⟩] }

/-- What is followed for instances of this class demands nothing, and the name of the field the
module. -/
theorem not_isAnalyzed_namedByModule : ¬ ∀ decl : ClassDecl, decl.IsAnalyzed := by
  intro claimed
  obtain ⟨demands, followed, sub⟩ := (claimed namedByModule).coversFieldNames
    (.module ⟨"M"⟩) (.primitive .int) List.mem_cons_self
  obtain rfl : demands = Expr.skip.demands := List.mem_singleton.1 followed
  have demanded : (⟨"M"⟩, .use .module) ∈ (Expr.module ⟨"M"⟩).demands.toList :=
    Expr.mem_demands.2 ⟨.module ⟨"M"⟩, List.mem_cons_self, List.mem_cons_self⟩
  obtain ⟨node, inside, demands⟩ := Expr.mem_demands.1 (sub demanded)
  obtain rfl := List.mem_singleton.1 inside
  cases demands

end ClassDecl

end ClassLinker
