import ClassLinker.Provenance
import ClassLinker.Proofs.Certificates
import ClassLinker.Proofs.Origins

/-!
# Provenance ends at a root

`Analysis.provenance` follows first causes as long as they lead to something new. `Analysis.Traces`
is the same without a look at what has been met, so it ends only where there is no first cause.

* What can be traced is traced in one way, hence without meeting anything twice
  (`Analysis.Traces.nodup`), and there are no more causes than the steps that `provenance` may take:
  so `provenance` gives the whole trace (`Analysis.Traces.provenance_eq`).
* Everything that a run has come across can be traced to a root, because it is backed
  (`State.Backed`).

`analyze_traces` puts both together: the provenance of a reachable method leads by first callers to
a component or to the exports, and that of an error may also end at a class without creators.
-/

namespace ClassLinker

variable {allow : Bool} {requirement : Requirement} {loader after : Loader} {state : State}
variable {analysis : Analysis} {cause first : Cause} {chain : List Cause} {name : ClassName}
variable {cls : ClassRecord}

/-- A cause that has no cause itself: a component, or the exports. -/
inductive Cause.IsRoot : Cause → Prop
  | component (text : String) : IsRoot (.component text)
  | exports : IsRoot .exports

namespace Analysis

/-- Following first causes leads through the chain, to the end. -/
inductive Traces (analysis : Analysis) : Cause → List Cause → Prop
  | last {cause : Cause} (ends : analysis.firstCause? cause = none) : Traces analysis cause [cause]
  | step {cause first : Cause} {chain : List Cause} (next : analysis.firstCause? cause = some first)
      (rest : Traces analysis first chain) : Traces analysis cause (cause :: chain)

/-- The first caller of each method of the chain is the next cause, and the last cause is a root. -/
inductive IsCallChain (analysis : Analysis) : List Cause → Prop
  | root {cause : Cause} (isRoot : cause.IsRoot) : IsCallChain analysis [cause]
  | caller {id : MethodId} {entry : MethodRecord} {first : Cause} {rest : List Cause}
      (at_ : analysis.method? id = some entry) (reached : entry.isReached = true)
      (head : entry.callers.head? = some first) (earlier : IsCallChain analysis (first :: rest)) :
      IsCallChain analysis (.method id :: first :: rest)

/-! ### Traces -/

namespace Traces

theorem exists_cons (traces : analysis.Traces cause chain) : ∃ rest, chain = cause :: rest := by
  cases traces with
  | last => exact ⟨[], rfl⟩
  | step => exact ⟨_, rfl⟩

/-- There is one trace only. -/
theorem unique {other : List Cause} (traces : analysis.Traces cause chain)
    (traces' : analysis.Traces cause other) : chain = other := by
  induction traces generalizing other with
  | last ends =>
    cases traces' with
    | last => rfl
    | step next => rw [ends] at next; cases next
  | step next _ ih =>
    cases traces' with
    | last ends => rw [next] at ends; cases ends
    | step next' rest' =>
      obtain rfl := Option.some.inj (next.symm.trans next')
      rw [ih rest']

/-- What is met on the way is traced through the rest of the way. -/
theorem exists_of_mem {other : Cause} (traces : analysis.Traces cause chain)
    (mem : other ∈ chain) : ∃ rest, analysis.Traces other rest ∧ rest.length ≤ chain.length := by
  induction traces with
  | last ends =>
    obtain rfl := List.mem_singleton.1 mem
    exact ⟨_, .last ends, le_rfl⟩
  | step next rest ih =>
    rcases List.mem_cons.1 mem with rfl | mem
    · exact ⟨_, .step next rest, le_rfl⟩
    · obtain ⟨rest, traces, shorter⟩ := ih mem
      exact ⟨rest, traces, shorter.trans (Nat.le_succ _)⟩

/-- Nothing is met twice, for then the way would never end. -/
theorem nodup (traces : analysis.Traces cause chain) : chain.Nodup := by
  induction traces with
  | last => exact List.nodup_singleton _
  | @step cause first chain next rest ih =>
    refine List.nodup_cons.2 ⟨fun again => ?_, ih⟩
    obtain ⟨later, traces, shorter⟩ := rest.exists_of_mem again
    have same : cause :: chain = later := (Traces.step next rest).unique traces
    have longer : later.length = chain.length + 1 := by rw [← same, List.length_cons]
    omega

/-- Looking at what has been met makes no difference. -/
theorem causesFrom_eq (traces : analysis.Traces cause chain) {steps : Nat}
    (enough : chain.length ≤ steps) {met : List Cause} (fresh : ∀ other ∈ chain, other ∉ met) :
    analysis.causesFrom steps met cause = chain := by
  induction traces generalizing steps met with
  | @last cause ends =>
    obtain ⟨steps, rfl⟩ := Nat.exists_eq_add_of_le' enough
    rw [List.length_singleton, causesFrom, if_neg (fresh cause List.mem_cons_self), ends]
  | @step cause first chain next rest ih =>
    obtain ⟨steps, rfl⟩ := Nat.exists_eq_add_of_le' ((Nat.le_add_left 1 _).trans enough)
    have enough : chain.length ≤ steps := Nat.le_of_succ_le_succ enough
    have once : cause ∉ chain := (List.nodup_cons.1 (Traces.step next rest).nodup).1
    rw [causesFrom, if_neg (fresh cause List.mem_cons_self), next]
    refine congrArg (cause :: ·) (ih enough fun other mem seen => ?_)
    rcases List.mem_cons.1 seen with rfl | seen
    · exact once mem
    · exact fresh other (List.mem_cons_of_mem _ mem) seen

end Traces

/-- A chain of callers ends at a root. -/
theorem IsCallChain.exists_root (calls : analysis.IsCallChain chain) :
    ∃ last, chain.getLast? = some last ∧ last.IsRoot := by
  induction calls with
  | root isRoot => exact ⟨_, rfl, isRoot⟩
  | caller _ _ _ _ ih =>
    obtain ⟨last, ends, isRoot⟩ := ih
    exact ⟨last, by rw [List.getLast?_cons_cons, ends], isRoot⟩

/-! ### How many causes there are -/

/-- Only the causes that are listed have a first cause. -/
theorem mem_causes (next : analysis.firstCause? cause = some first) : cause ∈ analysis.causes := by
  have listed : ∀ {name cls}, analysis.class? name = some cls →
      (name, cls) ∈ analysis.classes.toList :=
    fun found => Std.ExtTreeMap.mem_toList_iff_getElem?_eq_some.2 found
  cases cause with
  | component | exports => cases next
  | cls name =>
    obtain ⟨cls, found, _⟩ := Option.bind_eq_some_iff.1 next
    exact List.mem_flatMap.2 ⟨_, listed found, List.mem_cons_self⟩
  | method id =>
    obtain ⟨entry, at_, _⟩ := Option.bind_eq_some_iff.1 next
    obtain ⟨cls, found, has⟩ := Option.bind_eq_some_iff.1 at_
    refine List.mem_flatMap.2 ⟨_, listed found, List.mem_cons_of_mem _ (List.mem_map.2 ?_)⟩
    exact ⟨(id.key, entry), Std.ExtTreeMap.mem_toList_iff_getElem?_eq_some.2 has, rfl⟩

/-- A trace has at most one cause more than there are classes and methods, the root. -/
theorem Traces.length_le (traces : analysis.Traces cause chain) :
    chain.length ≤ analysis.causes.length + 1 := by
  have before_last : ∀ {cause chain}, analysis.Traces cause chain →
      chain.dropLast ⊆ analysis.causes := by
    intro cause chain traces
    induction traces with
    | last => exact List.nil_subset _
    | @step cause first chain next rest ih =>
      obtain ⟨tail, rfl⟩ := rest.exists_cons
      rw [List.dropLast_cons_of_ne_nil (List.cons_ne_nil _ _)]
      exact List.cons_subset.2 ⟨mem_causes next, ih⟩
  have few := (traces.nodup.sublist (List.dropLast_sublist _)).subperm (before_last traces)
  have length := few.length_le
  rw [List.length_dropLast] at length
  omega

/-- The provenance of a cause is its trace. -/
theorem Traces.provenance_eq (traces : analysis.Traces cause chain) :
    analysis.provenance cause = chain :=
  traces.causesFrom_eq traces.length_le fun _ _ seen => by cases seen

end Analysis

/-! ### Traces of what a run comes across -/

namespace State

/-- A cause of calls is traced by callers to a root. -/
theorem Rooted.traces (rooted : state.Rooted cause) :
    ∃ chain, state.result.Traces cause chain ∧ state.result.IsCallChain chain := by
  induction rooted with
  | component text => exact ⟨_, .last rfl, .root (.component text)⟩
  | exports => exact ⟨_, .last rfl, .root .exports⟩
  | @method id entry first at_ reached head _ ih =>
    obtain ⟨chain, traces, calls⟩ := ih
    obtain ⟨rest, rfl⟩ := traces.exists_cons
    rw [← state.method?_result] at at_
    have next : state.result.firstCause? (.method id) = some first := by
      rw [Analysis.firstCause?, at_]
      exact head
    exact ⟨_, .step next traces, .caller at_ reached head calls⟩

/-- A cause of instances is traced by callers and creators to a root. -/
theorem Creates.traces (creates : state.Creates cause) :
    ∃ chain last, state.result.Traces cause chain ∧ chain.getLast? = some last ∧ last.IsRoot := by
  induction creates with
  | call rooted =>
    obtain ⟨chain, traces, calls⟩ := rooted.traces
    obtain ⟨last, ends, isRoot⟩ := calls.exists_root
    exact ⟨chain, last, traces, ends, isRoot⟩
  | @cls name cls first found head _ ih =>
    obtain ⟨chain, last, traces, ends, isRoot⟩ := ih
    rw [← state.class?_result] at found
    have next : state.result.firstCause? (.cls name) = some first := by
      rw [Analysis.firstCause?, found]
      exact head
    obtain ⟨rest, rfl⟩ := traces.exists_cons
    exact ⟨_, last, .step next traces, ends, isRoot⟩

/-- The cause of an error is traced to a root, or to a class without creators. -/
theorem Backed.traces_error (backed : state.Backed) {error : Diagnostic}
    (mem : error ∈ state.errors) (has : error.cause? = some cause) :
    ∃ chain last, state.result.Traces cause chain ∧ chain.getLast? = some last ∧
      (last.IsRoot ∨ ∃ name, last = .cls name ∧
        ∀ cls, state.result.class? name = some cls → cls.creators = []) := by
  rcases backed.errors mem cause has with rooted | ⟨name, rfl⟩
  · obtain ⟨chain, last, traces, ends, isRoot⟩ := (Creates.call rooted).traces
    exact ⟨chain, last, traces, ends, .inl isRoot⟩
  · by_cases created : ∃ cls first, state.class? name = some cls ∧ cls.creators.head? = some first
    · obtain ⟨cls, first, found, head⟩ := created
      have creates := (backed.classes found).creators first (List.mem_of_head? head)
      obtain ⟨chain, last, traces, ends, isRoot⟩ := (Creates.cls found head creates).traces
      exact ⟨chain, last, traces, ends, .inl isRoot⟩
    · have bare : ∀ cls, state.result.class? name = some cls → cls.creators = [] := by
        intro cls found
        rw [state.class?_result] at found
        cases creators : cls.creators with
        | nil => rfl
        | cons first rest => exact absurd ⟨cls, first, found, by rw [creators]; rfl⟩ created
      have ends : state.result.firstCause? (.cls name) = none := by
        rw [Analysis.firstCause?]
        cases found : state.result.class? name with
        | none => rfl
        | some cls => rw [Option.bind_some, bare cls found]; rfl
      exact ⟨_, _, .last ends, rfl, .inr ⟨name, rfl, bare⟩⟩

end State

/-! ### Analyses -/

/-- Every reachable method has callers, each once, and the methods among them are reachable; its
provenance leads from it by first callers to a component or to the exports. That of an error leads
to one of these, or to a class that nothing creates. This asks for no class to declare a method by a
name that is reserved for proxies, if proxies may be added. -/
theorem analyze_traces (reserved : allow = true → loader.knows.ReservesProxies)
    (ends : analyze allow requirement loader = (.ok analysis, after)) :
    (∀ id entry, analysis.method? id = some entry → entry.isReached = true →
      (entry.callers ≠ [] ∧ entry.callers.Nodup ∧
        ∀ caller, .method caller ∈ entry.callers → analysis.IsReached caller) ∧
      (analysis.provenance (.method id)).head? = some (.method id) ∧
      (analysis.provenance (.method id)).Nodup ∧
      analysis.IsCallChain (analysis.provenance (.method id))) ∧
    ∀ error ∈ analysis.errors, ∀ cause, error.cause? = some cause →
      ∃ last, (analysis.provenance cause).getLast? = some last ∧
        (last.IsRoot ∨ ∃ name, last = .cls name ∧
          ∀ cls, analysis.class? name = some cls → cls.creators = []) := by
  rcases analyze_course ends with ⟨empty, refused⟩ | ⟨history, state, course, _, rfl⟩
  · refine ⟨fun id entry at_ _ => ?_, fun error mem cause has => ?_⟩
    · simp [Analysis.method?, Analysis.class?, empty] at at_
    · rcases refused with ⟨clean, _⟩ | ⟨refused, _⟩
      · rw [clean] at mem
        cases mem
      · rcases List.mem_cons.1 refused with missing | refused
        · rw [missing] at mem
          rw [List.mem_singleton.1 mem] at has
          cases has
        · rw [List.mem_singleton.1 refused] at mem
          rw [List.mem_singleton.1 mem] at has
          cases has
  · have reaches := course.reaches
    have backed : state.Backed :=
      Turns.backed reaches.isFair (fun _ => trivial) reserved reaches.turns
    refine ⟨fun id entry at_ reached => ?_, fun error mem cause has => ?_⟩
    · rw [state.method?_result] at at_
      have backs := backed.methods at_ reached
      obtain ⟨first, others, callers⟩ := List.exists_cons_of_ne_nil backs.nonempty
      have rooted : state.Rooted (.method id) := by
        refine .method at_ reached (by rw [callers]; rfl) (backs.rooted first ?_)
        rw [callers]
        exact List.mem_cons_self
      obtain ⟨chain, traces, calls⟩ := rooted.traces
      refine ⟨⟨backs.nonempty, backs.nodup, fun caller mem => ?_⟩, ?_⟩
      · cases backs.rooted _ mem with
        | method at_ reached =>
          exact ⟨_, (state.method?_result caller).trans at_, reached⟩
      · obtain ⟨rest, rfl⟩ := traces.exists_cons
        rw [traces.provenance_eq]
        exact ⟨rfl, traces.nodup, calls⟩
    · rcases State.mem_errors_or_conflict mem with mem | ⟨_, _, rfl⟩
      · obtain ⟨chain, last, traces, ends, stops⟩ := backed.traces_error mem has
        rw [traces.provenance_eq]
        exact ⟨last, ends, stops⟩
      · cases has

/-- Two methods that call one another, and a third one that calls the first of them. -/
def recursive : List ClassDecl :=
  [.ofMethods .object .plain [] [],
    .ofMethods ⟨"A"⟩ .plain [.object]
      [.plain .publicStatic ⟨"even__V"⟩ (some (.callStatic ⟨"A"⟩ .publicStatic ⟨"odd__V"⟩ [])),
        .plain .publicStatic ⟨"odd__V"⟩ (some (.callStatic ⟨"A"⟩ .publicStatic ⟨"even__V"⟩ [])),
        .plain .publicStatic ⟨"main__V"⟩ (some (.callStatic ⟨"A"⟩ .publicStatic ⟨"even__V"⟩ []))]]

/-- The provenance of the method that is called last does not run in circles. -/
theorem analyze_traces_recursive :
    ∃ analysis after entry, analyze true (.callStatic "test" ⟨"A"⟩ ⟨"main__V"⟩)
        (Loader.ofDecls recursive) = (.ok analysis, after) ∧
      analysis.method? ⟨⟨"A"⟩, .publicStatic, ⟨"odd__V"⟩⟩ = some entry ∧ entry.isReached = true ∧
      analysis.IsCallChain (analysis.provenance (.method ⟨⟨"A"⟩, .publicStatic, ⟨"odd__V"⟩⟩)) ∧
      (analysis.provenance (.method ⟨⟨"A"⟩, .publicStatic, ⟨"odd__V"⟩⟩)).length = 4 := by
  let method : MethodId := ⟨⟨"A"⟩, .publicStatic, ⟨"odd__V"⟩⟩
  have reserved : (Loader.ofDecls recursive).knows.ReservesProxies :=
    Loader.reservesProxies_ofDecls (by decide +kernel)
  have told : (analyze true (.callStatic "test" ⟨"A"⟩ ⟨"main__V"⟩)
      (Loader.ofDecls recursive)).1.toOption.map (fun analysis =>
        ((analysis.method? method).map MethodRecord.isReached,
          (analysis.provenance (.method method)).length)) = some (some true, 4) := by
    decide +kernel
  obtain ⟨analysis, after, ends, told⟩ := exists_of_toOption_map told
  obtain ⟨reached, length⟩ := Prod.mk.inj told
  obtain ⟨entry, at_, reached⟩ := Option.map_eq_some_iff.1 reached
  obtain ⟨_, _, _, chain⟩ := (analyze_traces (fun _ => reserved) ends).1 method entry at_ reached
  exact ⟨analysis, after, entry, ends, at_, reached, chain, length⟩

end ClassLinker
