import ClassLinker.Proofs.Branching
import ClassLinker.Proofs.Summaries
import Mathlib.Data.List.Induction

/-!
# What a traversal of code records

The demands of an expression are recorded while its nodes are visited in pre-order.
`Expr.AsksFor` tells what a single node demands of a class, and `Demands.Reflects` that the recorded
demands are those of the nodes: every class that a node demands something of and no other, every way
of use that a node demands and no other, and every call once, where a node first demands it.

`Expr.demands_exact` states this for the demands of an expression, together with two laws: recording
them again changes nothing, and recording those of a block is recording those of its statements in
turn.
-/

namespace ClassLinker

/-! ### Entries in the order of the first node that asks for them -/

/-- Some node asks for the first entry before any node asks for the second. -/
def AskedBefore {α β : Type} (asks : α → β → Prop) (nodes : List α) (first second : β) : Prop :=
  ∃ before node after, nodes = before ++ node :: after ∧ asks node first ∧
    ∀ earlier ∈ before ++ [node], ¬ asks earlier second

/-- The list has whatever some node asks for, in the order in which the nodes first ask for it. -/
structure FirstAsked {α β : Type} (asks : α → β → Prop) (nodes : List α) (entries : List β) :
    Prop where
  mem : ∀ entry, entry ∈ entries ↔ ∃ node ∈ nodes, asks node entry
  nodup : entries.Nodup
  inOrder : entries.Pairwise (AskedBefore asks nodes)

section

variable {α β : Type} {asks : α → β → Prop} {nodes : List α} {node : α} {entry other : β}
  {entries : List β}

/-- More nodes at the end make no difference to what has been asked before. -/
theorem AskedBefore.concat (earlier : AskedBefore asks nodes entry other) (node : α) :
    AskedBefore asks (nodes ++ [node]) entry other := by
  obtain ⟨before, asker, after, rfl, asked, later⟩ := earlier
  exact ⟨before, asker, after ++ [node], by rw [List.append_assoc]; rfl, asked, later⟩

/-- What some node asks for comes before what no node asks for. -/
theorem AskedBefore.of_fresh (asked : ∃ node ∈ nodes, asks node entry)
    (fresh : ¬ ∃ node ∈ nodes, asks node other) : AskedBefore asks nodes entry other := by
  obtain ⟨asker, mem, asked⟩ := asked
  obtain ⟨before, after, rfl⟩ := List.append_of_mem mem
  refine ⟨before, asker, after, rfl, asked, fun earlier early asks => fresh ⟨earlier, ?_, asks⟩⟩
  rw [List.append_cons]
  exact List.mem_append_left _ early

namespace FirstAsked

theorem mem_concat (first : FirstAsked asks nodes entries) :
    (∃ asker ∈ nodes ++ [node], asks asker entry) ↔ entry ∈ entries ∨ asks node entry := by
  rw [first.mem]
  simp [or_and_right, exists_or]

/-- A node that asks for nothing makes no difference. -/
theorem concat_none (first : FirstAsked asks nodes entries) (idle : ∀ entry, ¬ asks node entry) :
    FirstAsked asks (nodes ++ [node]) entries where
  mem entry := by rw [first.mem_concat, or_iff_left (idle entry)]
  nodup := first.nodup
  inOrder := first.inOrder.imp fun earlier => earlier.concat node

/-- What one more node asks for is recorded behind all that others have asked for. -/
theorem concat [DecidableEq β] (first : FirstAsked asks nodes entries)
    (only : ∀ other, asks node other ↔ other = entry) :
    FirstAsked asks (nodes ++ [node]) (recordOnce entries entry) where
  mem other := by rw [mem_recordOnce, first.mem_concat, only]
  nodup := nodup_recordOnce first.nodup entry
  inOrder := by
    have earlier := first.inOrder.imp fun earlier => earlier.concat node
    unfold recordOnce
    split
    · exact earlier
    · rename_i fresh
      refine List.pairwise_append.2 ⟨earlier, List.pairwise_singleton .., ?_⟩
      intro other listed last isLast
      rw [List.mem_singleton.1 isLast]
      refine .concat (.of_fresh ((first.mem other).1 listed) ?_) node
      rwa [← first.mem]

/-- If no node asks for two entries, then what the nodes ask for is in the order of the first node
that asks once its repetitions are dropped. -/
theorem of_eraseDups [DecidableEq β] (f : α → List β) (atMostOne : ∀ node, (f node).length ≤ 1)
    (nodes : List α) :
    FirstAsked (fun node entry => entry ∈ f node) nodes (nodes.flatMap f).eraseDups := by
  -- From the last node backwards, since entries are recorded at the end.
  induction nodes using List.reverseRecOn with
  | nil => exact ⟨by simp, by simp, by simp⟩
  | append_singleton nodes node ih =>
    rw [List.flatMap_append, List.flatMap_singleton, eraseDups_eq_foldl, List.foldl_append,
      ← eraseDups_eq_foldl]
    match asked : f node, atMostOne node with
    | [], _ => exact ih.concat_none (by simp [asked])
    | [entry], _ => exact ih.concat (by simp [asked])

end FirstAsked

end

/-! ### What a node asks for -/

namespace Ty

variable {type : Ty} {cls : ClassName} {demand : Demand}

theorem base_addDims_depth (type : Ty) : type.base.addDims type.depth = type := by
  induction type with
  | array elem ih => exact congrArg array ih
  | void | primitive _ | named _ => rfl

/-- The base of a type is a class if the type is the class or an array of it. -/
theorem baseName?_eq_some :
    type.baseName? = some cls ↔ ∃ dims, type = (named cls).addDims dims := by
  have base : type.baseName? = some cls ↔ type.base = named cls := by
    rw [baseName?]
    cases type.base <;> simp
  rw [base]
  constructor
  · intro base
    exact ⟨type.depth, by rw [← base, base_addDims_depth]⟩
  · rintro ⟨dims, rfl⟩
    exact base_addDims ..

theorem mem_dataDemands : (cls, demand) ∈ type.dataDemands ↔
    demand = .use .typeData ∧ ∃ dims, type = (named cls).addDims dims := by
  rw [← baseName?_eq_some, dataDemands]
  cases type.baseName? <;> simp [eq_comm, and_comm]

/-- A test against a class needs the class, and one against an array of it the type data. -/
theorem mem_testDemands : (cls, demand) ∈ type.testDemands ↔
    demand = .use .tests ∧ type = named cls ∨
      demand = .use .typeData ∧ ∃ dims, type = (named cls).addDims (dims + 1) := by
  have listed : (cls, demand) ∈ type.testDemands ↔ type.baseName? = some cls ∧
      demand = .use (if type.depth = 0 then .tests else .typeData) := by
    rw [testDemands]
    cases type.baseName? <;> simp [eq_comm]
  rw [listed, baseName?_eq_some]
  constructor
  · rintro ⟨⟨_ | dims, rfl⟩, rfl⟩
    · exact .inl ⟨rfl, rfl⟩
    · exact .inr ⟨by simp, dims, rfl⟩
  · rintro (⟨rfl, rfl⟩ | ⟨rfl, dims, rfl⟩)
    · exact ⟨⟨0, rfl⟩, rfl⟩
    · exact ⟨⟨dims + 1, rfl⟩, by simp⟩

end Ty

namespace Expr

/-- The node demands something of a class, its operands left aside. -/
inductive AsksFor : Expr → ClassName → Demand → Prop
  | instances (cls ctor args) : AsksFor (.new cls ctor args) cls (.use .instances)
  | constructor (cls ctor args) :
      AsksFor (.new cls ctor args) cls (.callDirect ⟨.constructor, ctor⟩)
  | module (cls) : AsksFor (.module cls) cls (.use .module)
  | jsModule (cls) : AsksFor (.jsModule cls) cls (.use .module)
  | jsConstructor (cls) : AsksFor (.jsConstructor cls) cls (.use .instances)
  | staticField (cls name) : AsksFor (.staticField cls name) cls (.use .staticFields)
  | privateJSField (cls object name) :
      AsksFor (.privateJSField cls object name) cls (.use .privateFields)
  | call (cls receiver method args) :
      AsksFor (.call cls receiver method args) cls (.call method)
  | callDirect (cls space receiver method args) :
      AsksFor (.callDirect cls space receiver method args) cls (.callDirect ⟨space, method⟩)
  | callStatic (cls space method args) :
      AsksFor (.callStatic cls space method args) cls (.callDirect ⟨space, method⟩)
  | isInstance (cls value) : AsksFor (.isInstance value (.named cls)) cls (.use .tests)
  | isInstanceOfArray (cls value dims) :
      AsksFor (.isInstance value ((Ty.named cls).addDims (dims + 1))) cls (.use .typeData)
  | cast (cls value) : AsksFor (.cast value (.named cls)) cls (.use .tests)
  | castToArray (cls value dims) :
      AsksFor (.cast value ((Ty.named cls).addDims (dims + 1))) cls (.use .typeData)
  | classOf (cls dims) : AsksFor (.classOf ((Ty.named cls).addDims dims)) cls (.use .typeData)
  | newArray (cls dims lengths) :
      AsksFor (.newArray ((Ty.named cls).addDims dims) lengths) cls (.use .typeData)

variable {node : Expr} {cls : ClassName} {demand : Demand}

/-- The demands that are listed for a node are those that it asks for. -/
theorem mem_ownDemands : (cls, demand) ∈ node.ownDemands ↔ node.AsksFor cls demand := by
  constructor
  · intro mem
    cases node with
    | new named ctor args =>
      rcases List.mem_cons.1 mem with first | mem
      · cases first
        exact .instances ..
      · obtain ⟨⟩ := List.mem_singleton.1 mem
        exact .constructor ..
    | isInstance value type =>
      obtain ⟨rfl, rfl⟩ | ⟨rfl, dims, rfl⟩ := Ty.mem_testDemands.1 mem
      · exact .isInstance ..
      · exact .isInstanceOfArray ..
    | cast value type =>
      obtain ⟨rfl, rfl⟩ | ⟨rfl, dims, rfl⟩ := Ty.mem_testDemands.1 mem
      · exact .cast ..
      · exact .castToArray ..
    | classOf type =>
      obtain ⟨rfl, dims, rfl⟩ := Ty.mem_dataDemands.1 mem
      exact .classOf ..
    | newArray type lengths =>
      obtain ⟨rfl, dims, rfl⟩ := Ty.mem_dataDemands.1 mem
      exact .newArray ..
    | module | jsModule | jsConstructor | staticField | privateJSField | call | callDirect
    | callStatic =>
      obtain ⟨⟩ := List.mem_singleton.1 mem
      constructor
    | _ => cases mem
  · intro asks
    cases asks with
    | instances | constructor => simp [ownDemands, Demand.newInstance]
    | isInstance | cast => exact Ty.mem_testDemands.2 (.inl ⟨rfl, rfl⟩)
    | isInstanceOfArray | castToArray => exact Ty.mem_testDemands.2 (.inr ⟨rfl, _, rfl⟩)
    | classOf | newArray => exact Ty.mem_dataDemands.2 ⟨rfl, _, rfl⟩
    | _ => exact List.mem_singleton_self _

/-- A node demands one call at most. -/
theorem length_calls_le_one {β : Type} {call? : ClassName × Demand → Option β}
    (noUse : ∀ cls use, call? (cls, .use use) = none) (node : Expr) :
    (node.ownDemands.filterMap call?).length ≤ 1 := by
  have short : node.ownDemands.length ≤ 1 → (node.ownDemands.filterMap call?).length ≤ 1 :=
    (List.length_filterMap_le ..).trans
  cases node with
  -- Only creating an instance has two demands, and the first of them is no call.
  | new cls ctor args =>
    show (List.filterMap call? [(cls, .use .instances), _]).length ≤ 1
    rw [List.filterMap_cons_none (noUse ..)]
    exact List.length_filterMap_le ..
  | isInstance value type | cast value type =>
    refine short ?_
    show type.testDemands.length ≤ 1
    rw [Ty.testDemands]
    split <;> simp
  | classOf type | newArray type lengths =>
    refine short ?_
    show type.dataDemands.length ≤ 1
    rw [Ty.dataDemands]
    split <;> simp
  | _ => exact short (by simp [ownDemands])

/-- The expressions with their operands. -/
def branching : Branching Expr where
  below := operands
  size expr := expr.nodes.length
  smaller expr := by
    rw [nodes_eq, List.length_cons, List.length_flatMap]
    exact Nat.lt_succ_self _

/-- A walk visits the nodes of an expression in order. -/
theorem visited_eq_nodes (expr : Expr) : branching.visited expr = expr.nodes :=
  Branching.visited_unique nodes_eq expr

end Expr

/-! ### What has been recorded -/

/-- The method that is to be called with dynamic dispatch. -/
def Demand.call? : Demand → Option MethodName
  | .call method => some method
  | _ => none

/-- The method that is to be called without dynamic dispatch. -/
def Demand.callDirect? : Demand → Option MethodKey
  | .callDirect method => some method
  | _ => none

/-- A demand that is there already changes nothing. -/
theorem ClassDemands.record_of_mem {demands : ClassDemands} {demand : Demand}
    (known : demand ∈ demands.toList) : demands.record demand = demands := by
  obtain ⟨uses, calls, directCalls⟩ := demands
  cases demand with
  | use use =>
    have known : uses.contains use = true := by simpa [toList] using known
    have same : uses.insert use = uses := by
      refine Uses.ext_contains fun other => ?_
      rw [Uses.contains_insert]
      by_cases same : other = use <;> simp [same, known]
    rw [record, same]
  | call method =>
    have known : method ∈ calls := by simpa [toList] using known
    rw [record, recordOnce, if_pos known]
  | callDirect method =>
    have known : method ∈ directCalls := by simpa [toList] using known
    rw [record, recordOnce, if_pos known]

namespace Demands

variable {demands : Demands} {more : List (ClassName × Demand)} {cls : ClassName} {demand : Demand}

theorem not_mem_byClass_empty (cls : ClassName) : cls ∉ (∅ : Demands).byClass :=
  Std.ExtTreeMap.not_mem_empty

theorem on_empty (cls : ClassName) : (∅ : Demands).on cls = {} :=
  Std.ExtTreeMap.getD_empty

theorem recordAll_cons (demands : Demands) (first : ClassName × Demand)
    (rest : List (ClassName × Demand)) :
    demands.recordAll (first :: rest) = (demands.record first.1 first.2).recordAll rest :=
  rfl

theorem record_of_mem (known : (cls, demand) ∈ demands.toList) :
    demands.record cls demand = demands := by
  have listed := mem_toList.1 known
  have present : demands.byClass[cls]? = some (demands.on cls) := by
    rw [on, Std.ExtTreeMap.getD_eq_getD_getElem?] at listed ⊢
    cases found : demands.byClass[cls]? with
    | none =>
      rw [found] at listed
      cases listed
    | some known => rfl
  have same : demands.byClass.insert cls (demands.on cls) = demands.byClass := by
    refine Std.ExtTreeMap.ext_getElem? fun other => ?_
    rw [Std.ExtTreeMap.getElem?_insert]
    split
    · rename_i same
      rw [← Std.LawfulEqOrd.eq_of_compare same, present]
    · rfl
  rw [record, ClassDemands.record_of_mem listed, same]

/-- Demands that are there already change nothing. -/
theorem recordAll_of_subset (known : more ⊆ demands.toList) : demands.recordAll more = demands := by
  induction more with
  | nil => rfl
  | cons first rest ih =>
    obtain ⟨first_known, rest_known⟩ := List.cons_subset.1 known
    rw [recordAll_cons, record_of_mem first_known, ih rest_known]

/-- A class is there once something has been recorded for it. -/
theorem mem_byClass_recordAll : cls ∈ (demands.recordAll more).byClass ↔
    cls ∈ demands.byClass ∨ ∃ demand, (cls, demand) ∈ more := by
  induction more generalizing demands with
  | nil => simp [recordAll]
  | cons first rest ih =>
    obtain ⟨other, added⟩ := first
    rw [recordAll_cons, ih, record, Std.ExtTreeMap.mem_insert]
    simp only [Std.LawfulEqOrd.compare_eq_iff_eq, List.mem_cons, Prod.mk.injEq, exists_or,
      exists_and_left, exists_eq, and_true]
    rw [eq_comm (a := other), or_assoc, or_left_comm]

/-- A list of calls is recorded entry by entry. -/
theorem calls_recordAll {β : Type} [DecidableEq β] {calls : ClassDemands → List β}
    {call? : Demand → Option β}
    (records : ∀ known demand, calls (known.record demand) =
      (call? demand).toList.foldl recordOnce (calls known)) :
    calls ((demands.recordAll more).on cls) =
      (more.filterMap fun asked => if asked.1 = cls then call? asked.2 else none).foldl recordOnce
        (calls (demands.on cls)) := by
  induction more generalizing demands with
  | nil => rfl
  | cons first rest ih =>
    obtain ⟨other, added⟩ := first
    rw [recordAll_cons, ih, on_record]
    by_cases same : other = cls
    · subst same
      cases asked : call? added <;> simp [records, asked]
    · simp [same]

/-- Calls that are recorded from the nodes of some code are in the order in which the nodes first
demand them. -/
theorem firstAsked_calls {β : Type} [DecidableEq β] (calls : ClassDemands → List β)
    (call? : Demand → Option β) {call : β → Demand}
    (records : ∀ known demand, calls (known.record demand) =
      (call? demand).toList.foldl recordOnce (calls known))
    (blank : calls {} = []) (noUse : ∀ use, call? (.use use) = none)
    (reads : ∀ demand entry, call? demand = some entry ↔ demand = call entry)
    (nodes : List Expr) (cls : ClassName) :
    FirstAsked (fun node entry => node.AsksFor cls (call entry)) nodes
      (calls (((∅ : Demands).recordAll (nodes.flatMap Expr.ownDemands)).on cls)) := by
  let asked : ClassName × Demand → Option β := fun asked =>
    if asked.1 = cls then call? asked.2 else none
  have own (node : Expr) (entry : β) :
      entry ∈ node.ownDemands.filterMap asked ↔ node.AsksFor cls (call entry) := by
    rw [← Expr.mem_ownDemands]
    simp [asked, reads]
  have first : FirstAsked _ nodes _ :=
    .of_eraseDups (fun node => node.ownDemands.filterMap asked)
      (Expr.length_calls_le_one fun cls use => by simp [asked, noUse]) nodes
  simp only [own] at first
  rwa [calls_recordAll records, List.filterMap_flatMap, on_empty, blank, ← eraseDups_eq_foldl]

/-- The demands are those of the nodes. -/
structure Reflects (demands : Demands) (nodes : List Expr) : Prop where
  present : ∀ cls, cls ∈ demands.byClass ↔ ∃ node ∈ nodes, ∃ demand, node.AsksFor cls demand
  uses : ∀ cls use, (demands.on cls).uses.contains use = true ↔
    ∃ node ∈ nodes, node.AsksFor cls (.use use)
  calls : ∀ cls, FirstAsked (fun node method => node.AsksFor cls (.call method)) nodes
    (demands.on cls).calls
  directCalls : ∀ cls, FirstAsked (fun node method => node.AsksFor cls (.callDirect method)) nodes
    (demands.on cls).directCalls

/-- What is recorded from nodes reflects them. -/
theorem reflects_recordAll (nodes : List Expr) :
    Reflects ((∅ : Demands).recordAll (nodes.flatMap Expr.ownDemands)) nodes where
  present cls := by
    rw [mem_byClass_recordAll, or_iff_right (not_mem_byClass_empty cls)]
    simp only [List.mem_flatMap, Expr.mem_ownDemands]
    tauto
  uses cls use := by
    have listed : (((∅ : Demands).recordAll (nodes.flatMap Expr.ownDemands)).on cls).uses.contains
        use = true ↔ (cls, .use use) ∈ ((∅ : Demands).recordAll
          (nodes.flatMap Expr.ownDemands)).toList := by
      rw [mem_toList]
      simp [ClassDemands.toList]
    rw [listed, mem_recordAll, toList_empty, List.mem_flatMap]
    simp [Expr.mem_ownDemands]
  calls := firstAsked_calls ClassDemands.calls Demand.call?
    (fun known demand => by cases demand <;> rfl) rfl (fun _ => rfl)
    (fun demand method => by cases demand <;> simp [Demand.call?]) nodes
  directCalls := firstAsked_calls ClassDemands.directCalls Demand.callDirect?
    (fun known demand => by cases demand <;> rfl) rfl (fun _ => rfl)
    (fun demand method => by cases demand <;> simp [Demand.callDirect?]) nodes

/-- The demands of a block are those of its statements, one after the other. -/
theorem addExpr_block (demands : Demands) (stats : List Expr) :
    demands.addExpr (.block stats) = stats.foldl addExpr demands := by
  rw [addExpr, Expr.nodes_eq, List.flatMap_cons, List.flatMap_assoc]
  show demands.recordAll (stats.flatMap fun expr => expr.nodes.flatMap Expr.ownDemands) = _
  induction stats generalizing demands with
  | nil => rfl
  | cons first rest ih => rw [List.flatMap_cons, recordAll_append, ih, List.foldl_cons, addExpr]

/-- An expression that has been traversed adds nothing the second time. -/
theorem addExpr_addExpr (demands : Demands) (expr : Expr) :
    (demands.addExpr expr).addExpr expr = demands.addExpr expr :=
  recordAll_of_subset fun _ mem => mem_recordAll.2 (.inl mem)

/-- The demands of an expression are recorded while its nodes are visited. -/
theorem addExpr_eq_walk (demands : Demands) (expr : Expr) :
    demands.addExpr expr = Expr.branching.walk
      (fun demands node => demands.recordAll node.ownDemands) demands [expr] := by
  rw [Branching.walk_eq, List.flatMap_singleton, Expr.visited_eq_nodes, addExpr]
  generalize expr.nodes = nodes
  induction nodes generalizing demands with
  | nil => rfl
  | cons node nodes ih => rw [List.flatMap_cons, recordAll_append, ih, List.foldl_cons]

end Demands

/-- The demands of an expression are those of its nodes. A walk visits all nodes in pre-order, each
once, and records what they ask for; the demands hold that and nothing else, with the calls in the
order of the first node that asks for them. To traverse an expression again changes nothing, and to
traverse a block is to traverse its statements in turn. -/
theorem Expr.demands_exact (expr : Expr) (demands : Demands) (stats : List Expr) :
    branching.visited expr = expr.nodes ∧ branching.IsPreorder expr expr.nodes ∧
      demands.addExpr expr = branching.walk
        (fun demands node => demands.recordAll node.ownDemands) demands [expr] ∧
      expr.demands.Reflects expr.nodes ∧
      (demands.addExpr expr).addExpr expr = demands.addExpr expr ∧
      demands.addExpr (.block stats) = stats.foldl Demands.addExpr demands := by
  have preorder := branching.isPreorder_visited expr
  rw [visited_eq_nodes] at preorder
  exact ⟨visited_eq_nodes expr, preorder, demands.addExpr_eq_walk expr,
    Demands.reflects_recordAll expr.nodes, demands.addExpr_addExpr expr,
    demands.addExpr_block stats⟩

end ClassLinker
