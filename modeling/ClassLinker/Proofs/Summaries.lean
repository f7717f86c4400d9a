import ClassLinker.Summary
import Mathlib.Data.List.Nodup

/-!
# What summaries tell of declarations

`Demands.toList` lists whatever has been recorded and nothing else (`Demands.mem_recordAll`), so an
expression demands exactly what its nodes do (`Expr.mem_demands`).

Of several methods with the same key, a class has only the first. If it lists none twice, then every
method has its summary (`ClassDecl.method?_summary`).
-/

namespace ClassLinker

variable {cls other : ClassName} {demand added : Demand} {demands : Demands}

namespace Demands

/-- The list of all demands holds the demands on each class. -/
theorem mem_toList : (cls, demand) ∈ demands.toList ↔ demand ∈ (demands.on cls).toList := by
  simp only [toList, List.mem_flatMap, List.mem_map, Prod.mk.injEq]
  constructor
  · rintro ⟨⟨key, known⟩, mem, _, listed, rfl, rfl⟩
    have found := Std.ExtTreeMap.mem_toList_iff_getElem?_eq_some.1 mem
    rwa [on, Std.ExtTreeMap.getD_eq_getD_getElem?, found]
  · intro listed
    cases found : demands.byClass[cls]? with
    | none =>
      rw [on, Std.ExtTreeMap.getD_eq_getD_getElem?, found] at listed
      cases listed
    | some known =>
      rw [on, Std.ExtTreeMap.getD_eq_getD_getElem?, found] at listed
      exact ⟨(cls, known), Std.ExtTreeMap.mem_toList_iff_getElem?_eq_some.2 found, demand, listed,
        rfl, rfl⟩

theorem mem_record : (other, demand) ∈ (demands.record cls added).toList ↔
    (other, demand) = (cls, added) ∨ (other, demand) ∈ demands.toList := by
  rw [mem_toList, mem_toList, on_record]
  by_cases same : cls = other
  · subst same
    simp [ClassDemands.mem_toList_record]
  · simp [same, Ne.symm same]

@[simp] theorem toList_empty : (∅ : Demands).toList = [] := by
  show (∅ : Std.ExtTreeMap ClassName ClassDemands).toList.flatMap _ = []
  simp

/-- What has been recorded is listed, and nothing else. -/
theorem mem_recordAll {more : List (ClassName × Demand)} {entry : ClassName × Demand} :
    entry ∈ (demands.recordAll more).toList ↔ entry ∈ more ∨ entry ∈ demands.toList := by
  obtain ⟨other, demand⟩ := entry
  induction more generalizing demands with
  | nil => simp [recordAll]
  | cons first rest ih =>
    show (other, demand) ∈ ((demands.record first.1 first.2).recordAll rest).toList ↔ _
    rw [ih, mem_record, List.mem_cons]
    tauto

end Demands

/-- An expression demands what its nodes demand, and nothing else. -/
theorem Expr.mem_demands {expr : Expr} {entry : ClassName × Demand} :
    entry ∈ expr.demands.toList ↔ ∃ node ∈ expr.nodes, entry ∈ node.ownDemands := by
  rw [demands, Demands.addExpr, Demands.mem_recordAll, Demands.toList_empty, List.mem_flatMap]
  simp

/-- An exported member demands what its body demands, and the type data of its parameters. -/
theorem ExportedMember.mem_demands {member : ExportedMember} {entry : ClassName × Demand} :
    entry ∈ member.demands.toList ↔
      (∃ param ∈ member.params, entry ∈ param.type.dataDemands) ∨
        entry ∈ member.body.demands.toList := by
  rw [demands, Demands.mem_recordAll, List.mem_flatMap]

/-! ### Methods -/

/-- The methods of the class, by namespace and name. -/
def ClassDecl.methodKeys (decl : ClassDecl) : List MethodKey :=
  decl.methods.map fun method => ⟨method.space, method.name⟩

/-- Two methods of the same key are the same if no method is listed twice. -/
theorem ClassDecl.eq_of_mem_summary {decl : ClassDecl} (nodup : decl.methodKeys.Nodup)
    {first second : MethodSummary} (memFirst : first ∈ decl.summary.methods)
    (memSecond : second ∈ decl.summary.methods) (space : first.space = second.space)
    (name : first.name = second.name) : first = second := by
  obtain ⟨method, hm, rfl⟩ := List.mem_map.1 memFirst
  obtain ⟨other, ho, rfl⟩ := List.mem_map.1 memSecond
  have same : method = other := by
    refine List.inj_on_of_nodup_map nodup hm ho ?_
    exact congrArg₂ MethodKey.mk space name
  rw [same]

/-- A method is found by its key if no method is listed twice. -/
theorem ClassDecl.method?_of_mem {decl : ClassDecl} (nodup : decl.methodKeys.Nodup)
    {method : MethodDecl} (mem : method ∈ decl.methods) :
    decl.method? method.space method.name = some method := by
  have isSome : (decl.method? method.space method.name).isSome = true :=
    List.find?_isSome.2 ⟨method, mem, by simp⟩
  obtain ⟨found, declares⟩ := Option.isSome_iff_exists.1 isSome
  obtain ⟨listed, space, name⟩ := ClassDecl.mem_of_method? declares
  rw [declares, List.inj_on_of_nodup_map nodup listed mem (congrArg₂ MethodKey.mk space name)]

/-- The summary of a class has the summaries of its methods. -/
theorem ClassDecl.method?_summary_eq_map (decl : ClassDecl) (space : Namespace)
    (name : MethodName) :
    decl.summary.method? space name = (decl.method? space name).map MethodDecl.summary :=
  List.find?_map ..

theorem ClassDecl.method?_summary {decl : ClassDecl} (nodup : decl.methodKeys.Nodup)
    {method : MethodDecl} (mem : method ∈ decl.methods) :
    decl.summary.method? method.space method.name = some method.summary := by
  rw [method?_summary_eq_map, method?_of_mem nodup mem, Option.map_some]

end ClassLinker
