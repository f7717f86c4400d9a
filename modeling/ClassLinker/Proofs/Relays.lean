import ClassLinker.Proofs.Bridges
import ClassLinker.Proofs.Callers

/-!
# Methods that depend on what has been added

Bridges and proxies are added where the analysis happens to need them, and are found afterwards.
So which ones there are depends on the order of the calls, and on calls that have nothing to do with
the class.

* `Universe.IsPlain`: the methods of which this is not true, for neither bridges nor proxies stand
  for them;
* `Relayed`: the others among the reachable methods, and those that they call. What is relayed stays
  so (`Moves.relayed`), for neither a plain method nor its callers are replaced.
-/

namespace ClassLinker

variable {setting : Setting} {state next : State} {world : Universe}
variable {name owner : ClassName} {cls : ClassRecord} {entry : MethodRecord}
variable {id : MethodId} {method : MethodName}

/-- Neither the class nor anything above it declares code for the public method. -/
structure Universe.LacksCode (world : Universe) (name : ClassName) (method : MethodName) :
    Prop where
  lacks : ∀ owner, ¬ Implementor world.classes method name owner
  owners : defaultOwnersIn world.classes name method = []

/-- Calls of the method are not reflective, and if it is public, then its class declares code for
it, or nothing does. (An abstract method of a class that inherits code is not plain, for a call gets
to it only if the same call has been dispatched before.) -/
structure Universe.IsPlain (world : Universe) (id : MethodId) : Prop where
  direct : id.space = .publicInstance → id.name.isProxy = false
  bare : id.space = .publicInstance →
    Implementor world.classes id.name id.owner id.owner ∨ world.LacksCode id.owner id.name

/-- The method is reachable, and it is not plain or is called by a method that is not. -/
def Relayed (world : Universe) (methods : MethodId → Option MethodRecord) (id : MethodId) : Prop :=
  ∃ entry, methods id = some entry ∧ entry.isReached = true ∧
    (¬ world.IsPlain id ∨ ∃ caller, .method caller ∈ entry.callers ∧ ¬ world.IsPlain caller)

/-- Where nothing is declared with code, nothing is found, for no bridge has been added either. -/
theorem Universe.LacksCode.not_implementor (lacking : setting.world.LacksCode name method)
    (direct : method.isProxy = false) (fair : setting.IsFair) (valid : state.Valid setting)
    (bridged : state.Bridged setting) (found : state.class? name = some cls) :
    ¬ Implementor state.class? method name owner := by
  intro implementor
  rcases bridged.declared_or_fits valid direct implementor with own | ⟨_, _, first, _⟩
  · exact lacking.lacks owner ((valid.implementor_declared_iff implementor owner).2 own)
  · have mem := implementor.mem_ancestors valid.follows fair.rooted found
    have empty := defaultOwnersIn_eq_nil_of_mem (Universe.follows_classes fair.rooted) fair.rooted
      (valid.follows.classes_eq found) mem lacking.owners
    rw [empty] at first
    cases first

section

variable (fair : setting.IsFair) (valid : state.Valid setting)

include fair valid

theorem Change.relayed (change : Change setting state next)
    (relayed : Relayed setting.world state.method? id) :
    Relayed setting.world next.method? id := by
  obtain ⟨entry, at_, reached, why⟩ := relayed
  obtain ⟨later, at_', reached'⟩ := change.grows.isReached ⟨entry, at_, reached⟩
  by_cases plain : setting.world.IsPlain id
  · obtain ⟨caller, mem, added⟩ := why.resolve_left fun h => h plain
    -- A bridge in place of an abstract method would lose the callers, but a plain method gets none.
    have kept : id.space = .publicInstance → setting.allow = false ∨
        (∃ nearest, Implementor state.class? id.name id.owner nearest) ∨
          state.defaultOwners id.owner id.name = [] := by
      intro space
      obtain ⟨cls, found, _⟩ := Option.bind_eq_some_iff.1 at_
      obtain ⟨owner, _, method⟩ := id
      obtain rfl : _ = Namespace.publicInstance := space
      refine .inr ((plain.bare rfl).imp (valid.exists_implementor fair found) fun lacking => ?_)
      exact (valid.defaultOwners_eq found method).trans lacking.owners
    obtain ⟨same, at_'', mem⟩ := change.hasCaller fair valid kept ⟨entry, at_, mem⟩
    obtain rfl := Option.some.inj (at_'.symm.trans at_'')
    exact ⟨later, at_', reached', .inr ⟨caller, mem, added⟩⟩
  · exact ⟨later, at_', reached', .inl plain⟩

/-- What is relayed stays so. -/
theorem Moves.relayed (moves : Moves setting state next)
    (relayed : Relayed setting.world state.method? id) :
    Relayed setting.world next.method? id := by
  induction moves with
  | refl => exact relayed
  | tail early move ih =>
    cases move with
    | change change => exact change.relayed fair (Moves.valid fair early valid) ih
    | take => exact ih

end

end ClassLinker
