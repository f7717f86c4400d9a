import ClassLinker.MethodId

/-!
# Requirements

What a linked program must hold whatever the program itself demands. A requirement is a tree whose
leaves are single needs, each with the text of the component that asks for it; it can be made
optional, which forgives classes that do not exist, and several can be combined.

`+` keeps combinations flat: it joins the lists of its operands and drops the empty requirement.
A combination written down as it is may be nested. `Requirement.isEmpty` looks through both forms.
-/

namespace ClassLinker

/-- A requirement. Every leaf begins with the text of the component that asks for it. -/
inductive Requirement where
  | module (asker : String) (cls : ClassName)
  | instances (asker : String) (cls : ClassName) (ctor : MethodName)
  | tests (asker : String) (cls : ClassName)
  | typeData (asker : String) (cls : ClassName)
  | staticField (asker : String) (cls : ClassName) (field : FieldName)
  /-- A call of an instance method, with dynamic dispatch. -/
  | call (asker : String) (cls : ClassName) (method : MethodName)
  /-- A call of the implementation that the class itself would use. -/
  | callDirect (asker : String) (cls : ClassName) (method : MethodName)
  /-- A call of a public static method. -/
  | callStatic (asker : String) (cls : ClassName) (method : MethodName)
  | optional (inner : Requirement)
  | every (all : List Requirement)
  | nothing
deriving Inhabited

namespace Requirement

/-- The requirements of a combination, one by one. -/
def parts : Requirement → List Requirement
  | every all => all
  | requirement => [requirement]

/-- Requires both operands. -/
def both : Requirement → Requirement → Requirement
  | nothing, second => second
  | first, nothing => first
  | first, second => every (first.parts ++ second.parts)

instance : Add Requirement := ⟨both⟩

/-- Requires all of a list. -/
def sum (all : List Requirement) : Requirement :=
  all.foldl (· + ·) nothing

mutual

/-- Tells whether nothing is required. -/
def isEmpty : Requirement → Bool
  | nothing => true
  | optional inner => inner.isEmpty
  | every all => allEmpty all
  | module _ _ | instances _ _ _ | tests _ _ | typeData _ _ | staticField _ _ _ | call _ _ _
  | callDirect _ _ _ | callStatic _ _ _ => false

/-- Tells whether each of a list requires nothing. -/
def allEmpty : List Requirement → Bool
  | [] => true
  | requirement :: rest => requirement.isEmpty && allEmpty rest

end

/-- Requires a call of a method on the instance of a module. -/
def onModule (asker : String) (cls : ClassName) (method : MethodName) : Requirement :=
  module asker cls + call asker cls method

@[simp] theorem nothing_add (requirement : Requirement) : nothing + requirement = requirement := by
  cases requirement <;> rfl

@[simp] theorem add_nothing (requirement : Requirement) : requirement + nothing = requirement := by
  cases requirement <;> rfl

@[simp] theorem allEmpty_eq_all (all : List Requirement) : allEmpty all = all.all isEmpty := by
  induction all with
  | nil => rfl
  | cons requirement rest ih => simp [allEmpty, ih]

end Requirement

end ClassLinker
