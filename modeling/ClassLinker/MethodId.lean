import ClassLinker.Names
import ClassLinker.Namespace

/-!
# References to methods

A `MethodKey` names a method within a class, a `MethodId` within the program. Both are ordered by
their parts: the owner, the namespace, the name.
-/

namespace ClassLinker

/-- Comparing by one key and then by another tells values apart if the two keys together do. -/
theorem lawfulEqCmp_compareLex {α : Type} {first second : α → α → Ordering}
    [Std.ReflCmp first] [Std.ReflCmp second]
    (eq_of : ∀ a b, first a b = .eq → second a b = .eq → a = b) :
    Std.LawfulEqCmp (compareLex first second) where
  compare_self {a} := by simp [compareLex, Std.ReflCmp.compare_self]
  eq_of_compare {a b} h := by
    have h' := Ordering.then_eq_eq.1 h
    exact eq_of a b h'.1 h'.2

/-- A method of a class, by namespace and name. -/
structure MethodKey where
  space : Namespace
  name : MethodName
deriving DecidableEq, Inhabited

namespace MethodKey

/-- Methods of a class are ordered by namespace, then by name. -/
instance : Ord MethodKey := ⟨compareLex (compareOn space) (compareOn name)⟩

instance : Std.TransOrd MethodKey :=
  inferInstanceAs (Std.TransCmp (compareLex (compareOn space) (compareOn name)))

instance : Std.LawfulEqOrd MethodKey := lawfulEqCmp_compareLex fun ⟨_, _⟩ ⟨_, _⟩ hs hn => by
  have hs : _ = _ := Std.LawfulEqOrd.compare_eq_iff_eq.1 hs
  have hn : _ = _ := Std.LawfulEqOrd.compare_eq_iff_eq.1 hn
  simp_all

end MethodKey

/-- A method of a class of the program. -/
structure MethodId where
  owner : ClassName
  space : Namespace
  name : MethodName
deriving DecidableEq, Inhabited

namespace MethodId

/-- The method within its class. -/
def key (method : MethodId) : MethodKey := ⟨method.space, method.name⟩

/-- Methods are ordered by owner, then by namespace and name. -/
instance : Ord MethodId := ⟨compareLex (compareOn owner) (compareOn key)⟩

/-- The text of a method in messages, which leaves its namespace out. -/
def display (method : MethodId) : String :=
  method.owner.text ++ "." ++ method.name.text

end MethodId

end ClassLinker
