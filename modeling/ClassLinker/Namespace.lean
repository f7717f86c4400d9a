import ClassLinker.Order

/-!
# Namespaces of methods

A class keeps its methods in six namespaces, so that methods of one name but of different nature
do not collide.
-/

namespace ClassLinker

/-- The namespaces, in their order. -/
inductive Namespace where
  | publicInstance
  | privateInstance
  | publicStatic
  | privateStatic
  | constructor
  | staticConstructor
deriving DecidableEq, Inhabited

namespace Namespace

/-- All namespaces, in order. -/
def all : List Namespace :=
  [publicInstance, privateInstance, publicStatic, privateStatic, constructor, staticConstructor]

/-- The position of a namespace in the order. -/
def index : Namespace → Nat
  | publicInstance => 0
  | privateInstance => 1
  | publicStatic => 2
  | privateStatic => 3
  | constructor => 4
  | staticConstructor => 5

theorem index_inj : ∀ a b : Namespace, a.index = b.index → a = b := by
  intro a b h; cases a <;> cases b <;> first | rfl | cases h

instance : Ord Namespace := ⟨compareOn index⟩

instance : Std.TransOrd Namespace := inferInstanceAs (Std.TransCmp (compareOn index))

instance : Std.LawfulEqOrd Namespace := lawfulEqCmp_compareOn index index_inj

/-- The text of a namespace in messages. -/
def display : Namespace → String
  | publicInstance => "public"
  | privateInstance => "private"
  | publicStatic => "public static"
  | privateStatic => "private static"
  | constructor => "constructor"
  | staticConstructor => "static constructor"

/-- Tells whether the methods belong to the class and not to its instances. -/
def isStatic : Namespace → Bool
  | publicStatic | privateStatic | staticConstructor => true
  | _ => false

/-- Tells whether the methods are private. -/
def isPrivate : Namespace → Bool
  | privateInstance | privateStatic => true
  | _ => false

end Namespace

end ClassLinker
