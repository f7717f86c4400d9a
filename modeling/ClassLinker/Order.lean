/-!
# Orders read off a key

Names are ordered by their text and methods by namespace and name, so their orders are those of
a key. `lawfulEqCmp_compareOn` carries over the law that equal keys mean equal values; together
with the transitivity that the library gives for `compareOn`, it makes such a type fit to be the
key of an ordered map.
-/

namespace ClassLinker

/-- Comparing by an injective key tells different values apart. -/
theorem lawfulEqCmp_compareOn {α : Type} {β : Type} [Ord β] [Std.LawfulEqOrd β] (key : α → β)
    (key_inj : ∀ a b, key a = key b → a = b) : Std.LawfulEqCmp (compareOn key) where
  compare_self {_} := Std.LawfulEqOrd.compare_eq_iff_eq.2 rfl
  eq_of_compare {a b} h := key_inj a b (Std.LawfulEqOrd.compare_eq_iff_eq.1 h)

end ClassLinker
