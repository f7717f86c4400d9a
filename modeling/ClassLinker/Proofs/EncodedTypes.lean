import ClassLinker.Ty
import Mathlib.Data.List.Basic

/-!
# Types that can be read back

`Ty.decode?` reads what `Ty.encode` writes, but not every type that can be written is read back as
it was: a class whose name is a code or looks like an array is not, and neither is an array of void.

* `Ty.IsCanonical` describes the types that are, and `Ty.ofChars?_eq_some` says that reading gives
  these and undoes writing;
* `Ty.ofChars?_eq_none` tells the texts that stand for no type: brackets with nothing or with void
  behind them.

`Ty.encoding_exact` puts them together.
-/

namespace ClassLinker

/-- The letters that stand for void and for the primitive types. -/
def Ty.codes : List Char := ['V', 'Z', 'C', 'B', 'S', 'I', 'J', 'F', 'D']

/-- The text of the name is read as the name of a class. -/
structure ClassName.IsReadable (name : ClassName) : Prop where
  nonempty : name.text ≠ ""
  noArray : name.text.toList.head? ≠ some '['
  noCode : ∀ c ∈ Ty.codes, name.text ≠ String.singleton c

namespace Ty

/-- What can stand below array dimensions: a primitive type, or a class whose name can be read. -/
def IsElement : Ty → Prop
  | primitive _ => True
  | named name => name.IsReadable
  | void | array _ => False

/-- The type is void, or what stands below its array dimensions can. -/
def IsCanonical (type : Ty) : Prop :=
  type = void ∨ type.base.IsElement

end Ty

variable {cs : List Char} {c : Char} {type elem : Ty} {name : ClassName}

/-! ### Texts -/

theorem ClassName.isReadable_ofList : IsReadable ⟨String.ofList cs⟩ ↔
    cs ≠ [] ∧ cs.head? ≠ some '[' ∧ ∀ c ∈ Ty.codes, cs ≠ [c] := by
  have text : ∀ c, String.ofList cs = String.singleton c ↔ cs = [c] := fun c => by
    rw [String.singleton_eq_ofList, String.ofList_inj]
  constructor
  · rintro ⟨nonempty, noArray, noCode⟩
    rw [String.toList_ofList] at noArray
    exact ⟨fun empty => nonempty (String.ofList_eq_empty_iff.2 empty), noArray,
      fun c code letter => noCode c code ((text c).2 letter)⟩
  · rintro ⟨nonempty, noArray, noCode⟩
    refine ⟨fun empty => nonempty (String.ofList_eq_empty_iff.1 empty), ?_,
      fun c code letter => noCode c code ((text c).1 letter)⟩
    rwa [String.toList_ofList]

theorem Primitive.ofCode?_eq_some {p : Primitive} : ofCode? c = some p ↔ p.code = c := by
  refine ⟨fun reads => ?_, fun code => code ▸ p.ofCode?_code⟩
  unfold ofCode? at reads
  split at reads <;> cases reads <;> rfl

namespace Ty

theorem mem_codes : c ∈ codes ↔ c = 'V' ∨ ∃ p : Primitive, p.code = c := by
  constructor
  · simp only [codes, List.mem_cons, List.not_mem_nil, or_false]
    rintro (rfl | rfl | rfl | rfl | rfl | rfl | rfl | rfl | rfl)
    · exact .inl rfl
    all_goals exact .inr ⟨_, Primitive.ofCode?_eq_some.1 rfl⟩
  · rintro (rfl | ⟨p, rfl⟩)
    · decide
    · cases p <;> decide

theorem toList_encode_array (elem : Ty) :
    (array elem).encode.toList = '[' :: elem.encode.toList := by
  rw [encode, String.toList_append]
  rfl

theorem isCanonical_array : (array elem).IsCanonical ↔ elem.IsCanonical ∧ elem ≠ void := by
  cases elem <;> simp [IsCanonical, base, IsElement]

/-! ### Reading -/

/-- An array is read if its elements are, and they are not void. -/
theorem ofChars?_bracket : ofChars? ('[' :: cs) = some type ↔
    ∃ elem, ofChars? cs = some elem ∧ elem ≠ void ∧ type = array elem := by
  rw [ofChars?]
  cases ofChars? cs with
  | none => simp
  | some elem => cases elem <;> simp [eq_comm]

/-- A code is read as void or as the primitive type that it stands for. -/
theorem ofChars?_code (code : c ∈ codes) :
    ∃ type, ofChars? [c] = some type ∧ type.encode.toList = [c] ∧ type.IsCanonical := by
  rcases mem_codes.1 code with rfl | ⟨p, rfl⟩
  · exact ⟨void, rfl, rfl, .inl rfl⟩
  · refine ⟨primitive p, ?_, String.toList_singleton _, .inr trivial⟩
    cases p <;> rfl

/-- Any other text is read as the name of a class if it can be. -/
theorem ofChars?_name (readable : ClassName.IsReadable ⟨String.ofList cs⟩) :
    ofChars? cs = some (named ⟨String.ofList cs⟩) := by
  obtain ⟨nonempty, noArray, noCode⟩ := ClassName.isReadable_ofList.1 readable
  match cs with
  | [] => exact absurd rfl nonempty
  | [c] =>
    have noCode : ¬ (c = 'V' ∨ ∃ p : Primitive, p.code = c) :=
      fun code => noCode c (mem_codes.2 code) rfl
    have unknown : Primitive.ofCode? c = none :=
      Option.eq_none_iff_forall_ne_some.2 fun p reads =>
        noCode (.inr ⟨p, Primitive.ofCode?_eq_some.1 reads⟩)
    rw [← String.singleton_eq_ofList]
    unfold ofChars?
    simp_all
  | c :: d :: rest =>
    unfold ofChars?
    simp_all

/-- A text is empty, looks like an array, is a code or can be read as the name of a class. -/
theorem text_cases (cs : List Char) :
    cs = [] ∨ (∃ rest, cs = '[' :: rest) ∨ (∃ c ∈ codes, cs = [c]) ∨
      ClassName.IsReadable ⟨String.ofList cs⟩ := by
  rw [ClassName.isReadable_ofList, ← List.head?_eq_some_iff]
  by_cases nonempty : cs = []
  · exact .inl nonempty
  · by_cases noArray : cs.head? = some '['
    · exact .inr (.inl noArray)
    · by_cases code : ∃ c ∈ codes, cs = [c]
      · exact .inr (.inr (.inl code))
      · exact .inr (.inr (.inr ⟨nonempty, noArray, fun c mem letter => code ⟨c, mem, letter⟩⟩))

/-- Canonical types are read back. -/
theorem ofChars?_encode (canonical : type.IsCanonical) :
    ofChars? type.encode.toList = some type := by
  induction type with
  | void => rfl
  | primitive p => cases p <;> rfl
  | named name =>
    rcases canonical with void | readable
    · cases void
    · have readable : ClassName.IsReadable ⟨String.ofList name.text.toList⟩ := by
        rwa [String.ofList_toList]
      have reads := ofChars?_name readable
      rwa [String.ofList_toList] at reads
  | array elem ih =>
    obtain ⟨canonical, nonvoid⟩ := isCanonical_array.1 canonical
    rw [toList_encode_array]
    exact ofChars?_bracket.2 ⟨elem, ih canonical, nonvoid, rfl⟩

/-- What is read is canonical, and is written as it was. -/
theorem encode_of_ofChars? (reads : ofChars? cs = some type) :
    type.encode.toList = cs ∧ type.IsCanonical := by
  induction cs generalizing type with
  | nil => cases reads
  | cons head tail ih =>
    rcases text_cases (head :: tail) with empty | ⟨rest, array⟩ | ⟨c, code, letter⟩ | readable
    · cases empty
    · obtain ⟨rfl, rfl⟩ := List.cons.inj array
      obtain ⟨elem, below, nonvoid, rfl⟩ := ofChars?_bracket.1 reads
      obtain ⟨same, canonical⟩ := ih below
      exact ⟨by rw [toList_encode_array, same], isCanonical_array.2 ⟨canonical, nonvoid⟩⟩
    · obtain ⟨known, reads', same, canonical⟩ := ofChars?_code code
      rw [letter] at reads ⊢
      obtain rfl := Option.some.inj (reads.symm.trans reads')
      exact ⟨same, canonical⟩
    · obtain rfl := Option.some.inj (reads.symm.trans (ofChars?_name readable))
      exact ⟨String.toList_ofList, .inr readable⟩

/-- Reading gives the canonical types, and undoes writing. -/
theorem ofChars?_eq_some :
    ofChars? cs = some type ↔ type.encode.toList = cs ∧ type.IsCanonical :=
  ⟨encode_of_ofChars?, fun ⟨same, canonical⟩ => same ▸ ofChars?_encode canonical⟩

/-- Brackets with nothing or with void behind them stand for no type, and nothing else does. -/
theorem ofChars?_eq_none : ofChars? cs = none ↔
    (∃ n, cs = List.replicate n '[') ∨ ∃ n, cs = List.replicate (n + 1) '[' ++ ['V'] := by
  have void_iff : ∀ {cs}, ofChars? cs = some void ↔ cs = ['V'] := fun {cs} => by
    rw [ofChars?_eq_some, eq_comm]
    exact and_iff_left (.inl rfl)
  have bracket : ∀ {cs}, ofChars? ('[' :: cs) = none ↔ ofChars? cs = none ∨ cs = ['V'] := by
    intro cs
    rw [← void_iff, ofChars?]
    cases ofChars? cs with
    | none => simp
    | some elem => cases elem <;> simp
  induction cs with
  | nil => exact iff_of_true rfl (.inl ⟨0, rfl⟩)
  | cons head tail ih =>
    by_cases array : head = '['
    · subst array
      refine bracket.trans ((or_congr_left ih).trans ?_)
      constructor
      · rintro ((⟨n, rfl⟩ | ⟨n, rfl⟩) | rfl)
        · exact .inl ⟨n + 1, rfl⟩
        · exact .inr ⟨n + 1, rfl⟩
        · exact .inr ⟨0, rfl⟩
      · rintro (⟨_ | n, same⟩ | ⟨_ | n, same⟩)
        · cases same
        · exact .inl (.inl ⟨n, (List.cons.inj same).2⟩)
        · exact .inr (List.cons.inj same).2
        · exact .inl (.inr ⟨n, (List.cons.inj same).2⟩)
    · refine iff_of_false ?_ ?_
      · rcases text_cases (head :: tail) with empty | ⟨rest, same⟩ | ⟨c, code, letter⟩ | readable
        · cases empty
        · exact absurd (List.cons.inj same).1 array
        · obtain ⟨_, reads, _⟩ := ofChars?_code code
          rw [letter, reads]
          simp
        · rw [ofChars?_name readable]
          simp
      · rintro (⟨_ | n, same⟩ | ⟨n, same⟩)
        · cases same
        · exact array (List.cons.inj same).1
        · exact array (List.cons.inj same).1

/-- Reading fails for brackets with nothing or with void behind them and for no other text. It gives
a type if and only if this is canonical and was written like that, so a type that is written is read
back if and only if it is canonical. -/
theorem encoding_exact :
    (∀ text, decode? text = none ↔ (∃ n, text.toList = List.replicate n '[') ∨
      ∃ n, text.toList = List.replicate (n + 1) '[' ++ ['V']) ∧
    (∀ text type, decode? text = some type ↔ type.encode = text ∧ type.IsCanonical) ∧
    ∀ type : Ty, decode? type.encode = some type ↔ type.IsCanonical := by
  have reads : ∀ text type, decode? text = some type ↔ type.encode = text ∧ type.IsCanonical := by
    intro text type
    rw [decode?, ofChars?_eq_some, String.toList_inj]
  refine ⟨fun text => ofChars?_eq_none, reads, fun type => ?_⟩
  rw [reads]
  exact and_iff_right rfl

end Ty

end ClassLinker
