import ClassLinker.Proofs.Signatures

/-!
# Names of proxies

A method can be called through a reflective proxy if its name is that of the proxy with the text of
a result behind it (`MethodName.Continues`). The name of the proxy ends in a separator, and no other
one comes later, not even one that shares an underscore with it. So the proxy is told by the last
separator in the name of the method (`MethodName.matchesProxy_iff_splitLast`), and there is only one
(`MethodName.Continues.unique`).

The proxy of a method is not called like a constructor, for then the method would be one too. But it
can be called like the static initializer, whose name ends in a separator as well: this is what
`clinit___I` continues. `MethodName.matchesProxy_exact` puts these facts together.
-/

namespace ClassLinker.MethodName

variable {name proxy other : MethodName} {before after : List Char} {result result' : String}

/-- The name is that of the proxy, which ends in a separator, with the text of a result behind it.
The text holds no separator, and gets none from an underscore in front of it. -/
structure Continues (name proxy : MethodName) (result : String) : Prop where
  text : name.text = proxy.text ++ result
  separated : Separator.text.toList <:+ proxy.chars
  filled : result ≠ ""
  free : ¬ Separator.text.toList <:+: result.toList
  head : ¬ ['_'] <+: result.toList

theorem Continues.chars_eq (continues : name.Continues proxy result) :
    name.chars = proxy.chars ++ result.toList := by
  rw [chars, continues.text, String.toList_append, chars]

/-! ### The last separator -/

/-- The name of the proxy is that of the method up to the end of the last separator. -/
theorem matchesProxy_iff_splitLast : name.matchesProxy proxy = true ↔
    name.encodesResult = true ∧ ∃ before after,
      Separator.splitLast name.chars = some (before, after) ∧
        proxy.chars = before ++ Separator.text.toList := by
  have called : ∀ before : List Char,
      ⟨String.ofList (before ++ Separator.text.toList)⟩ = proxy ↔
        proxy.chars = before ++ Separator.text.toList := fun before => by
    constructor
    · rintro rfl
      exact String.toList_ofList
    · intro ends
      rw [eq_ofList_chars proxy, ends]
  rw [matchesProxy, decide_eq_true_iff, proxyName?]
  split
  · rename_i encodes
    simp only [encodes, true_and, Option.map_eq_some_iff, Prod.exists, called]
  · rename_i plain
    simp [plain]

/-- The last separator of a name is the one that the name of the proxy ends in. -/
theorem Continues.splitLast (continues : name.Continues proxy result)
    (ends : proxy.chars = before ++ Separator.text.toList) :
    Separator.splitLast name.chars = some (before, result.toList) := by
  refine Separator.splitLast_eq_some.2 ⟨?_, ?_⟩
  · rw [continues.chars_eq, ends, List.append_assoc]
    rfl
  · rw [Separator.infix_underscore, not_or]
    exact ⟨continues.head, continues.free⟩

/-- There is only one way to take a proxy off a name. -/
theorem Continues.unique (continues : name.Continues proxy result)
    (continues' : name.Continues other result') : proxy = other ∧ result = result' := by
  obtain ⟨before, ends⟩ := continues.separated
  obtain ⟨before', ends'⟩ := continues'.separated
  have same := (continues.splitLast ends.symm).symm.trans (continues'.splitLast ends'.symm)
  obtain ⟨rfl, results⟩ := Prod.mk.inj (Option.some.inj same)
  refine ⟨?_, String.toList_inj.1 results⟩
  rw [eq_ofList_chars proxy, ← ends, ends', ← eq_ofList_chars]

/-- A name that ends in a result continues what ends in its last separator. With nothing behind the
separator it would be the name of a proxy itself. -/
theorem continues_of_splitLast (encodes : name.encodesResult = true)
    (splits : Separator.splitLast name.chars = some (before, after))
    (ends : proxy.chars = before ++ Separator.text.toList) :
    name.Continues proxy (String.ofList after) := by
  obtain ⟨constructs, initializes, direct⟩ := encodesResult_iff.1 encodes
  obtain ⟨same, last⟩ := Separator.splitLast_eq_some.1 splits
  rw [Separator.infix_underscore, not_or] at last
  obtain ⟨head, free⟩ := last
  have filled : after ≠ [] := fun empty =>
    Bool.eq_false_iff.1 direct ((isProxy_iff_of_splitLast constructs initializes splits).2 empty)
  have whole : name.chars = proxy.chars ++ after := by
    rw [same, ends, List.append_assoc]
    rfl
  constructor
  case text => rwa [← String.toList_inj, String.toList_append, String.toList_ofList]
  case separated => exact ⟨before, ends.symm⟩
  case filled => exact fun empty => filled (String.ofList_eq_empty_iff.1 empty)
  case free => rwa [String.toList_ofList]
  case head => rwa [String.toList_ofList]

/-- The methods of a proxy are those with a result whose names continue that of the proxy. -/
theorem matchesProxy_iff_continues : name.matchesProxy proxy = true ↔
    name.encodesResult = true ∧ ∃ result, name.Continues proxy result := by
  rw [matchesProxy_iff_splitLast]
  refine and_congr_right fun encodes => ⟨?_, ?_⟩
  · rintro ⟨before, after, splits, ends⟩
    exact ⟨_, continues_of_splitLast encodes splits ends⟩
  · rintro ⟨result, continues⟩
    obtain ⟨before, ends⟩ := continues.separated
    exact ⟨before, result.toList, continues.splitLast ends.symm, ends.symm⟩

/-! ### What proxies are called -/

/-- What continues the name of a constructor is the name of a constructor. -/
theorem Continues.isConstructor (continues : name.Continues proxy result)
    (constructs : proxy.isConstructor = true) : name.isConstructor = true := by
  rw [MethodName.isConstructor, List.isPrefixOf_iff_prefix] at constructs ⊢
  exact constructs.trans ⟨result.toList, continues.chars_eq.symm⟩

/-- The name of a method that a proxy stands for ends in its result type, so it is no proxy. -/
theorem isProxy_of_matchesProxy (continues : name.matchesProxy proxy = true) :
    name.isProxy = false :=
  (encodesResult_iff.1 (matchesProxy_iff_splitLast.1 continues).1).2.2

/-- The name that a method continues is that of a proxy or of the static initializer. -/
theorem isProxy_iff_of_matchesProxy (continues : name.matchesProxy proxy = true) :
    proxy.isProxy = true ↔ proxy ≠ classInit := by
  obtain ⟨encodes, result, continues⟩ := matchesProxy_iff_continues.1 continues
  have constructs : proxy.isConstructor = false := by
    refine Bool.eq_false_iff.2 fun constructs => ?_
    exact Bool.eq_false_iff.1 (encodesResult_iff.1 encodes).1 (continues.isConstructor constructs)
  rw [isProxy, List.isSuffixOf_iff_suffix.2 continues.separated, constructs]
  simp [isClassInit]

/-- A method can be called through a proxy if and only if its name has none of the forms without a
result and is that of the proxy with the text of a result behind its last separator. So there is one
proxy at most through which it can be called, and this has the name of a proxy, unless it has that
of the static initializer. -/
theorem matchesProxy_exact :
    (∀ name proxy : MethodName, name.matchesProxy proxy = true ↔
      (name.isConstructor = false ∧ name.isClassInit = false ∧ name.isProxy = false) ∧
        ∃ result, name.Continues proxy result) ∧
    (∀ name proxy other : MethodName, name.matchesProxy proxy = true →
      name.matchesProxy other = true → proxy = other) ∧
    ∀ name proxy : MethodName, name.matchesProxy proxy = true →
      (proxy.isProxy = true ↔ proxy ≠ classInit) := by
  refine ⟨fun name proxy => ?_, fun name proxy other first second => ?_,
    fun name proxy => isProxy_iff_of_matchesProxy⟩
  · rw [matchesProxy_iff_continues, encodesResult_iff]
  · obtain ⟨-, result, continues⟩ := matchesProxy_iff_continues.1 first
    obtain ⟨-, result', continues'⟩ := matchesProxy_iff_continues.1 second
    exact (continues.unique continues').1

/-- The name of the static initializer with a result behind it, and one that would be that of a
constructor with an underscore more. -/
theorem matchesProxy_exact_reserved :
    matchesProxy ⟨"clinit___I"⟩ classInit = true ∧ classInit.isProxy = false ∧
      matchesProxy ⟨"clinit___I"⟩ ⟨"clinit__"⟩ = false ∧
      matchesProxy ⟨"init__A_"⟩ ⟨"init__"⟩ = true ∧ isProxy ⟨"init__"⟩ = true := by
  obtain ⟨continues, unique, called⟩ := matchesProxy_exact
  have initializer : matchesProxy ⟨"clinit___I"⟩ classInit = true :=
    (continues _ _).2 ⟨by decide +kernel, "I", rfl, by decide +kernel, by decide +kernel,
      by decide +kernel, by decide +kernel⟩
  have reserved : matchesProxy ⟨"init__A_"⟩ ⟨"init__"⟩ = true :=
    (continues _ _).2 ⟨by decide +kernel, "A_", rfl, by decide +kernel, by decide +kernel,
      by decide +kernel, by decide +kernel⟩
  refine ⟨initializer, ?_, ?_, reserved, ?_⟩
  · exact Bool.eq_false_iff.2 fun proxied => (called _ _ initializer).1 proxied rfl
  · exact Bool.eq_false_iff.2 fun shorter =>
      absurd (unique _ _ _ initializer shorter) (by decide +kernel)
  · exact (called _ _ reserved).2 (by decide +kernel)

end ClassLinker.MethodName
