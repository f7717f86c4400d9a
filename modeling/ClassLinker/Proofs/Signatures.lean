import ClassLinker.MethodName
import ClassLinker.Proofs.EncodedTypes
import ClassLinker.Proofs.Separators

/-!
# Names that encode a signature

A name is made by joining a simple name and the texts of types (`MethodName.encode`). It can be read
back if these can stand between separators (`MethodName.IsSimple`, `Ty.IsPart`). Then the first
separator ends the simple name, the last one starts the result, and the separators in between cut
the types apart, so that the signature is read as it was written (`MethodName.signature_encoded`).
-/

namespace ClassLinker

/-- The type can be read back from between separators. -/
structure Ty.IsPart (type : Ty) : Prop where
  canonical : type.IsCanonical
  isPart : Separator.IsPart type.encode.toList

theorem Ty.IsCanonical.encode_ne_nil {type : Ty} (canonical : type.IsCanonical) :
    type.encode.toList ≠ [] := by
  intro empty
  have reads := ofChars?_encode canonical
  rw [empty] at reads
  cases reads

namespace MethodName

variable {simple last : String} {types params : List Ty} {result : Ty}
variable {name : MethodName} {rest before : List Char} {parts : List (List Char)}

/-- The text can stand in front of a separator. -/
structure IsSimple (simple : String) : Prop where
  free : ¬ Separator.text.toList <:+: simple.toList
  last : ¬ ['_'] <:+ simple.toList

/-- The name that starts with a simple name, goes on with types and ends in some other part. -/
def ofParts (simple : String) (types : List Ty) (last : String) : MethodName :=
  ⟨Separator.text.intercalate (simple :: types.map Ty.encode ++ [last])⟩

/-- The name of a method with a result. -/
def encode (simple : String) (params : List Ty) (result : Ty) : MethodName :=
  ofParts simple params result.encode

/-- The name of the reflective proxy through which methods with such parameters can be called. -/
def encodeProxy (simple : String) (params : List Ty) : MethodName :=
  ofParts simple params ""

/-- The name of a constructor. -/
def encodeConstructor (params : List Ty) : MethodName :=
  ⟨constructorHead ++ Separator.text.intercalate (params.map Ty.encode)⟩

/-! ### Types in texts -/

theorem typesIn_joined (isPart : ∀ part ∈ parts, Separator.IsPart part) :
    typesIn (Separator.joined parts) = parts.filterMap Ty.ofChars? := by
  cases parts with
  | nil => rfl
  | cons first rest => rw [typesIn, Separator.pieces_joined (by simp) isPart]

theorem filterMap_encode (isPart : ∀ type ∈ types, type.IsPart) :
    (types.map fun type => type.encode.toList).filterMap Ty.ofChars? = types := by
  induction types with
  | nil => rfl
  | cons first rest ih =>
    obtain ⟨readable, isPart⟩ := List.forall_mem_cons.1 isPart
    rw [List.map_cons, List.filterMap_cons_some (Ty.ofChars?_encode readable.canonical), ih isPart]

/-! ### Which form a name has -/

/-- A name that is to end in a result has none of the other forms. -/
theorem encodesResult_iff : name.encodesResult = true ↔
    name.isConstructor = false ∧ name.isClassInit = false ∧ name.isProxy = false := by
  simp [encodesResult, and_assoc]

/-- What comes behind the first separator in the name of a constructor, or of the static
initializer, starts with an underscore. -/
theorem direct_of_afterFirst (behind : Separator.afterFirst name.chars = some rest)
    (head : ¬ ['_'] <+: rest) : name.isConstructor = false ∧ name.isClassInit = false := by
  constructor
  · refine Bool.eq_false_iff.2 fun constructs => head ?_
    obtain ⟨params, same⟩ := List.isPrefixOf_iff_prefix.1 constructs
    rw [← same] at behind
    exact ⟨params, Option.some.inj behind⟩
  · refine Bool.eq_false_iff.2 fun initializes => head ?_
    obtain rfl : name = classInit := of_decide_eq_true initializes
    exact ⟨[], Option.some.inj behind⟩

/-- A name that is neither is that of a proxy if nothing comes behind its last separator. -/
theorem isProxy_iff_of_splitLast (constructs : name.isConstructor = false)
    (initializes : name.isClassInit = false)
    (splits : Separator.splitLast name.chars = some (before, rest)) :
    name.isProxy = true ↔ rest = [] := by
  rw [isProxy, constructs, initializes, Bool.not_false, Bool.and_true, Bool.and_true,
    List.isSuffixOf_iff_suffix]
  constructor
  · rintro ⟨other, same⟩
    have last : Separator.splitLast name.chars = some (other, []) :=
      Separator.splitLast_eq_some.2 ⟨same.symm, Separator.isPart_nil.free_before⟩
    rw [splits] at last
    exact (Prod.mk.inj (Option.some.inj last)).2
  · rintro rfl
    exact ⟨before, (Separator.splitLast_eq_some.1 splits).1.symm⟩

/-! ### Names with parts -/

theorem chars_ofParts (simple : String) (types : List Ty) (last : String) :
    (ofParts simple types last).chars =
      Separator.joined (simple.toList :: types.map (fun type => type.encode.toList) ++
        [last.toList]) := by
  rw [chars, ofParts, String.toList_intercalate]
  simp [Separator.joined, Function.comp_def]

theorem eq_ofList_chars (name : MethodName) : name = ⟨String.ofList name.chars⟩ := by
  rw [chars, String.ofList_toList]

/-- The last part stands behind a separator. -/
theorem ofParts_eq (simple : String) (types : List Ty) (last : String) : ofParts simple types last =
    ⟨String.ofList (Separator.joined (simple.toList :: types.map fun type => type.encode.toList) ++
      '_' :: '_' :: last.toList)⟩ := by
  rw [eq_ofList_chars (ofParts simple types last), chars_ofParts,
    Separator.joined_concat (by simp)]

section

variable (isSimple : IsSimple simple) (isPart : ∀ type ∈ types, type.IsPart)
  (lastPart : Separator.IsPart last.toList)

include isPart lastPart in
theorem forall_isPart : ∀ part ∈ types.map (fun type => type.encode.toList) ++ [last.toList],
    Separator.IsPart part := by
  intro part mem
  rcases List.mem_append.1 mem with mem | mem
  · obtain ⟨type, listed, rfl⟩ := List.mem_map.1 mem
    exact (isPart type listed).isPart
  · exact List.mem_singleton.1 mem ▸ lastPart

include lastPart in
theorem splitLast_ofParts : Separator.splitLast (ofParts simple types last).chars =
    some (Separator.joined (simple.toList :: types.map fun type => type.encode.toList),
      last.toList) := by
  rw [chars_ofParts]
  exact Separator.splitLast_eq_some.2
    ⟨Separator.joined_concat (by simp) _, lastPart.free_before⟩

include isSimple in
theorem afterFirst_ofParts : Separator.afterFirst (ofParts simple types last).chars =
    some (Separator.joined (types.map (fun type => type.encode.toList) ++ [last.toList])) := by
  rw [chars_ofParts, List.cons_append, Separator.joined_cons _ (by simp)]
  exact Separator.afterFirst_append (Separator.free_behind isSimple.free isSimple.last) _

include isSimple isPart lastPart

theorem encodedTypes_ofParts : (ofParts simple types last).encodedTypes =
    types ++ (Ty.decode? last).toList := by
  rw [encodedTypes, afterFirst_ofParts isSimple]
  simp only
  rw [typesIn_joined (forall_isPart isPart lastPart), List.filterMap_append,
    filterMap_encode isPart, Ty.decode?]
  cases reads : Ty.ofChars? last.toList <;> simp [reads]

theorem direct_ofParts : (ofParts simple types last).isConstructor = false ∧
    (ofParts simple types last).isClassInit = false := by
  refine direct_of_afterFirst (afterFirst_ofParts isSimple)
    (Separator.head_joined (forall_isPart isPart lastPart) fun part mem => ?_)
  obtain ⟨type, listed, rfl⟩ := List.mem_map.1 mem
  exact (isPart type listed).canonical.encode_ne_nil

theorem isProxy_ofParts : (ofParts simple types last).isProxy = true ↔ last = "" := by
  obtain ⟨constructs, initializes⟩ := direct_ofParts isSimple isPart lastPart
  rw [isProxy_iff_of_splitLast constructs initializes (splitLast_ofParts lastPart)]
  exact String.toList_eq_nil_iff

end

/-! ### Names that encode a signature -/

section

variable (isSimple : IsSimple simple) (isPart : ∀ type ∈ params, type.IsPart)
  (resultPart : result.IsPart)

include isSimple isPart

/-- The name of a proxy encodes its parameters. -/
theorem encodeProxy_spec : (encodeProxy simple params).isProxy = true ∧
    (encodeProxy simple params).signature = (params, .object) := by
  have lastPart : Separator.IsPart "".toList := Separator.isPart_nil
  obtain ⟨constructs, initializes⟩ := direct_ofParts isSimple isPart lastPart
  have isProxy := (isProxy_ofParts isSimple isPart lastPart).2 rfl
  have encoded : (ofParts simple params "").encodedTypes = params := by
    rw [encodedTypes_ofParts isSimple isPart lastPart]
    exact List.append_nil params
  refine ⟨isProxy, ?_⟩
  rw [signature, encodeProxy, initializes, constructs, isProxy, encoded]
  rfl

include resultPart

/-- The name of a method with a result is that of nothing else. -/
theorem form_encode : (encode simple params result).isConstructor = false ∧
    (encode simple params result).isClassInit = false ∧
      (encode simple params result).isProxy = false := by
  obtain ⟨constructs, initializes⟩ := direct_ofParts isSimple isPart resultPart.isPart
  refine ⟨constructs, initializes, Bool.eq_false_iff.2 fun proxied => ?_⟩
  have empty := (isProxy_ofParts isSimple isPart resultPart.isPart).1 proxied
  exact resultPart.canonical.encode_ne_nil (String.toList_eq_nil_iff.2 empty)

theorem signature_encode : (encode simple params result).signature = (params, result) := by
  obtain ⟨constructs, initializes, direct⟩ := form_encode isSimple isPart resultPart
  have encoded : (encode simple params result).encodedTypes = params ++ [result] := by
    rw [encode, encodedTypes_ofParts isSimple isPart resultPart.isPart, Ty.decode?,
      Ty.ofChars?_encode resultPart.canonical, Option.toList_some]
  rw [signature, initializes, constructs, direct, encoded]
  simp

theorem encodesResult_encode : (encode simple params result).encodesResult = true :=
  encodesResult_iff.2 (form_encode isSimple isPart resultPart)

theorem encodedResult?_encode : (encode simple params result).encodedResult? = some result := by
  rw [encodedResult?, if_pos (encodesResult_encode isSimple isPart resultPart), encode,
    splitLast_ofParts resultPart.isPart, Option.bind_some,
    Ty.ofChars?_encode resultPart.canonical]

theorem proxyName?_encode :
    (encode simple params result).proxyName? = some (encodeProxy simple params) := by
  rw [proxyName?, if_pos (encodesResult_encode isSimple isPart resultPart), encode,
    splitLast_ofParts resultPart.isPart, Option.map_some, encodeProxy, ofParts_eq simple params ""]
  rfl

end

/-- The name of a constructor encodes its parameters and nothing else. -/
theorem encodeConstructor_spec (isPart : ∀ type ∈ params, type.IsPart) :
    (encodeConstructor params).signature = (params, .void) ∧
      (encodeConstructor params).encodedResult? = none := by
  have chars : (encodeConstructor params).chars = constructorHead.toList ++
      Separator.joined (params.map fun type => type.encode.toList) := by
    rw [encodeConstructor, MethodName.chars, String.toList_append, String.toList_intercalate]
    simp [Separator.joined, Function.comp_def]
  have constructs : (encodeConstructor params).isConstructor = true :=
    List.isPrefixOf_iff_prefix.2 ⟨_, chars.symm⟩
  have initializes : (encodeConstructor params).isClassInit = false := by
    refine Bool.eq_false_iff.2 fun initializes => ?_
    have same : (encodeConstructor params).chars = classInit.chars :=
      congrArg MethodName.chars (of_decide_eq_true initializes)
    rw [chars] at same
    cases (List.cons.inj same).1
  have parts : ∀ part ∈ params.map (fun type => type.encode.toList), Separator.IsPart part :=
    List.forall_mem_map.2 fun type mem => (isPart type mem).isPart
  constructor
  · rw [signature, initializes, constructs, chars,
      List.drop_left' (by simp [String.length_toList]), typesIn_joined parts,
      filterMap_encode isPart]
    rfl
  · rw [encodedResult?, encodesResult, constructs]
    rfl

/-- If the simple name and all types can be told apart, then the name of a method encodes its
parameters and its result and is that of nothing else, its proxy has the same name without the
result and encodes the parameters, and so does the name of a constructor. -/
theorem signature_encoded (isSimple : IsSimple simple)
    (isPart : ∀ type ∈ result :: params, type.IsPart) :
    ((encode simple params result).isConstructor = false ∧
      (encode simple params result).isClassInit = false ∧
      (encode simple params result).isProxy = false ∧
      (encode simple params result).signature = (params, result) ∧
      (encode simple params result).encodedResult? = some result) ∧
    ((encodeProxy simple params).text ++ result.encode = (encode simple params result).text ∧
      (encodeProxy simple params).isProxy = true ∧
      (encode simple params result).proxyName? = some (encodeProxy simple params) ∧
      (encodeProxy simple params).signature = (params, .object)) ∧
    (encodeConstructor params).signature = (params, .void) ∧
      (encodeConstructor params).encodedResult? = none := by
  obtain ⟨resultPart, isPart⟩ := List.forall_mem_cons.1 isPart
  obtain ⟨constructs, initializes, direct⟩ := form_encode isSimple isPart resultPart
  obtain ⟨isProxy, proxied⟩ := encodeProxy_spec isSimple isPart
  refine ⟨⟨constructs, initializes, direct, ?_, ?_⟩, ⟨?_, isProxy, ?_, proxied⟩,
    encodeConstructor_spec isPart⟩
  · exact signature_encode isSimple isPart resultPart
  · exact encodedResult?_encode isSimple isPart resultPart
  · rw [← String.toList_inj, encodeProxy, encode, ofParts_eq, ofParts_eq]
    simp
  · exact proxyName?_encode isSimple isPart resultPart

/-- A method with an array of a class that has an underscore in its name, and without a result. -/
theorem signature_encoded_array :
    IsSimple "_m" ∧ (∀ type ∈ [.void, .array (.named ⟨"a_b"⟩), .primitive .int], Ty.IsPart type) ∧
      (encode "_m" [.array (.named ⟨"a_b"⟩), .primitive .int] .void).text = "_m__[a_b__I__V" ∧
      (encode "_m" [.array (.named ⟨"a_b"⟩), .primitive .int] .void).signature =
        ([.array (.named ⟨"a_b"⟩), .primitive .int], .void) := by
  have isSimple : IsSimple "_m" := ⟨by decide +kernel, by decide +kernel⟩
  have readable : ∀ type ∈ [Ty.void, .array (.named ⟨"a_b"⟩), .primitive .int],
      Ty.ofChars? type.encode.toList = some type ∧ ¬ Separator.text.toList <:+: type.encode.toList ∧
        ¬ ['_'] <+: type.encode.toList ∧ ¬ ['_'] <:+ type.encode.toList := by decide +kernel
  have isPart : ∀ type ∈ [Ty.void, .array (.named ⟨"a_b"⟩), .primitive .int], Ty.IsPart type :=
    fun type mem => ⟨(Ty.ofChars?_eq_some.1 (readable type mem).1).2, (readable type mem).2.1,
      (readable type mem).2.2.1, (readable type mem).2.2.2⟩
  exact ⟨isSimple, isPart, by decide +kernel, (signature_encoded isSimple isPart).1.2.2.2.1⟩

end MethodName

end ClassLinker
