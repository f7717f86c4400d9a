import ClassLinker.Proofs.Signatures

/-!
# What a method name ends in

The result of a method is read off its name in two ways. Calls through proxies go by what stands
behind the last separator (`MethodName.encodedResult?`), and the definition of the method by the
last of the types that are found from the left (`MethodName.signature`). The two need not be the
same, for a row of underscores can be cut in two ways: both read the same result if and only if the
number of underscores in front of it is even (`MethodName.results_agree_iff`).
-/

namespace ClassLinker.MethodName

variable {name : MethodName} {result : Ty} {before after : List Char}

/-- The number of underscores in a row in front of what comes behind the last separator. -/
def underscoresBeforeResult (name : MethodName) : Nat :=
  match Separator.splitLast name.chars with
  | some (before, _) => Separator.underscores before + 2
  | none => 0

/-- A name that encodes a result does so behind its last separator. -/
theorem encodedResult?_eq_some : name.encodedResult? = some result ↔
    name.encodesResult = true ∧ ∃ before after,
      Separator.splitLast name.chars = some (before, after) ∧
        Ty.ofChars? after = some result := by
  unfold encodedResult?
  split
  · rename_i encodes
    simp [encodes, Option.bind_eq_some_iff]
  · rename_i other
    simp [other]

/-- The last type is the one that the last piece encodes, if it encodes one. -/
theorem getLast?_encodedTypes {last : List Char} {type : Ty}
    (piece : (Separator.pieces name.chars).getLast? = some last)
    (occurs : Separator.text.toList <:+: name.chars) (reads : Ty.ofChars? last = some type) :
    name.encodedTypes.getLast? = some type := by
  obtain ⟨rest, behind, same⟩ := Separator.exists_afterFirst occurs
  rw [same] at piece
  rw [encodedTypes, behind]
  obtain ⟨others, pieces⟩ := List.getLast?_eq_some_iff.1 piece
  simp only [typesIn, pieces, List.filterMap_append, List.filterMap_cons, reads,
    List.filterMap_nil, List.getLast?_concat]

/-- The signature ends in the type that the last piece encodes if the name ends in a result. -/
theorem signature_result {last : List Char} {type : Ty} (encodes : name.encodesResult = true)
    (piece : (Separator.pieces name.chars).getLast? = some last)
    (occurs : Separator.text.toList <:+: name.chars) (reads : Ty.ofChars? last = some type) :
    name.signature.2 = type := by
  obtain ⟨constructs, initializes, direct⟩ := encodesResult_iff.1 encodes
  rw [signature, initializes, constructs, direct]
  simp [getLast?_encodedTypes piece occurs reads]

/-- With an underscore in front, the text of a type is the name of a class. -/
theorem ofChars?_underscore (filled : after ≠ []) :
    Ty.ofChars? ('_' :: after) = some (.named ⟨String.ofList ('_' :: after)⟩) := by
  refine Ty.ofChars?_name (ClassName.isReadable_ofList.2 ⟨by simp, by simp, ?_⟩)
  exact fun c _ same => filled (List.cons.inj same).2

/-- The result that is read behind the last separator is that of the signature if and only if the
number of underscores in front of it is even. If it is odd, one of them is read as part of the
result, which is then the name of a class. -/
theorem results_agree_iff (reads : name.encodedResult? = some result) :
    (name.signature.2 = result ↔ Even name.underscoresBeforeResult) ∧
      (¬ Even name.underscoresBeforeResult →
        name.signature.2 = .named ⟨"_" ++ result.encode⟩) := by
  obtain ⟨encodes, before, after, splits, behind⟩ := encodedResult?_eq_some.1 reads
  obtain ⟨same, free⟩ := Separator.splitLast_eq_some.1 splits
  obtain ⟨written, canonical⟩ := Ty.ofChars?_eq_some.1 behind
  have filled : after ≠ [] := written ▸ canonical.encode_ne_nil
  have occurs : Separator.text.toList <:+: name.chars := ⟨before, after, by rw [same]; simp⟩
  have piece : (Separator.pieces name.chars).getLast? =
      some (if Even (Separator.underscores before) then after else '_' :: after) :=
    same ▸ Separator.getLast?_pieces free before
  have parity : Even name.underscoresBeforeResult ↔ Even (Separator.underscores before) := by
    rw [underscoresBeforeResult, splits, Nat.even_iff, Nat.even_iff]
    simp only
    omega
  rw [parity]
  split_ifs at piece with even
  · exact ⟨iff_of_true (signature_result encodes piece occurs behind) even, absurd even⟩
  · have longer := signature_result encodes piece occurs (ofChars?_underscore filled)
    have text : String.ofList ('_' :: after) = "_" ++ result.encode := by
      rw [← String.toList_inj, String.toList_append, written]
      simp
    rw [text] at longer
    refine ⟨iff_of_false (fun agrees => ?_) even, fun _ => longer⟩
    -- The longer text would encode the same result as the shorter one.
    have lengths := congrArg (fun type : Ty => type.encode.toList.length) (agrees.symm.trans longer)
    simp [Ty.encode] at lengths

/-- A method whose parameter has no text: its two separators are cut apart in both ways. -/
theorem results_agree_emptyParameter :
    encodedResult? ⟨"m____I"⟩ = some (.primitive .int) ∧
      Even (underscoresBeforeResult ⟨"m____I"⟩) ∧
      (signature ⟨"m____I"⟩).2 = .primitive .int := by
  have reads : encodedResult? ⟨"m____I"⟩ = some (.primitive .int) := by decide +kernel
  have even : Even (underscoresBeforeResult ⟨"m____I"⟩) := by decide +kernel
  exact ⟨reads, even, (results_agree_iff reads).1.2 even⟩

/-- One of three underscores belongs to the simple name for calls through proxies, and to the result
for the definition of the method. -/
theorem not_results_agree_underscore :
    encodedResult? ⟨"foo___I"⟩ = some (.primitive .int) ∧
      (signature ⟨"foo___I"⟩).2 = .named ⟨"_I"⟩ ∧
      ¬ ∀ (name : MethodName) (result : Ty), name.encodedResult? = some result →
        name.signature.2 = result := by
  have reads : encodedResult? ⟨"foo___I"⟩ = some (.primitive .int) := by decide +kernel
  have other : (signature ⟨"foo___I"⟩).2 = .named ⟨"_I"⟩ := by decide +kernel
  refine ⟨reads, other, fun agree => ?_⟩
  cases other.symm.trans (agree _ _ reads)

end ClassLinker.MethodName
