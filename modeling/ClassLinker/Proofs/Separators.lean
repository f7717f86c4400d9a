import ClassLinker.Separator
import Mathlib.Algebra.Group.Nat.Even
import Mathlib.Data.List.Basic
import Mathlib.Data.List.Infix

/-!
# Parts between separators

The separator overlaps itself, so a text that is joined from parts need not be cut back into them.
It is if no part holds a separator and none starts or ends with an underscore (`Separator.IsPart`),
for then there are no separators but those between parts (`Separator.pieces_joined`).

Of the text around a separator, what matters is whether it gets another one by having an underscore
next to it: `Separator.afterFirst_append` tells where the first separator of a text is, and
`Separator.splitLast_eq_some` where the last one is. The last piece need not be what stands behind
the last separator, which depends on the number of underscores there (`Separator.getLast?_pieces`).
-/

namespace ClassLinker.Separator

variable {cs rest before after part last : List Char} {c : Char} {parts : List (List Char)}

@[simp] theorem toList_text : text.toList = ['_', '_'] := rfl

/-! ### Texts that hold a separator -/

theorem prefix_cons : text.toList <+: c :: rest ↔ c = '_' ∧ ['_'] <+: rest := by
  rw [toList_text, List.cons_prefix_cons, eq_comm]

/-- An underscore in front of a text makes a separator if the text starts with another one. -/
theorem infix_underscore :
    text.toList <:+: '_' :: cs ↔ ['_'] <+: cs ∨ text.toList <:+: cs := by
  rw [List.infix_cons_iff, prefix_cons, and_iff_right rfl]

/-- A text that gets no separator by having an underscore behind it does not get any in front of
that. -/
theorem free_cons (free : ¬ text.toList <:+: c :: cs ++ ['_']) :
    (∀ rest, ¬ text.toList <+: c :: (cs ++ '_' :: rest)) ∧ ¬ text.toList <:+: cs ++ ['_'] := by
  rw [List.cons_append, List.infix_cons_iff, not_or] at free
  refine ⟨fun rest occurs => free.1 ?_, free.2⟩
  rw [prefix_cons] at occurs ⊢
  refine occurs.imp_right fun next => ?_
  cases cs with
  | nil => exact List.prefix_refl _
  | cons d cs => simpa using next

/-! ### Pieces -/

theorem afterFirst_cons (other : ¬ text.toList <+: c :: rest) :
    afterFirst (c :: rest) = afterFirst rest := by
  rw [afterFirst]
  rintro rest' rfl rfl
  exact other ⟨rest', rfl⟩

theorem pieces_cons (other : ¬ text.toList <+: c :: rest) :
    pieces (c :: rest) = (pieces rest).modifyHead (c :: ·) := by
  rw [pieces]
  rintro rest' rfl rfl
  exact other ⟨rest', rfl⟩

/-- A text without separators is a single piece. -/
theorem pieces_free (free : ¬ text.toList <:+: cs) : pieces cs = [cs] := by
  induction cs with
  | nil => rfl
  | cons c cs ih =>
    rw [List.infix_cons_iff, not_or] at free
    rw [pieces_cons free.1, ih free.2]
    rfl

/-- The first piece ends at the first separator. -/
theorem pieces_append (free : ¬ text.toList <:+: cs ++ ['_']) (rest : List Char) :
    pieces (cs ++ '_' :: '_' :: rest) = cs :: pieces rest := by
  induction cs with
  | nil => rfl
  | cons c cs ih =>
    obtain ⟨other, free⟩ := free_cons free
    rw [List.cons_append, pieces_cons (other _), ih free]
    rfl

theorem afterFirst_append (free : ¬ text.toList <:+: cs ++ ['_']) (rest : List Char) :
    afterFirst (cs ++ '_' :: '_' :: rest) = some rest := by
  induction cs with
  | nil => rfl
  | cons c cs ih =>
    obtain ⟨other, free⟩ := free_cons free
    rw [List.cons_append, afterFirst_cons (other _), ih free]

/-! ### The last separator -/

theorem splitLast_free (free : ¬ text.toList <:+: cs) : splitLast cs = none := by
  induction cs with
  | nil => rfl
  | cons c rest ih =>
    rw [List.infix_cons_iff, not_or] at free
    unfold splitLast
    rw [ih free.2]
    simp only
    split
    · exact absurd ⟨_, rfl⟩ free.1
    · rfl

theorem splitLast_append (free : ¬ text.toList <:+: '_' :: after) (before : List Char) :
    splitLast (before ++ '_' :: '_' :: after) = some (before, after) := by
  induction before with
  | nil =>
    rw [List.nil_append]
    unfold splitLast
    rw [splitLast_free free]
    rfl
  | cons c before ih =>
    rw [List.cons_append]
    unfold splitLast
    rw [ih]

/-- A text that holds a separator holds a last one. -/
theorem exists_last (occurs : text.toList <:+: cs) :
    ∃ before after, cs = before ++ '_' :: '_' :: after ∧ ¬ text.toList <:+: '_' :: after := by
  induction cs with
  | nil => simp at occurs
  | cons c rest ih =>
    by_cases later : text.toList <:+: rest
    · obtain ⟨before, after, rfl, free⟩ := ih later
      exact ⟨c :: before, after, rfl, free⟩
    · obtain ⟨after, same⟩ := (List.infix_cons_iff.1 occurs).resolve_right later
      obtain ⟨rfl, rfl⟩ := List.cons.inj same
      exact ⟨[], after, rfl, later⟩

/-- The text behind the last separator holds none, and does not start with an underscore. -/
theorem splitLast_eq_some : splitLast cs = some (before, after) ↔
    cs = before ++ '_' :: '_' :: after ∧ ¬ text.toList <:+: '_' :: after := by
  constructor
  · intro splits
    have occurs : text.toList <:+: cs := by
      by_contra free
      rw [splitLast_free free] at splits
      cases splits
    obtain ⟨before', after', rfl, free⟩ := exists_last occurs
    rw [splitLast_append free] at splits
    cases splits
    exact ⟨rfl, free⟩
  · rintro ⟨rfl, free⟩
    exact splitLast_append free before

/-! ### The last piece -/

/-- The number of underscores that a text ends in. -/
def underscores (cs : List Char) : Nat :=
  (cs.reverse.takeWhile (· = '_')).length

theorem underscores_le (cs : List Char) : underscores cs ≤ cs.length := by
  have shorter := (List.takeWhile_prefix (· = '_') (l := cs.reverse)).length_le
  rwa [List.length_reverse] at shorter

/-- A character in front counts only if nothing but underscores stands behind it. -/
theorem underscores_cons (c : Char) (rest : List Char) : underscores (c :: rest) =
    if underscores rest = rest.length then rest.length + (if c = '_' then 1 else 0)
    else underscores rest := by
  unfold underscores
  rw [List.reverse_cons, List.takeWhile_append, List.length_reverse]
  split
  · by_cases underscore : c = '_' <;> simp [underscore]
  · rfl

theorem even_underscores_pair (rest : List Char) :
    Even (underscores ('_' :: '_' :: rest)) ↔ Even (underscores rest) := by
  have le := underscores_le rest
  rw [underscores_cons, underscores_cons, if_pos rfl, List.length_cons, Nat.even_iff, Nat.even_iff]
  split_ifs <;> omega

/-- Any other character in front makes no difference, unless it is a single underscore. -/
theorem underscores_of_unpaired (other : ¬ text.toList <+: c :: rest)
    (single : c :: rest ≠ ['_']) : underscores (c :: rest) = underscores rest := by
  have le := underscores_le rest
  rw [underscores_cons]
  by_cases underscore : c = '_'
  · subst underscore
    cases rest with
    | nil => exact absurd rfl single
    | cons d rest =>
      have other : d ≠ '_' := fun same => other (by simp [same])
      have le := underscores_le rest
      rw [underscores_cons, if_neg other, List.length_cons]
      split_ifs <;> omega
  · rw [if_neg underscore]
    split_ifs <;> omega

theorem pieces_ne_nil (cs : List Char) : pieces cs ≠ [] := by
  fun_induction pieces cs with
  | case1 rest _ => exact List.cons_ne_nil _ _
  | case2 c rest _ ih => simpa [← List.length_eq_zero_iff] using ih
  | case3 => exact List.cons_ne_nil _ _

/-- A separator cuts a text in two pieces at least. -/
theorem one_lt_length_pieces (occurs : text.toList <:+: cs) : 1 < (pieces cs).length := by
  fun_induction pieces cs with
  | case1 rest _ =>
    have filled := List.length_pos_of_ne_nil (pieces_ne_nil rest)
    rw [List.length_cons]
    omega
  | case2 c rest other ih =>
    rw [List.length_modifyHead]
    refine ih ((List.infix_cons_iff.1 occurs).resolve_left ?_)
    rintro ⟨rest', same⟩
    obtain ⟨rfl, rfl⟩ := List.cons.inj same
    exact other rest' rfl rfl
  | case3 => simp at occurs

theorem getLast?_pieces_pair (rest : List Char) :
    (pieces ('_' :: '_' :: rest)).getLast? = (pieces rest).getLast? := by
  rw [pieces, List.getLast?_cons, List.getLast?_eq_some_getLast (pieces_ne_nil rest)]
  rfl

/-- A character in front of the first separator does not come into the last piece. -/
theorem getLast?_pieces_cons (other : ¬ text.toList <+: c :: rest)
    (occurs : text.toList <:+: rest) :
    (pieces (c :: rest)).getLast? = (pieces rest).getLast? := by
  have several := one_lt_length_pieces occurs
  rw [pieces_cons other]
  match pieces rest, several with
  | first :: second :: more, _ => rfl

/-- What stands behind the first separator has the same last piece. -/
theorem exists_afterFirst (occurs : text.toList <:+: cs) :
    ∃ rest, afterFirst cs = some rest ∧ (pieces cs).getLast? = (pieces rest).getLast? := by
  induction cs with
  | nil => simp at occurs
  | cons c rest ih =>
    by_cases first : text.toList <+: c :: rest
    · obtain ⟨rest', same⟩ := first
      obtain ⟨rfl, rfl⟩ := List.cons.inj same
      exact ⟨rest', rfl, getLast?_pieces_pair rest'⟩
    · have later := (List.infix_cons_iff.1 occurs).resolve_left first
      rw [afterFirst_cons first, getLast?_pieces_cons first later]
      exact ih later

/-- The last piece is what stands behind the last separator if the underscores in front of that make
pairs. Otherwise one of them is left over, and the last piece starts with it. -/
theorem getLast?_pieces (free : ¬ text.toList <:+: '_' :: after) (before : List Char) :
    (pieces (before ++ '_' :: '_' :: after)).getLast? =
      some (if Even (underscores before) then after else '_' :: after) := by
  have occurs : ∀ before : List Char, text.toList <:+: before ++ '_' :: '_' :: after :=
    fun before => ⟨before, after, by simp⟩
  fun_induction pieces before with
  | case1 rest ih =>
    rw [List.cons_append, List.cons_append, getLast?_pieces_pair, ih]
    simp only [even_underscores_pair]
  | case2 c rest other ih =>
    by_cases single : c :: rest = ['_']
    · obtain ⟨rfl, rfl⟩ := List.cons.inj single
      show (pieces ('_' :: '_' :: '_' :: after)).getLast? = _
      rw [getLast?_pieces_pair, pieces_free free]
      rfl
    · have other : ¬ text.toList <+: c :: rest := by
        rintro ⟨rest', same⟩
        obtain ⟨rfl, rfl⟩ := List.cons.inj same
        exact other rest' rfl rfl
      rw [underscores_of_unpaired other single, ← ih, List.cons_append]
      refine getLast?_pieces_cons (fun occurs => other ?_) (occurs rest)
      rw [prefix_cons] at occurs ⊢
      refine occurs.imp_right fun next => ?_
      cases rest with
      | nil => exact absurd (by rw [occurs.1]) single
      | cons d rest => simpa using next
  | case3 =>
    have free : ¬ text.toList <:+: after := fun within => free (List.infix_cons_iff.2 (.inr within))
    rw [List.nil_append, getLast?_pieces_pair, pieces_free free]
    rfl

/-! ### Parts -/

/-- The text holds no separator, and having separators before and behind it makes no others. -/
structure IsPart (cs : List Char) : Prop where
  free : ¬ text.toList <:+: cs
  head : ¬ ['_'] <+: cs
  last : ¬ ['_'] <:+ cs

/-- The parts, with separators between them. -/
def joined (parts : List (List Char)) : List Char :=
  text.toList.intercalate parts

theorem isPart_nil : IsPart [] := by
  constructor <;> simp

theorem free_behind (free : ¬ text.toList <:+: cs) (last : ¬ ['_'] <:+ cs) :
    ¬ text.toList <:+: cs ++ ['_'] := by
  rw [List.infix_concat_iff, not_or]
  refine ⟨?_, free⟩
  rintro ⟨before, same⟩
  have same : before ++ ['_'] ++ ['_'] = cs ++ ['_'] := by rw [← same]; simp
  exact last ⟨before, List.append_cancel_right same⟩

theorem IsPart.free_before (isPart : IsPart cs) : ¬ text.toList <:+: '_' :: cs := by
  rw [infix_underscore, not_or]
  exact ⟨isPart.head, isPart.free⟩

theorem joined_cons (first : List Char) (other : parts ≠ []) :
    joined (first :: parts) = first ++ '_' :: '_' :: joined parts := by
  rw [joined, List.intercalate_cons_of_ne_nil other, List.append_assoc]
  rfl

theorem joined_concat (other : parts ≠ []) (last : List Char) :
    joined (parts ++ [last]) = joined parts ++ '_' :: '_' :: last := by
  induction parts with
  | nil => exact absurd rfl other
  | cons first rest ih =>
    cases rest with
    | nil => simp [joined]
    | cons second rest =>
      rw [List.cons_append, joined_cons first (by simp), ih (by simp), joined_cons first (by simp),
        List.append_assoc]
      rfl

/-- A text that is joined from parts does not start with an underscore, unless the first part is
empty. -/
theorem head_joined (isPart : ∀ part ∈ parts ++ [last], IsPart part)
    (filled : ∀ part ∈ parts, part ≠ []) : ¬ ['_'] <+: joined (parts ++ [last]) := by
  cases parts with
  | nil => simpa [joined] using (isPart last (by simp)).head
  | cons first rest =>
    rw [List.cons_append, joined_cons first (by simp)]
    have head := (isPart first (by simp)).head
    cases first with
    | nil => exact absurd rfl (filled [] List.mem_cons_self)
    | cons c cs => simpa using head

/-- A text that is joined from parts is cut into them. -/
theorem pieces_joined (other : parts ≠ []) (isPart : ∀ part ∈ parts, IsPart part) :
    pieces (joined parts) = parts := by
  induction parts with
  | nil => exact absurd rfl other
  | cons first rest ih =>
    obtain ⟨⟨free, _, last⟩, isPart⟩ := List.forall_mem_cons.1 isPart
    cases rest with
    | nil => simpa [joined] using pieces_free free
    | cons second rest =>
      rw [joined_cons first (by simp), pieces_append (free_behind free last), ih (by simp) isPart]

end ClassLinker.Separator
