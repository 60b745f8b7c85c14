import CompileCommands.Text.Blank
import CompileCommands.Text.Replace
import Mathlib.Data.List.Infix

set_option autoImplicit false

/- Where a text is cut: at the first place of the mark, which is the place after `before` exactly if
the mark does not stand earlier, be it in part within the mark itself. -/
namespace CompileCommands.Text

theorem cut_eq_some {mark text before after : List Char}
    (found : cut mark text = some (before, after)) : text = before ++ mark ++ after := by
  induction text generalizing before with
  | nil =>
      rw [cut] at found
      split at found
      · next empty =>
        cases found
        rw [List.isEmpty_iff.mp empty]
        rfl
      · contradiction
  | cons c rest ih =>
      rw [cut] at found
      split at found
      · next here =>
        cases found
        obtain ⟨tail, parts⟩ := List.isPrefixOf_iff_prefix.mp here
        rw [← parts, List.drop_left, List.nil_append]
      · obtain ⟨⟨first, second⟩, later, same⟩ := Option.map_eq_some_iff.mp found
        cases same
        rw [ih later]
        rfl

theorem occurs_eq_false_of_length_lt {mark text : List Char} (short : text.length < mark.length) :
    occurs mark text = false := by
  rw [occurs, Option.isSome_eq_false_iff, Option.isNone_iff_eq_none]
  cases found : cut mark text with
  | none => rfl
  | some parts =>
      obtain ⟨before, after⟩ := parts
      have length := congrArg List.length (cut_eq_some found)
      simp only [List.length_append] at length
      omega

theorem occurs_cons (mark rest : List Char) (c : Char) :
    occurs mark (c :: rest) = (mark.isPrefixOf (c :: rest) || occurs mark rest) := by
  rw [occurs, cut]
  split
  · next here => simp [here]
  · next elsewhere =>
    rw [Option.isSome_map]
    simp [elsewhere, occurs]

/-- A mark that begins before another one ends within all but the last character of that one. -/
theorem isPrefixOf_dropLast_iff {mark : List Char} (marked : mark ≠ []) (c : Char)
    (before after : List Char) :
    mark.isPrefixOf (c :: (before ++ mark ++ after)) =
      mark.isPrefixOf (c :: (before ++ mark.dropLast)) := by
  have length : mark.length ≤ (c :: (before ++ mark.dropLast)).length := by
    have positive := List.length_pos_iff.mpr marked
    simp only [List.length_cons, List.length_append, List.length_dropLast]
    omega
  have part : c :: (before ++ mark.dropLast) <+: c :: (before ++ mark ++ after) := by
    apply (List.prefix_cons_inj c).mpr
    rw [List.append_assoc]
    apply (List.prefix_append_right_inj before).mpr
    exact (List.dropLast_prefix mark).trans (List.prefix_append mark after)
  apply Bool.eq_iff_iff.mpr
  rw [List.isPrefixOf_iff_prefix, List.isPrefixOf_iff_prefix]
  constructor
  · intro whole
    exact List.prefix_of_prefix_length_le whole part length
  · intro inside
    exact inside.trans part

theorem cut_append {mark before : List Char} (marked : mark ≠ [])
    (first : occurs mark (before ++ mark.dropLast) = false) (after : List Char) :
    cut mark (before ++ mark ++ after) = some (before, after) := by
  induction before with
  | nil =>
      obtain ⟨c, rest, rfl⟩ := List.exists_cons_of_ne_nil marked
      have here : (c :: rest).isPrefixOf (c :: (rest ++ after)) = true := by
        apply List.isPrefixOf_iff_prefix.mpr
        exact List.prefix_append (c :: rest) after
      show cut (c :: rest) (c :: (rest ++ after)) = _
      rw [cut, if_pos here]
      simp
  | cons c before ih =>
      rw [List.cons_append, occurs_cons, Bool.or_eq_false_iff] at first
      obtain ⟨elsewhere, later⟩ := first
      rw [List.cons_append, List.cons_append, cut, isPrefixOf_dropLast_iff marked, elsewhere, ih later]
      rfl

theorem occurs_of_cut {mark text before after : List Char} (marked : mark ≠ [])
    (found : cut mark text = some (before, after)) :
    occurs mark (before ++ mark.dropLast) = false := by
  induction text generalizing before with
  | nil =>
      have none : cut mark [] = none := by
        rw [cut, if_neg (by simpa using marked)]
      rw [none] at found
      contradiction
  | cons c rest ih =>
      have parts := cut_eq_some found
      rw [cut] at found
      split at found
      · cases found
        apply occurs_eq_false_of_length_lt
        have positive := List.length_pos_iff.mpr marked
        simp only [List.nil_append, List.length_dropLast]
        omega
      · next elsewhere =>
        obtain ⟨⟨first, second⟩, later, same⟩ := Option.map_eq_some_iff.mp found
        cases same
        rw [parts, List.cons_append, List.cons_append, isPrefixOf_dropLast_iff marked] at elsewhere
        rw [List.cons_append, occurs_cons, Bool.or_eq_false_iff]
        exact ⟨Bool.eq_false_iff.mpr elsewhere, ih later⟩

theorem occurs_iff_isInfix (mark text : List Char) : occurs mark text = true ↔ mark <:+: text := by
  induction text with
  | nil => cases mark <;> simp [occurs, cut]
  | cons c rest ih =>
      rw [occurs_cons, Bool.or_eq_true, ih, List.isPrefixOf_iff_prefix, List.infix_cons_iff]

theorem cut_eq_some_iff {mark text before after : List Char} (marked : mark ≠ []) :
    cut mark text = some (before, after) ↔
      text = before ++ mark ++ after ∧ occurs mark (before ++ mark.dropLast) = false := by
  constructor
  · intro found
    exact ⟨cut_eq_some found, occurs_of_cut marked found⟩
  · rintro ⟨rfl, first⟩
    exact cut_append marked first after

theorem cut_eq_none_iff (mark text : List Char) : cut mark text = none ↔ ¬ mark <:+: text := by
  rw [← occurs_iff_isInfix, occurs, Bool.not_eq_true, Option.isSome_eq_false_iff,
    Option.isNone_iff_eq_none]

/-! A mark of one character. -/

theorem occurs_singleton_iff (c : Char) (text : List Char) : occurs [c] text = true ↔ c ∈ text := by
  rw [occurs_iff_isInfix, List.singleton_infix_iff]

theorem cut_singleton_eq_some_iff (c : Char) (text before after : List Char) :
    cut [c] text = some (before, after) ↔ text = before ++ c :: after ∧ c ∉ before := by
  rw [cut_eq_some_iff (List.cons_ne_nil c []), List.append_assoc, List.singleton_append,
    List.dropLast_singleton, List.append_nil, Bool.eq_false_iff, ne_eq, occurs_singleton_iff]

theorem cut_singleton_eq_none_iff (c : Char) (text : List Char) :
    cut [c] text = none ↔ c ∉ text := by
  rw [cut_eq_none_iff, List.singleton_infix_iff]

/-- Whether `part` is what stands behind the last mark of a text, or all of a text without marks. -/
def IsAfterLast (mark : Char) (part text : List Char) : Prop :=
  mark ∉ part ∧ (part = text ∨ ∃ before, text = before ++ mark :: part)

theorem IsAfterLast.suffix {mark : Char} {part text : List Char}
    (last : IsAfterLast mark part text) : part <:+ text := by
  obtain ⟨_, rfl | ⟨before, rfl⟩⟩ := last
  · exact List.suffix_refl part
  · exact List.suffix_append_of_suffix (List.suffix_cons mark part)

theorem ne_of_mem_reverse {mark : Char} {part : List Char} (free : mark ∉ part) :
    ∀ c ∈ part.reverse, (c != mark) = true := by
  intro c member
  have other : c ≠ mark := fun same => free (same ▸ List.mem_reverse.mp member)
  simpa using other

theorem takeWhile_reverse_append {mark : Char} {part : List Char} (free : mark ∉ part)
    (rest : List Char) :
    (part.reverse ++ rest).takeWhile (· != mark) = part.reverse ++ rest.takeWhile (· != mark) :=
  List.takeWhile_append_of_pos (ne_of_mem_reverse free)

theorem dropWhile_reverse_append {mark : Char} {part : List Char} (free : mark ∉ part)
    (rest : List Char) :
    (part.reverse ++ rest).dropWhile (· != mark) = rest.dropWhile (· != mark) :=
  List.dropWhile_append_of_pos (ne_of_mem_reverse free)

theorem isAfterLast_iff (mark : Char) (part text : List Char) :
    IsAfterLast mark part text ↔ part = afterLast mark text := by
  constructor
  · rintro ⟨free, rfl | ⟨before, rfl⟩⟩
    · have whole := takeWhile_reverse_append free []
      rw [List.append_nil] at whole
      rw [afterLast, whole, List.takeWhile_nil, List.append_nil, List.reverse_reverse]
    · rw [afterLast, List.reverse_append, List.reverse_cons, List.append_assoc,
        takeWhile_reverse_append free, List.singleton_append, List.takeWhile_cons_of_neg (by simp),
        List.append_nil, List.reverse_reverse]
  · rintro rfl
    have parts := List.takeWhile_append_dropWhile (p := (· != mark)) (l := text.reverse)
    refine ⟨?_, ?_⟩
    · intro member
      have kept := List.all_eq_true.mp List.all_takeWhile _ (List.mem_reverse.mp member)
      simp at kept
    · cases left : text.reverse.dropWhile (· != mark) with
      | nil =>
          rw [left, List.append_nil] at parts
          exact .inl (by rw [afterLast, parts, List.reverse_reverse])
      | cons c before =>
          have stop := List.head?_dropWhile_not (· != mark) text.reverse
          rw [left] at stop parts
          have same : c = mark := by simpa using stop
          refine .inr ⟨before.reverse, ?_⟩
          rw [← List.reverse_inj, ← parts, same]
          simp [afterLast]

/-! Texts without blanks at their ends. -/

theorem isBlank_of_mem_getLast?_strip {text : List Char} {c : Char}
    (last : c ∈ (strip text).getLast?) : isBlank c = false := by
  rw [strip, List.getLast?_reverse] at last
  have kept := List.head?_dropWhile_not isBlank (text.dropWhile isBlank).reverse
  rw [Option.mem_def.mp last] at kept
  exact kept

theorem dropWhile_isBlank_eq_self {text : List Char}
    (first : ∀ c ∈ text.head?, isBlank c = false) : text.dropWhile isBlank = text := by
  cases text with
  | nil => rfl
  | cons c rest => rw [List.dropWhile_cons_of_neg (by simp [first c rfl])]

theorem strip_eq_self {text : List Char} (first : ∀ c ∈ text.head?, isBlank c = false)
    (last : ∀ c ∈ text.getLast?, isBlank c = false) : strip text = text := by
  have back : ∀ c ∈ text.reverse.head?, isBlank c = false := by
    rwa [List.head?_reverse]
  rw [strip, dropWhile_isBlank_eq_self first, dropWhile_isBlank_eq_self back, List.reverse_reverse]

/-- What ends a text ends the texts that it ends with. -/
theorem mem_getLast?_of_suffix {part text : List Char} (suffix : part <:+ text) {c : Char}
    (last : c ∈ part.getLast?) : c ∈ text.getLast? := by
  obtain ⟨before, rfl⟩ := suffix
  rw [List.getLast?_append, Option.mem_def.mp last]
  rfl

end CompileCommands.Text
