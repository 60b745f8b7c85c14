import CompileCommands.Proofs.Database.RoundTrip

set_option autoImplicit false

/- The layout of a database: a line for each entry between those of the two brackets, in printable
ASCII. No entry holds the end of a line, whatever characters its strings hold, so that the lines of the
text are those it is made of. -/
namespace CompileCommands.Database

open Json (IsPrintableAscii)

theorem newline_not_mem_entryChars (entry : Entry) : '\n' ∉ entryChars entry := by
  intro member
  exact absurd (printable_entryChars entry _ member) (by decide)

/-- The lines of some entries, of which the first one starts with `indent`. -/
def bodyLines (indent : List Char) : List Entry → List (List Char)
  | [] => [indent]
  | [entry] => [indent ++ entryChars entry]
  | entry :: rest => (indent ++ entryChars entry ++ [',']) :: bodyLines [' '] rest

theorem splitOn_bodyChars {indent : List Char} (plain : '\n' ∉ indent) (entries : List Entry)
    (after : List Char) :
    (indent ++ bodyChars entries ++ '\n' :: after).splitOn '\n' =
      bodyLines indent entries ++ after.splitOn '\n' := by
  fun_induction bodyLines indent entries with
  | case1 indent =>
      rw [bodyChars, List.append_nil, List.splitOn_append_cons_self_of_not_mem plain,
        List.singleton_append]
  | case2 indent entry =>
      have line : '\n' ∉ indent ++ entryChars entry := by
        simp [plain, newline_not_mem_entryChars]
      rw [bodyChars, List.splitOn_append_cons_self_of_not_mem line, List.singleton_append]
  | case3 indent entry rest filled ih =>
      have line : '\n' ∉ indent ++ entryChars entry ++ [','] := by
        simp [plain, newline_not_mem_entryChars]
      have parts : indent ++ bodyChars (entry :: rest) ++ '\n' :: after =
          indent ++ entryChars entry ++ [','] ++ '\n' ::
            ([' '] ++ bodyChars rest ++ '\n' :: after) := by
        rw [bodyChars]
        · simp
        · exact filled
      rw [parts, List.splitOn_append_cons_self_of_not_mem line, ih (by decide), List.cons_append]

theorem splitOn_chars (entries : List Entry) :
    (chars entries).splitOn '\n' = ['['] :: (bodyLines [] entries ++ [[']'], []]) := by
  have parts : chars entries = ['['] ++ '\n' :: ([] ++ bodyChars entries ++ '\n' :: [']', '\n']) :=
    chars_eq entries
  rw [parts, List.splitOn_append_cons_self_of_not_mem (by decide), splitOn_bodyChars (by decide)]
  rfl

theorem length_bodyLines (indent : List Char) (entries : List Entry) :
    (bodyLines indent entries).length = max entries.length 1 := by
  fun_induction bodyLines indent entries with
  | case1 | case2 => rfl
  | case3 indent first rest filled ih =>
      have more : 0 < rest.length := List.length_pos_iff.mpr filled
      rw [List.length_cons, ih, List.length_cons]
      omega

theorem getElem?_bodyLines (indent : List Char) (entries : List Entry) (index : Nat) (entry : Entry)
    (here : entries[index]? = some entry) :
    (bodyLines indent entries)[index]? = some ((if 0 < index then [' '] else indent) ++
      entryChars entry ++ (if index + 1 < entries.length then [','] else [])) := by
  fun_induction bodyLines indent entries generalizing index with
  | case1 indent => contradiction
  | case2 indent only =>
      cases index with
      | zero =>
          cases here
          simp
      | succ index => contradiction
  | case3 indent first rest filled ih =>
      cases index with
      | zero =>
          cases here
          have more : 0 < rest.length := List.length_pos_iff.mpr filled
          simp [more]
      | succ index =>
          have later := ih index here
          simp [later]

theorem count_newline_bodyChars (entries : List Entry) :
    (bodyChars entries).count '\n' = entries.length - 1 := by
  have line (entry : Entry) : (entryChars entry).count '\n' = 0 :=
    List.count_eq_zero.mpr (newline_not_mem_entryChars entry)
  fun_induction bodyChars entries with
  | case1 => rfl
  | case2 entry => exact line entry
  | case3 entry rest filled ih =>
      have more : 0 < rest.length := List.length_pos_iff.mpr filled
      have separator : [',', '\n', ' '].count '\n' = 1 := rfl
      rw [List.count_append, List.count_append, line, ih, separator, List.length_cons]
      omega

theorem text_injective : Function.Injective text := by
  intro entries others same
  have read := parse_text .usual entries
  rw [same, parse_text] at read
  exact (Except.ok.inj read).symm

/-- The lines of a text, without their ends. -/
def linesOf (text : String) : List String := (text.toList.splitOn '\n').map String.ofList

theorem linesOf_text (entries : List Entry) :
    linesOf (text entries) = "[" :: ((bodyLines [] entries).map String.ofList ++ ["]", ""]) := by
  rw [linesOf, text, String.toList_ofList, splitOn_chars, List.map_cons, List.map_append]
  rfl

/-- The text of a database is printable ASCII in lines. Between those of the brackets there is one for
each entry, or an empty one if there are none; each but the first starts with a space and each but the
last ends with a comma. Different entries make different texts. -/
theorem text_in_lines (entries : List Entry) :
    (∀ c ∈ (text entries).toList, IsPrintableAscii c ∨ c = '\n') ∧
    (text entries).toList.count '\n' = max entries.length 1 + 2 ∧
    (∃ body : List String, linesOf (text entries) = "[" :: (body ++ ["]", ""]) ∧
      body.length = max entries.length 1 ∧
      ∀ index entry, entries[index]? = some entry →
        body[index]? = some ((if 0 < index then " " else "") ++ entryText entry ++
          (if index + 1 < entries.length then "," else ""))) ∧
    ∀ others, text others = text entries → others = entries := by
  refine ⟨?_, ?_, ⟨_, linesOf_text entries, ?_, ?_⟩, fun others same => text_injective same⟩
  · rw [text, String.toList_ofList]
    exact printable_or_newline_chars entries
  · have brackets : chars entries = ['[', '\n'] ++ bodyChars entries ++ ['\n', ']', '\n'] := rfl
    have opening : ['[', '\n'].count '\n' = 1 := rfl
    have closing : ['\n', ']', '\n'].count '\n' = 2 := rfl
    rw [text, String.toList_ofList, brackets, List.count_append, List.count_append,
      count_newline_bodyChars, opening, closing]
    omega
  · rw [List.length_map, length_bodyLines]
  · intro index entry here
    rw [List.getElem?_map, getElem?_bodyLines [] entries index entry here, Option.map_some,
      String.ofList_append, String.ofList_append, apply_ite String.ofList, apply_ite String.ofList]
    rfl

example : linesOf (text []) = ["[", "", "]", ""] := by decide

end CompileCommands.Database
