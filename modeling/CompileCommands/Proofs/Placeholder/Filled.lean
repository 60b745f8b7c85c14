import CompileCommands.Placeholder
import CompileCommands.Proofs.Success
import CompileCommands.Proofs.Text.Replaced

set_option autoImplicit false

/- Filling leaves no placeholder behind. Placeholders begin with two underscores and have no slash, so
that a root which begins with a slash and has no underscores to offer keeps them out: none comes of
the text around it, be it in part. -/
namespace CompileCommands

def Entry.texts (entry : Entry) : List String := [entry.command, entry.directory, entry.file]

namespace Text

/-- What begins with one character twice does not begin within a text that has this character
neither twice in a row nor at its end. -/
theorem infix_of_infix_append {value tail after : List Char} {c : Char}
    (apart : ¬ [c, c] <:+: value) (last : value.getLast? ≠ some c)
    (inside : c :: c :: tail <:+: value ++ after) : c :: c :: tail <:+: after := by
  have pair : [c, c] <+: c :: c :: tail := List.prefix_append [c, c] tail
  rcases List.infix_append_iff.mp inside with within | behind | ⟨front, rest, parts, left, right⟩
  · exact absurd (pair.isInfix.trans within) apart
  · exact behind
  · -- What stands in the value is nothing, one character at its end, or the two.
    match front with
    | [] =>
        rw [parts]
        exact right.isInfix
    | [d] =>
        obtain ⟨rfl, _⟩ := List.cons.inj parts
        obtain ⟨before, rfl⟩ := left
        exact absurd List.getLast?_concat last
    | d :: e :: more =>
        obtain ⟨rfl, second⟩ := List.cons.inj parts
        obtain ⟨rfl, _⟩ := List.cons.inj second
        exact absurd ((List.prefix_append [c, c] more).isInfix.trans left.isInfix) apart

end Text

namespace Placeholder

/-- The texts that stand for roots. -/
def all : List String := [executionRootPlaceholder, workspacePlaceholder]

/-- Whether a text has no placeholder in it. -/
def Bare (text : String) : Prop := ∀ placeholder ∈ all, ¬ placeholder.toList <:+: text.toList

theorem forall_mem_all_iff {p : String → Prop} :
    (∀ placeholder ∈ all, p placeholder) ↔ p executionRootPlaceholder ∧ p workspacePlaceholder := by
  simp [all]

theorem executionRootPlaceholder_mem_all : executionRootPlaceholder ∈ all := List.mem_cons_self ..

theorem workspacePlaceholder_mem_all : workspacePlaceholder ∈ all := by simp [all]

theorem toList_of_mem_all {placeholder : String} (one : placeholder ∈ all) :
    ∃ tail, placeholder.toList = '_' :: '_' :: tail ∧ '/' ∉ placeholder.toList := by
  revert placeholder
  rw [forall_mem_all_iff]
  exact ⟨⟨_, rfl, by decide⟩, ⟨_, rfl, by decide⟩⟩

theorem toList_ne_nil_of_mem_all {placeholder : String} (one : placeholder ∈ all) :
    placeholder.toList ≠ [] := by
  obtain ⟨tail, parts, _⟩ := toList_of_mem_all one
  rw [parts]
  exact List.cons_ne_nil _ _

/-- Whether a root, without the slashes at its end, begins with a slash and has no underscores that a
placeholder could begin with: no two in a row, and none at its end. -/
structure IsPlain (root : String) : Prop where
  absolute : (trimmedRoot root.toList).head? = some '/'
  apart : ¬ ['_', '_'] <:+: trimmedRoot root.toList
  last : (trimmedRoot root.toList).getLast? ≠ some '_'

theorem IsPlain.keepsOut {root : String} (plain : IsPlain root) {placeholder : String}
    (one : placeholder ∈ all) : Text.KeepsOut (trimmedRoot root.toList) placeholder.toList := by
  obtain ⟨tail, parts, noSlash⟩ := toList_of_mem_all one
  refine ⟨⟨'/', plain.absolute, noSlash⟩, ?_⟩
  intro after inside
  rw [parts] at inside ⊢
  exact Text.infix_of_infix_append plain.apart plain.last inside

section

variable {executionRoot workspaceRoot : Option String} {text : String}

theorem fillOne_eq_self {placeholder : String} {text : List Char}
    (absent : ¬ placeholder.toList <:+: text) (root : Option String) :
    fillOne placeholder root text = text := by
  cases root with
  | none => rfl
  | some root => exact Text.replace_eq_self absent _

theorem Bare.fill_eq (bare : Bare text) : fill executionRoot workspaceRoot text = text := by
  rw [fill, fillOne_eq_self (bare _ executionRootPlaceholder_mem_all),
    fillOne_eq_self (bare _ workspacePlaceholder_mem_all), String.ofList_toList]

theorem resolve_eq_self {entries : List Entry}
    (bare : ∀ entry ∈ entries, ∀ text ∈ entry.texts, Bare text) :
    resolve executionRoot workspaceRoot entries = entries := by
  rw [resolve]
  refine (List.map_congr_left ?_).trans (List.map_id entries)
  intro entry member
  have texts := bare entry member
  simp only [Entry.texts, List.forall_mem_cons] at texts
  obtain ⟨command, directory, file, _⟩ := texts
  rw [fillEntry, command.fill_eq, directory.fill_eq, file.fill_eq, id]

end

/-- Whether a text has become one without placeholders, and is as it was if it had none. -/
structure Settles (text filled : String) : Prop where
  bare : Bare filled
  same : Bare text → filled = text

section

variable {executionRoot workspaceRoot : String} (execution : IsPlain executionRoot)
  (workspace : IsPlain workspaceRoot)

include execution workspace

/-- The workspace root fills in after the execution root, and keeps its placeholder out too. -/
theorem bare_fill (text : String) :
    Bare (fill (some executionRoot) (some workspaceRoot) text) := by
  have first := executionRootPlaceholder_mem_all
  have second := workspacePlaceholder_mem_all
  rw [Bare, forall_mem_all_iff, fill, String.toList_ofList]
  constructor
  · intro found
    exact Text.not_infix_replace (toList_ne_nil_of_mem_all first) (execution.keepsOut first) _
      (Text.infix_of_infix_replace (toList_ne_nil_of_mem_all second) (workspace.keepsOut first)
        found)
  · exact Text.not_infix_replace (toList_ne_nil_of_mem_all second) (workspace.keepsOut second) _

theorem settles_fill (text : String) :
    Settles text (fill (some executionRoot) (some workspaceRoot) text) :=
  ⟨bare_fill execution workspace text, Bare.fill_eq⟩

theorem settles_fillEntry (entry : Entry) :
    List.Forall₂ Settles entry.texts
      (fillEntry (some executionRoot) (some workspaceRoot) entry).texts := by
  have each := settles_fill execution workspace
  exact .cons (each _) (.cons (each _) (.cons (each _) .nil))

theorem bare_of_mem_resolve {entries : List Entry} {entry : Entry}
    (member : entry ∈ resolve (some executionRoot) (some workspaceRoot) entries) :
    ∀ text ∈ entry.texts, Bare text := by
  obtain ⟨source, _, rfl⟩ := List.mem_map.mp member
  intro text listed
  obtain ⟨_, _, settled⟩ :=
    exists_of_mem_forall₂ (settles_fillEntry execution workspace source) listed
  exact settled.bare

end

/-- When both roots are given and plain, every entry becomes, at its place and whatever the others
are, one in which no placeholder is left and every text without one is as it was. Doing this again
changes nothing. -/
theorem resolve_settles {executionRoot workspaceRoot : String} (execution : IsPlain executionRoot)
    (workspace : IsPlain workspaceRoot) (entries : List Entry) :
    (resolve (some executionRoot) (some workspaceRoot) entries).length = entries.length ∧
    (∀ (place : Nat) (entry : Entry), entries[place]? = some entry → ∃ resolved,
      (resolve (some executionRoot) (some workspaceRoot) entries)[place]? = some resolved ∧
        resolve (some executionRoot) (some workspaceRoot) [entry] = [resolved] ∧
        List.Forall₂ Settles entry.texts resolved.texts) ∧
    resolve (some executionRoot) (some workspaceRoot)
      (resolve (some executionRoot) (some workspaceRoot) entries) =
        resolve (some executionRoot) (some workspaceRoot) entries := by
  refine ⟨resolve_length .., ?_, ?_⟩
  · intro place entry found
    refine ⟨_, ?_, rfl, settles_fillEntry execution workspace entry⟩
    rw [resolve, List.getElem?_map, found]
    rfl
  · apply resolve_eq_self
    intro entry member
    exact bare_of_mem_resolve execution workspace member

/-- An entry in which two placeholders share their underscores, and in which what is filled in
stands between the halves of another placeholder. -/
def interleaved : Entry where
  command := "cc __BAZEL_EXECUTION_ROOT__BAZEL_WORKSPACE__ -c main.cc"
  directory := "__BAZEL___BAZEL_EXECUTION_ROOT__WORKSPACE__"
  file := "__BAZEL_WORKSPACE__/main.cc"

theorem resolve_settles_interleaved :
    IsPlain "/exec//" ∧ IsPlain "/" ∧
    resolve (some "/exec//") (some "/") [interleaved] =
      [⟨"cc /execBAZEL_WORKSPACE__ -c main.cc", "__BAZEL_/execWORKSPACE__", "//main.cc"⟩] ∧
    resolve (some "/exec//") (some "/") (resolve (some "/exec//") (some "/") [interleaved]) =
      resolve (some "/exec//") (some "/") [interleaved] := by
  have execution : IsPlain "/exec//" := ⟨by decide, by decide, by decide⟩
  have workspace : IsPlain "/" := ⟨by decide, by decide, by decide⟩
  obtain ⟨_, _, again⟩ := resolve_settles execution workspace [interleaved]
  exact ⟨execution, workspace, rfl, again⟩

end Placeholder

end CompileCommands
