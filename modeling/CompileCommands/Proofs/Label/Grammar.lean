import CompileCommands.Failure
import CompileCommands.Proofs.Text.Cut

set_option autoImplicit false

/- The grammar of labels. A label is spelled by any number of signs, its workspace, two slashes, and
its package and name; the package and the name have a colon between them, or the name is the last
component of the package and left out. Exactly the texts that spell a label are read as one. -/
namespace CompileCommands.Label

open Text (cut occurs strip IsAfterLast)

/-- Whether two slashes behind a workspace, and signs before it, are told apart from it. -/
structure IsWorkspace (workspace : List Char) : Prop where
  sign : ¬ ['@'] <+: workspace
  slashes : ¬ ['/', '/'] <:+: workspace
  slash : ¬ ['/'] <:+ workspace

/-- The texts that spell a package and a name. -/
inductive SpellsParts : List Char → List Char → List Char → Prop where
  | apart {package name : List Char} (plain : ':' ∉ package) (named : name ≠ []) :
      SpellsParts (package ++ ':' :: name) package name
  | short {package name : List Char} (plain : ':' ∉ package)
      (last : IsAfterLast '/' name package) (named : name ≠ []) : SpellsParts package package name

/-- Whether a text spells a label. Without a sign it is one of the main workspace. -/
def Spells (text : List Char) (label : Label) : Prop :=
  ∃ (signs : Nat) (body : List Char),
    text = List.replicate signs '@' ++ (label.workspace.toList ++ '/' :: '/' :: body) ∧
      (signs = 0 → label.workspace.toList = []) ∧ IsWorkspace label.workspace.toList ∧
        SpellsParts body label.package.toList label.name.toList

theorem isWorkspace_iff (workspace : List Char) :
    IsWorkspace workspace ↔
      '@' ∉ workspace.head? ∧ occurs ['/', '/'] (workspace ++ ['/']) = false := by
  have first : '@' ∈ workspace.head? ↔ ['@'] <+: workspace := by
    cases workspace with
    | nil => simp
    | cons c rest => simp [eq_comm]
  have last : ['/', '/'] <:+ workspace ++ ['/'] ↔ ['/'] <:+ workspace := by
    constructor
    · rintro ⟨before, parts⟩
      have doubled : before ++ ['/'] ++ ['/'] = workspace ++ ['/'] := by
        rw [List.append_assoc]
        exact parts
      exact ⟨before, List.append_cancel_right doubled⟩
    · rintro ⟨before, rfl⟩
      exact ⟨before, by simp⟩
  rw [Bool.eq_false_iff, ne_eq, Text.occurs_iff_isInfix, List.infix_concat_iff, last, first, not_or]
  constructor
  · rintro ⟨sign, slashes, slash⟩
    exact ⟨sign, slash, slashes⟩
  · rintro ⟨sign, slash, slashes⟩
    exact ⟨sign, slashes, slash⟩

theorem ofBody_eq_ok_iff (workspace body : List Char) (label : Label) :
    ofBody workspace body = .ok label ↔
      label.workspace.toList = workspace ∧
        SpellsParts body label.package.toList label.name.toList := by
  constructor
  · intro read
    rw [ofBody] at read
    cases found : cut [':'] body with
    | none =>
        have plain := (Text.cut_singleton_eq_none_iff ':' body).mp found
        rw [found, Option.getD_none] at read
        split at read
        · contradiction
        · next named =>
          cases read
          simp only [String.toList_ofList, true_and]
          exact .short plain ((Text.isAfterLast_iff ..).mpr rfl) (by simpa using named)
    | some parts =>
        obtain ⟨package, name⟩ := parts
        obtain ⟨rfl, plain⟩ := (Text.cut_singleton_eq_some_iff ..).mp found
        rw [found, Option.getD_some] at read
        split at read
        · contradiction
        · next named =>
          cases read
          simp only [String.toList_ofList, true_and]
          exact .apart plain (by simpa using named)
  · rintro ⟨rfl, spelled⟩
    cases spelled with
    | apart plain named =>
        rw [ofBody, (Text.cut_singleton_eq_some_iff ..).mpr ⟨rfl, plain⟩, Option.getD_some,
          if_neg (by simpa using named)]
        simp only [String.ofList_toList]
    | short plain last named =>
        rw [ofBody, (Text.cut_singleton_eq_none_iff ..).mpr plain, Option.getD_none,
          ← (Text.isAfterLast_iff ..).mp last, if_neg (by simpa using named)]
        simp only [String.ofList_toList]

theorem cut_slashes_iff (text workspace body : List Char) :
    cut ['/', '/'] text = some (workspace, body) ↔
      text = workspace ++ '/' :: '/' :: body ∧ occurs ['/', '/'] (workspace ++ ['/']) = false := by
  rw [Text.cut_eq_some_iff (List.cons_ne_nil '/' ['/']), List.append_assoc]
  rfl

/-- The signs before a workspace are dropped, and no others. -/
theorem dropWhile_signs {workspace : List Char} (good : IsWorkspace workspace) (signs : Nat)
    (body : List Char) :
    (List.replicate signs '@' ++ (workspace ++ '/' :: '/' :: body)).dropWhile (· == '@') =
      workspace ++ '/' :: '/' :: body := by
  rw [List.dropWhile_append_of_pos (by simp)]
  cases workspace with
  | nil => rfl
  | cons c rest =>
      have sign : c ≠ '@' := by
        rintro rfl
        exact good.sign (List.prefix_append ['@'] rest)
      rw [List.cons_append, List.dropWhile_cons_of_neg (by simpa using sign)]

/-- What stands behind the signs is cut at the end of a workspace. -/
theorem isWorkspace_of_cut {text workspace body : List Char}
    (found : cut ['/', '/'] (text.dropWhile (· == '@')) = some (workspace, body)) :
    IsWorkspace workspace ∧
      ∃ signs, text = List.replicate signs '@' ++ (workspace ++ '/' :: '/' :: body) := by
  obtain ⟨left, slashes⟩ := (cut_slashes_iff ..).mp found
  constructor
  · refine (isWorkspace_iff workspace).mpr ⟨?_, slashes⟩
    intro first
    have kept := List.head?_dropWhile_not (· == '@') text
    rw [left, List.head?_append, Option.mem_def.mp first] at kept
    contradiction
  · have signs : text.takeWhile (· == '@') =
        List.replicate (text.takeWhile (· == '@')).length '@' := by
      refine List.eq_replicate_iff.mpr ⟨rfl, fun c member => ?_⟩
      simpa using List.all_eq_true.mp List.all_takeWhile c member
    refine ⟨(text.takeWhile (· == '@')).length, ?_⟩
    rw [← signs, ← left, List.takeWhile_append_dropWhile]

theorem spells_of_ofChars {text : List Char} {label : Label} (read : ofChars text = .ok label) :
    Spells text label := by
  unfold ofChars at read
  split at read
  · next rest =>
    split at read
    · contradiction
    · next workspace body found =>
      obtain ⟨rfl, parts⟩ := (ofBody_eq_ok_iff ..).mp read
      obtain ⟨good, signs, rfl⟩ := isWorkspace_of_cut found
      exact ⟨signs + 1, body, rfl, by simp, good, parts⟩
  · next body =>
    obtain ⟨main, parts⟩ := (ofBody_eq_ok_iff ..).mp read
    have good : IsWorkspace label.workspace.toList := by
      rw [main, isWorkspace_iff]
      exact ⟨by simp, rfl⟩
    exact ⟨0, body, by rw [main]; rfl, fun _ => main, good, parts⟩
  · contradiction

theorem Spells.ofChars_eq {text : List Char} {label : Label} (spelled : Spells text label) :
    ofChars text = .ok label := by
  obtain ⟨signs, body, rfl, main, good, parts⟩ := spelled
  have read : ofBody label.workspace.toList body = .ok label :=
    (ofBody_eq_ok_iff ..).mpr ⟨rfl, parts⟩
  cases signs with
  | zero =>
      rw [main rfl] at read ⊢
      exact read
  | succ signs =>
      have slashes := ((isWorkspace_iff _).mp good).2
      rw [List.replicate_succ, List.cons_append, ofChars, dropWhile_signs good,
        (cut_slashes_iff _ _ body).mpr ⟨rfl, slashes⟩]
      exact read

theorem parse_eq_ok_iff (text : String) (label : Label) :
    parse text = .ok label ↔ Spells (strip text.toList) label :=
  ⟨spells_of_ofChars, Spells.ofChars_eq⟩

theorem canonicalize_of_parse {text : String} {label : Label} (read : parse text = .ok label) :
    canonicalize text = .ok label.text := by
  rw [canonicalize, canonical, read]
  rfl

theorem canonicalize_of_parse_error {text : String} {fault : Fault}
    (refused : parse text = .error fault) :
    canonicalize text = .error (.description (.label text fault)) := by
  rw [canonicalize, canonical, refused]
  rfl

/-- A text is read as a label if it spells that label between the blanks around it. All other texts
are refused with a fault, which is told together with the text. -/
theorem parse_follows_grammar (text : String) :
    (∀ label, parse text = .ok label ↔ Spells (strip text.toList) label) ∧
      ((¬ ∃ label, Spells (strip text.toList) label) ↔
        ∃ fault, parse text = .error fault ∧
          canonicalize text = .error (.description (.label text fault))) := by
  refine ⟨parse_eq_ok_iff text, ?_⟩
  simp only [← parse_eq_ok_iff]
  cases read : parse text with
  | error fault => simp [canonicalize_of_parse_error read]
  | ok label => simp

end CompileCommands.Label
