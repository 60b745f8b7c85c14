import CompileCommands.Proofs.Json.Limits
import CompileCommands.Proofs.Text.Utf8

set_option autoImplicit false

/- Strings that are texts are told from their code points. Surrogates come from escapes by number alone,
so that a text without a backslash spells trees in which all strings are texts. -/
namespace CompileCommands.Json

theorem pointsText_pointsOf (text : String) : pointsText (pointsOf text) = text := by
  rw [pointsOf, pointsText_map_toNat, String.ofList_toList]

theorem pointChar_eq_iff {c : Char} (plain : IsPrintableAscii c) (point : Nat) :
    pointChar point = c ↔ point = c.toNat := by
  constructor
  · rintro rfl
    unfold pointChar at plain ⊢
    split at plain
    · exact absurd plain (by decide)
    · next scalar =>
      rw [if_neg scalar]
      by_cases valid : point.isValidChar
      · exact (Text.Utf8.toNat_ofNat_of_valid valid).symm
      · rw [Char.ofNat, dif_neg valid] at plain
        exact absurd plain (by decide)
  · rintro rfl
    exact pointChar_toNat c

/-- The replacement character stands in no text of printable ASCII. -/
theorem pointsText_eq_iff {text : String} (plain : ∀ c ∈ text.toList, IsPrintableAscii c)
    (points : List Nat) : pointsText points = text ↔ points = pointsOf text := by
  constructor
  · rintro rfl
    rw [pointsText, String.toList_ofList, List.forall_mem_map] at plain
    rw [pointsOf, pointsText, String.toList_ofList, List.map_map]
    refine (List.map_id points).symm.trans (List.map_congr_left fun point listed => ?_)
    exact (pointChar_eq_iff (plain point listed) point).mp rfl
  · rintro rfl
    exact pointsText_pointsOf text

theorem joinPairs_map_toNat (text : List Char) :
    joinPairs (text.map Char.toNat) = text.map Char.toNat := by
  induction text with
  | nil => rfl
  | cons c rest ih => rw [List.map_cons, joinPairs_toNat_cons, ih]

theorem isText_of_codeUnits {opened text rest : List Char} {units : List Nat}
    (read : codeUnits opened text = .ok (units, rest)) (plain : '\\' ∉ text) : IsText units := by
  fun_induction codeUnits opened text generalizing units with
  | case2 =>
      cases read
      exact ⟨"", rfl⟩
  | case10 c later _ _ _ ih =>
      obtain ⟨more, behind, rfl⟩ := (pushUnit_eq_ok_iff ..).mp read
      obtain ⟨text, rfl⟩ := ih behind fun listed => plain (.tail c listed)
      refine ⟨String.ofList (c :: text.toList), ?_⟩
      rw [pointsOf, String.toList_ofList, List.map_cons]
      rfl
  | case4 | case7 => exact absurd (List.mem_cons_self ..) plain
  | _ => contradiction

theorem isText_joinPairs_of_codeUnits {quoted rest : List Char} {units : List Nat}
    (read : codeUnits quoted quoted = .ok (units, rest)) (plain : '\\' ∉ quoted) :
    IsText (joinPairs units) := by
  obtain ⟨text, rfl⟩ := isText_of_codeUnits read plain
  exact ⟨text, (joinPairs_map_toNat text.toList).symm⟩

theorem Spells.suffix {text rest : List Char} {tree : Tree} (spelled : Spells text tree rest) :
    rest <:+ text := by
  have read := spelled.scans (Nat.le_refl tree.depth)
  have reads := readsValue text tree.depth
  rw [Scans] at read
  rw [read] at reads
  exact reads

theorem suffix_of_codeUnits {quoted rest : List Char} {units : List Nat}
    (read : codeUnits quoted quoted = .ok (units, rest)) : rest <:+ quoted := by
  have reads := readsFrom_codeUnits 0 quoted quoted
  rw [read] at reads
  exact reads

/-- What is not in a text is not behind a character that follows a part of it either. -/
theorem not_mem_skipSpace {c d : Char} {text after next : List Char} (absent : c ∉ text)
    (suffix : after <:+ text) (found : skipSpace after = d :: next) : c ∉ skipSpace next :=
  fun listed => absent ((suffix_behind suffix found).subset listed)

mutual

theorem Spells.isWhole {text rest : List Char} {tree : Tree} :
    Spells text tree rest → '\\' ∉ text → tree.IsWhole
  | .scalar _ _, _ => trivial
  | .string read, plain =>
      isText_joinPairs_of_codeUnits read fun listed => plain (.tail _ listed)
  | .emptyArray _, _ => trivial
  | .array filled, plain =>
      filled.areWhole fun listed => plain (.tail _ ((skipSpace_suffix _).subset listed))
  | .emptyObject _, _ => trivial
  | .object filled, plain =>
      filled.areWhole fun listed => plain (.tail _ ((skipSpace_suffix _).subset listed))

theorem SpellsItems.areWhole {text rest : List Char} {items : List Tree} :
    SpellsItems text items rest → '\\' ∉ text → Tree.AreWhole items
  | .last first _, plain => ⟨first.isWhole plain, trivial⟩
  | .more first comma others, plain =>
      ⟨first.isWhole plain, others.areWhole (not_mem_skipSpace plain first.suffix comma)⟩

theorem SpellsMembers.areWhole {text rest : List Char} {members : List (List Nat × Tree)} :
    SpellsMembers text members rest → '\\' ∉ text → Tree.MembersAreWhole members
  | .last named colon first _, plain => by
      have inside := fun listed => plain (.tail _ listed)
      have name := suffix_of_codeUnits named
      exact ⟨isText_joinPairs_of_codeUnits named inside,
        first.isWhole (not_mem_skipSpace inside name colon), trivial⟩
  | .more named colon first comma others, plain => by
      have inside := fun listed => plain (.tail _ listed)
      have name := suffix_of_codeUnits named
      have value := not_mem_skipSpace inside name colon
      have later := not_mem_skipSpace value first.suffix comma
      exact ⟨isText_joinPairs_of_codeUnits named inside, first.isWhole value,
        others.areWhole later⟩

end

theorem IsDocument.isWhole {text : List Char} {tree : Tree} (document : IsDocument text tree)
    (plain : '\\' ∉ text) : tree.IsWhole := by
  obtain ⟨_, rest, spelled, _⟩ := document
  exact spelled.isWhole fun listed => plain ((skipSpace_suffix text).subset listed)

end CompileCommands.Json
