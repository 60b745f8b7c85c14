import CompileCommands.Context
import CompileCommands.Proofs.Ensures
import CompileCommands.Proofs.Success

set_option autoImplicit false

/- Which members describe a context, and which context they describe. The directories and the defines
are lists that may be left out and lose their repetitions; everything else is refused as a mistake of
the description. -/
namespace CompileCommands

open Json (Value Members)

inductive Failure.IsDescription : Failure → Prop
  | intro (fault : DescriptionFault) : IsDescription (.description fault)

/-! Lists of strings. -/

theorem Json.Value.string?_eq_some_iff (value : Value) (text : String) :
    value.string? = some text ↔ value = .string text := by
  cases value <;> simp [string?]

theorem Json.mapM_string?_eq_some_iff (items : List Value) (texts : List String) :
    items.mapM Value.string? = some texts ↔ items = texts.map .string := by
  induction items generalizing texts with
  | nil => simp [eq_comm]
  | cons item rest ih =>
      rw [List.mapM_cons]
      simp only [Option.bind_eq_bind, Option.bind_eq_some_iff, Value.string?_eq_some_iff, ih,
        Option.pure_def, Option.some.injEq]
      constructor
      · rintro ⟨text, rfl, others, rfl, rfl⟩
        rfl
      · intro same
        obtain ⟨text, others, rfl, rfl, rfl⟩ := List.map_eq_cons_iff.mp same.symm
        exact ⟨text, rfl, others, rfl, rfl⟩

theorem Json.Value.strings?_eq_some_iff (value : Value) (texts : List String) :
    value.strings? = some texts ↔ value = .array (texts.map .string) := by
  cases value with
  | array items =>
      rw [strings?, mapM_string?_eq_some_iff, Value.array.injEq]
  | _ => simp [strings?]

namespace Fields

/-- Whether texts are listed under a name. None are if there is no such member. -/
def Lists (members : Members) (key : String) (texts : List String) : Prop :=
  match members.find? key with
  | none => texts = []
  | some found => found = .array (texts.map .string)

theorem ensures_lists (owner key : String) (members : Members) :
    Ensures Failure.IsDescription (Lists members key) (strings owner key members) := by
  unfold strings Lists
  cases members.find? key with
  | none => exact rfl
  | some found =>
      dsimp only
      cases read : found.strings? with
      | none => exact .intro _
      | some texts => exact (found.strings?_eq_some_iff texts).mp read

theorem Lists.strings_eq {members : Members} {key : String} {texts : List String}
    (listed : Lists members key texts) (owner : String) :
    strings owner key members = .ok texts := by
  unfold Lists at listed
  cases found : members.find? key with
  | none =>
      rw [found] at listed
      rw [strings_of_absent owner key members found, listed]
  | some value =>
      rw [found] at listed
      exact strings_of_strings owner key members texts (found.trans (congrArg some listed))

theorem Lists.unique {members : Members} {key : String} {texts others : List String}
    (listed : Lists members key texts) (again : Lists members key others) : texts = others := by
  have same := (listed.strings_eq "").symm.trans (again.strings_eq "")
  cases same
  rfl

end Fields

/-! Defines. -/

namespace Define

/-- Whether a value describes a define: a list does if it has one or two elements. -/
def Describable (value : Value) : Prop :=
  ∀ items, value = .array items → items.length = 1 ∨ items.length = 2

theorem exists_ofValue_pair (name value : Value) :
    ∃ define, ofValue (.array [name, value]) = .ok define := by
  cases value <;> exact ⟨_, rfl⟩

theorem exists_ofValue {value : Value} (good : Describable value) :
    ∃ define, ofValue value = .ok define := by
  cases value with
  | array items =>
      rcases good items rfl with one | two
      · obtain ⟨name, rfl⟩ := List.length_eq_one_iff.mp one
        exact ⟨_, rfl⟩
      · obtain ⟨name, value, rfl⟩ := List.length_eq_two.mp two
        exact exists_ofValue_pair name value
  | _ => exact ⟨_, rfl⟩

theorem describable_array {items : List Value} (size : items.length = 1 ∨ items.length = 2) :
    Describable (.array items) := by
  intro others same
  cases same
  exact size

theorem ensures_ofValue (value : Value) :
    Ensures Failure.IsDescription (fun _ => Describable value) (ofValue value) := by
  cases value with
  | array items =>
      match items with
      | [] => exact Failure.IsDescription.intro _
      | [name] => exact describable_array (.inl rfl)
      | [name, value] =>
          obtain ⟨define, read⟩ := exists_ofValue_pair name value
          rw [read]
          exact describable_array (.inr rfl)
      | first :: second :: third :: rest =>
          cases second <;> exact Failure.IsDescription.intro _
  | _ =>
      intro items same
      contradiction

end Define

/-! Contexts. -/

namespace Context

def directoryNames : List String :=
  ["includes", "quote_includes", "system_includes", "framework_includes"]

/-- Whether values are listed as defines. -/
def ListsDefines (members : Members) (items : List Value) : Prop :=
  match members.find? "defines" with
  | none => items = []
  | some found => found = .array items

/-- Whether members describe a context. -/
structure Describable (members : Members) : Prop where
  known : ∀ name ∈ Table.keys members, name ∈ fieldNames
  directories : ∀ key ∈ directoryNames, ∃ texts, Fields.Lists members key texts
  defines : ∃ items, ListsDefines members items ∧ ∀ item ∈ items, Define.Describable item

/-- Whether directories are those listed under a name, each where it is first listed. -/
def FirstListed (members : Members) (key : String) (directories : List String) : Prop :=
  ∃ texts, Fields.Lists members key texts ∧ directories = texts.eraseDups

/-- Whether a context is as members describe it. -/
structure AsDescribed (context : Context) (members : Members) : Prop where
  includes : FirstListed members "includes" context.includes
  quoteIncludes : FirstListed members "quote_includes" context.quoteIncludes
  systemIncludes : FirstListed members "system_includes" context.systemIncludes
  frameworkIncludes : FirstListed members "framework_includes" context.frameworkIncludes
  defines : ∃ items defines, ListsDefines members items ∧
    List.Forall₂ (fun item define => Define.ofValue item = .ok define) items defines ∧
      context.defines = defines.eraseDups

theorem ensures_directories (key : String) (members : Members) :
    Ensures Failure.IsDescription (FirstListed members key) (directories key members) := by
  unfold directories
  apply (Fields.ensures_lists "compilation_context" key members).bind
  intro texts listed
  exact ⟨texts, listed, orderedUnique_eq_eraseDups texts⟩

theorem exists_directories {members : Members} {key : String}
    (good : ∃ texts, Fields.Lists members key texts) :
    ∃ found, directories key members = .ok found := by
  obtain ⟨texts, listed⟩ := good
  exact ⟨orderedUnique texts, by rw [directories, listed.strings_eq]; rfl⟩

/-! Reading a context when only known members are there: its defines are taken out first. -/

def listedDefines (members : Members) : Except Failure (List Value) :=
  match members.find? "defines" with
  | none => .ok []
  | some (.array items) => .ok items
  | some found => .error (.description (.definesNotList found))

def ofDefines (members : Members) (items : List Value) : Except Failure Context := do
  let includes ← directories "includes" members
  let quoteIncludes ← directories "quote_includes" members
  let systemIncludes ← directories "system_includes" members
  let frameworkIncludes ← directories "framework_includes" members
  let defines ← items.mapM Define.ofValue
  return ⟨includes, quoteIncludes, systemIncludes, frameworkIncludes, orderedUnique defines⟩

theorem ofMembers_of_known {members : Members}
    (known : ∀ name ∈ Table.keys members, name ∈ fieldNames) :
    ofMembers members = listedDefines members >>= ofDefines members := by
  have others : (Table.keys members).filter (!fieldNames.contains ·) = [] := by
    simpa using known
  rw [ofMembers, others]
  unfold listedDefines
  cases members.find? "defines" with
  | none => rfl
  | some found => cases found <;> rfl

theorem ensures_listedDefines (members : Members) :
    Ensures Failure.IsDescription (ListsDefines members) (listedDefines members) := by
  unfold listedDefines ListsDefines
  cases members.find? "defines" with
  | none => exact rfl
  | some found =>
      cases found with
      | array items => exact rfl
      | _ => exact Failure.IsDescription.intro _

theorem ListsDefines.listedDefines_eq {members : Members} {items : List Value}
    (listed : ListsDefines members items) : listedDefines members = .ok items := by
  unfold ListsDefines at listed
  unfold listedDefines
  cases found : members.find? "defines" with
  | none =>
      rw [found] at listed
      rw [listed]
  | some value =>
      rw [found] at listed
      rw [listed]

theorem ensures_ofDefines {members : Members} {items : List Value}
    (listed : ListsDefines members items) :
    Ensures Failure.IsDescription
      (fun context => context.AsDescribed members ∧ ∀ item ∈ items, Define.Describable item)
      (ofDefines members items) := by
  unfold ofDefines
  apply (ensures_directories "includes" members).bind
  intro includes first
  apply (ensures_directories "quote_includes" members).bind
  intro quoteIncludes second
  apply (ensures_directories "system_includes" members).bind
  intro systemIncludes third
  apply (ensures_directories "framework_includes" members).bind
  intro frameworkIncludes fourth
  apply (ensures_mapM fun item _ => (Define.ensures_ofValue item).self).bind
  intro defines read
  have each := read.imp fun _ _ => And.right
  refine ⟨⟨first, second, third, fourth, items, defines, listed, each,
    orderedUnique_eq_eraseDups defines⟩, ?_⟩
  intro item member
  obtain ⟨_, _, good, _⟩ := exists_of_mem_forall₂ read.flip member
  exact good

theorem ensures_ofMembers (members : Members) :
    Ensures Failure.IsDescription
      (fun context => Describable members ∧ context.AsDescribed members) (ofMembers members) := by
  by_cases known : ∀ name ∈ Table.keys members, name ∈ fieldNames
  · rw [ofMembers_of_known known]
    apply (ensures_listedDefines members).bind
    intro items listed
    apply (ensures_ofDefines listed).mono (fun _ => id)
    rintro context ⟨described, good⟩
    refine ⟨⟨known, ?_, items, listed, good⟩, described⟩
    have each {key : String} {found : List String} (first : FirstListed members key found) :
        ∃ texts, Fields.Lists members key texts := by
      obtain ⟨texts, here, _⟩ := first
      exact ⟨texts, here⟩
    simp only [directoryNames, List.forall_mem_cons]
    exact ⟨each described.includes, each described.quoteIncludes, each described.systemIncludes,
      each described.frameworkIncludes, by simp⟩
  · have some : ((Table.keys members).filter (!fieldNames.contains ·)).isEmpty = false := by
      simpa using known
    rw [ofMembers, some]
    exact Failure.IsDescription.intro _

theorem Describable.exists_ofMembers {members : Members} (good : Describable members) :
    ∃ context, ofMembers members = .ok context := by
  obtain ⟨items, listed, described⟩ := good.defines
  obtain ⟨defines, read⟩ := exists_mapM_eq_ok Define.ofValue items fun item member =>
    Define.exists_ofValue (described item member)
  have each (key : String) (name : key ∈ directoryNames) := exists_directories (good.directories key name)
  obtain ⟨includes, first⟩ := each "includes" (by simp [directoryNames])
  obtain ⟨quoteIncludes, second⟩ := each "quote_includes" (by simp [directoryNames])
  obtain ⟨systemIncludes, third⟩ := each "system_includes" (by simp [directoryNames])
  obtain ⟨frameworkIncludes, fourth⟩ := each "framework_includes" (by simp [directoryNames])
  rw [ofMembers_of_known good.known, listed.listedDefines_eq]
  refine ⟨⟨includes, quoteIncludes, systemIncludes, frameworkIncludes, orderedUnique defines⟩, ?_⟩
  show ofDefines members items = _
  rw [ofDefines, first, second, third, fourth, read]
  rfl

end Context

end CompileCommands
