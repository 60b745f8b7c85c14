set_option autoImplicit false

/- Texts in order: by code point, the shorter of two first when one begins the other. -/
namespace CompileCommands.Text

def sorted (texts : List String) : List String :=
  texts.mergeSort fun first second => !(second < first)

def joined (separator : String) (texts : List String) : String := separator.intercalate texts

theorem sorted_perm (texts : List String) : (sorted texts).Perm texts :=
  List.mergeSort_perm texts _

@[simp] theorem mem_sorted (texts : List String) (text : String) :
    text ∈ sorted texts ↔ text ∈ texts :=
  (sorted_perm texts).mem_iff

end CompileCommands.Text
