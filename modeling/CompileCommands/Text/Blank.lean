set_option autoImplicit false

/- Blanks are the characters that separate words: the horizontal and vertical spaces of Unicode
together with the four information separators. A text can be stripped of the blanks at its two
ends, or cut into its words. -/
namespace CompileCommands.Text

/-- The code points of the blanks, as closed ranges. -/
def blankRanges : List (Nat × Nat) :=
  [(0x09, 0x0D), (0x1C, 0x20), (0x85, 0x85), (0xA0, 0xA0), (0x1680, 0x1680), (0x2000, 0x200A),
    (0x2028, 0x2029), (0x202F, 0x202F), (0x205F, 0x205F), (0x3000, 0x3000)]

def isBlank (c : Char) : Bool :=
  blankRanges.any fun range => range.1 ≤ c.toNat && c.toNat ≤ range.2

/-- A text without the blanks at its two ends. -/
def strip (text : List Char) : List Char :=
  ((text.dropWhile isBlank).reverse.dropWhile isBlank).reverse

/-- The words of a text, when `word` has been read already and may still grow. -/
def wordsFrom (word : List Char) : List Char → List (List Char)
  | [] => if word.isEmpty then [] else [word]
  | c :: rest =>
      if isBlank c then
        if word.isEmpty then wordsFrom [] rest else word :: wordsFrom [] rest
      else wordsFrom (word ++ [c]) rest

/-- The longest runs of characters that are not blank, from left to right. -/
def words (text : List Char) : List (List Char) := wordsFrom [] text

@[simp] theorem strip_nil : strip [] = [] := rfl

@[simp] theorem words_nil : words [] = [] := rfl

end CompileCommands.Text
