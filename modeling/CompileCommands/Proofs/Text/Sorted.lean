import CompileCommands.Text.Sorted
import Mathlib.Data.List.Sort
import Mathlib.Data.String.Basic

set_option autoImplicit false

/- Texts in order are told by what texts there are. -/
namespace CompileCommands.Text

theorem pairwise_sorted (texts : List String) :
    (sorted texts).Pairwise fun first second => first ≤ second := by
  have atMost (first second : String) : (!decide (second < first)) = true ↔ first ≤ second := by
    rw [Bool.not_eq_true', decide_eq_false_iff_not, not_lt]
  have ordered : (sorted texts).Pairwise fun first second => !decide (second < first) := by
    apply List.pairwise_mergeSort
    · intro first second third
      simpa only [atMost] using le_trans
    · intro first second
      simpa only [Bool.or_eq_true, atMost] using le_total first second
  exact ordered.imp fun {first second} => (atMost first second).mp

theorem sorted_eq_of_perm {texts others : List String} (same : texts.Perm others) :
    sorted texts = sorted others := by
  have both := (sorted_perm texts).trans (same.trans (sorted_perm others).symm)
  exact both.eq_of_pairwise' (pairwise_sorted texts) (pairwise_sorted others)

theorem sorted_eq_iff {texts others : List String} (distinct : texts.Nodup)
    (othersDistinct : others.Nodup) :
    sorted texts = sorted others ↔ ∀ text, text ∈ texts ↔ text ∈ others := by
  constructor
  · intro same text
    rw [← mem_sorted texts, same, mem_sorted]
  · intro same
    exact sorted_eq_of_perm ((List.perm_ext_iff_of_nodup distinct othersDistinct).mpr same)

end CompileCommands.Text
