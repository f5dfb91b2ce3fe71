import Mathlib.Data.List.Basic

/-! # Words that each end in a mark, one after the other -/

namespace OpenALRenderer.Foundation

variable {χ : Type*} {mark : χ}

/-- Each word is followed by the mark, and the last one by one more. -/
def terminated (mark : χ) (words : List (List χ)) : List χ :=
  words.flatMap (· ++ [mark]) ++ [mark]

theorem terminated_cons (word : List χ) (words : List (List χ)) :
    terminated mark (word :: words) = word ++ mark :: terminated mark words := by
  simp [terminated]

variable [DecidableEq χ]

/-- The first mark ends the first word. -/
theorem idxOf?_append_mark {word : List χ} (h : mark ∉ word) (rest : List χ) :
    (word ++ mark :: rest).idxOf? mark = some word.length := by
  induction word with
  | nil => simp [List.idxOf?_cons]
  | cons c word ih =>
      rw [List.mem_cons, not_or] at h
      have hc : (c == mark) = false := by simpa using Ne.symm h.1
      simp [List.idxOf?_cons, hc, ih h.2]

end OpenALRenderer.Foundation
