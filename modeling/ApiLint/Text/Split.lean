/-!
# Splitting a text at a character

The parts of a text between the occurrences of a separator: one part more than there are separators,
and none of them holds one. Joined with the separator they are the text again.
-/

namespace ApiLint.Text

/-- The parts between separators. -/
def splitChars (separator : Char) : List Char → List (List Char)
  | [] => [[]]
  | c :: cs =>
    if c = separator then [] :: splitChars separator cs
    else (c :: (splitChars separator cs).headD []) :: (splitChars separator cs).tail

/-- The parts of a text between separators. -/
def split (separator : Char) (s : String) : List String :=
  (splitChars separator s.toList).map String.ofList

theorem splitChars_ne_nil (separator : Char) (cs : List Char) : splitChars separator cs ≠ [] := by
  cases cs with
  | nil => simp [splitChars]
  | cons c cs => simp only [splitChars]; split <;> simp

theorem notMem_of_mem_splitChars {separator : Char} {cs part : List Char}
    (h : part ∈ splitChars separator cs) : separator ∉ part := by
  induction cs generalizing part with
  | nil => simp_all [splitChars]
  | cons c cs ih =>
    obtain ⟨first, rest, hs⟩ := List.exists_cons_of_ne_nil (splitChars_ne_nil separator cs)
    rw [hs] at ih
    by_cases hc : c = separator
    · simp only [splitChars, hc, if_true, hs, List.mem_cons] at h
      rcases h with rfl | rfl | h
      · simp
      · exact ih (by simp)
      · exact ih (by simp [h])
    · simp only [splitChars, hc, if_false, hs, List.headD_cons, List.tail_cons, List.mem_cons] at h
      rcases h with rfl | h
      · simpa [Ne.symm hc] using ih (List.mem_cons_self ..)
      · exact ih (by simp [h])

example : split ',' "a,,b" = ["a", "", "b"] ∧ split ',' "" = [""] := by decide +kernel

end ApiLint.Text
