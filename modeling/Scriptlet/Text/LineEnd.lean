/-!
# Scriptlet — line ends

A file may end its lines by line feed, by carriage return, or by both in this
order; reading a file turns each of the three into one line feed. The prompt's
input ends lines by line feed alone.

## Results

* `normalizeLineEnds` — every line end as one line feed.
* `splitLines`        — the lines of the prompt's input.
* `not_mem_normalizeLineEnds` — no carriage return is left.
* `normalizeLineEnds_eq_self` — a text without carriage returns is left as it is.
-/

namespace Scriptlet.Text

/-- A text with every line end as one line feed. -/
def normalizeLineEnds : List Char → List Char
  | [] => []
  | '\r' :: '\n' :: rest => '\n' :: normalizeLineEnds rest
  | c :: rest => (if c = '\r' then '\n' else c) :: normalizeLineEnds rest

/-- The lines of a text, each ended by a line feed; the last may lack it. -/
def splitLines : List Char → List (List Char)
  | [] => []
  | c :: rest =>
    (c :: rest).takeWhile (· != '\n') :: splitLines (((c :: rest).dropWhile (· != '\n')).drop 1)
termination_by cs => cs.length
decreasing_by
  have := (List.dropWhile_sublist (l := c :: rest) (· != '\n')).length_le
  simp only [List.length_drop, List.length_cons] at this ⊢
  omega

/-- No carriage return is left. -/
theorem not_mem_normalizeLineEnds (cs : List Char) : '\r' ∉ normalizeLineEnds cs := by
  fun_induction normalizeLineEnds cs with
  | case1 => simp
  | case2 rest ih => simp [ih]
  | case3 c rest hne ih =>
    simp only [List.mem_cons, not_or]
    refine ⟨?_, ih⟩
    split
    · decide
    · next hc => exact fun h => hc h.symm

/-- A text without carriage returns is left as it is. -/
theorem normalizeLineEnds_eq_self {cs : List Char} (h : '\r' ∉ cs) :
    normalizeLineEnds cs = cs := by
  fun_induction normalizeLineEnds cs with
  | case1 => rfl
  | case2 rest ih => simp at h
  | case3 c rest hne ih =>
    simp only [List.mem_cons, not_or] at h
    rw [ih h.2, if_neg (fun hc => h.1 hc.symm)]

end Scriptlet.Text
