import Scriptlet.Proofs.Text.Utf8
import Scriptlet.Session.Basic

/-!
# Scriptlet — sources in files

A file is read as a whole or not at all. If its bytes are the encoding of a text,
it runs as that text with its line ends translated; any other bytes are refused
and leave the session as it was. How a file spells its line ends makes no
difference to anything that follows.

## Results

* `joinPairs`               — the first of the two steps that translate line ends.
* `normalizeLineEnds_eq`    — both steps.
* `Spells`                  — the texts of a program, by the spelling of its line ends.
* `normalizeLineEnds_iff`   — these are the texts that are read as the program.
* `decodeSource?_utf8Encode`, `decodeSource?_of_not_wellFormed` — what bytes decode to.
* `runFile_exact`           — running a file.
-/

namespace Scriptlet

open Scriptlet.Text

-- ---------------------------------------------------------------------------
-- Line ends
-- ---------------------------------------------------------------------------

namespace Text

/-- A text with every pair of a carriage return and a line feed as one line feed. -/
def joinPairs : List Char → List Char
  | [] => []
  | '\r' :: '\n' :: rest => '\n' :: joinPairs rest
  | c :: rest => c :: joinPairs rest

/-- Line ends are translated pairs first, and then the carriage returns that are left. -/
theorem normalizeLineEnds_eq (text : List Char) :
    normalizeLineEnds text = (joinPairs text).map fun c => if c = '\r' then '\n' else c := by
  fun_induction normalizeLineEnds text with
  | case1 => rfl
  | case2 rest ih =>
    rw [ih, joinPairs, List.map_cons, if_neg (by decide)]
  | case3 c rest hPair ih =>
    rw [ih, joinPairs, List.map_cons]
    exact hPair

/--
A program and a text of it. Every line of the text ends in a line feed, in a
carriage return and a line feed, or in a carriage return that no line feed follows.
-/
inductive Spells : List Char → List Char → Prop where
  | nil : Spells [] []
  | char {c : Char} {program text : List Char} (hLine : c ≠ '\n') (hReturn : c ≠ '\r')
      (h : Spells program text) : Spells (c :: program) (c :: text)
  | lineFeed {program text : List Char} (h : Spells program text) :
      Spells ('\n' :: program) ('\n' :: text)
  | pair {program text : List Char} (h : Spells program text) :
      Spells ('\n' :: program) ('\r' :: '\n' :: text)
  | carriageReturn {program text : List Char} (h : Spells program text)
      (hNext : text.head? ≠ some '\n') : Spells ('\n' :: program) ('\r' :: text)

theorem spells_normalizeLineEnds (text : List Char) : Spells (normalizeLineEnds text) text := by
  fun_induction normalizeLineEnds text with
  | case1 => exact .nil
  | case2 rest ih => exact .pair ih
  | case3 c rest hPair ih =>
    by_cases hReturn : c = '\r'
    · rw [if_pos hReturn, hReturn]
      refine .carriageReturn ih fun hNext => ?_
      obtain ⟨more, hRest⟩ := List.head?_eq_some_iff.mp hNext
      exact hPair more hReturn hRest
    · rw [if_neg hReturn]
      by_cases hLine : c = '\n'
      · rw [hLine]
        exact .lineFeed ih
      · exact .char hLine hReturn ih

/-- The texts that are read as a program are those that spell it. -/
theorem normalizeLineEnds_iff {program text : List Char} :
    normalizeLineEnds text = program ↔ Spells program text := by
  constructor
  · rintro rfl
    exact spells_normalizeLineEnds text
  · intro h
    induction h with
    | nil => rfl
    | @char c program text hLine hReturn h ih =>
      rw [normalizeLineEnds, if_neg hReturn, ih]
      exact fun _ hPair => absurd hPair hReturn
    | lineFeed h ih =>
      rw [normalizeLineEnds, if_neg (by decide), ih]
      exact fun _ hPair => absurd hPair (by decide)
    | pair h ih => rw [normalizeLineEnds, ih]
    | carriageReturn h hNext ih =>
      rw [normalizeLineEnds, if_pos rfl, ih]
      rintro more - rfl
      exact hNext rfl

/-- A program with the same end for all its lines. -/
def spelled (lineEnd program : List Char) : List Char :=
  program.flatMap fun c => if c = '\n' then lineEnd else [c]

/-- One spelling for all line ends of a program without carriage returns. -/
theorem spells_spelled {lineEnd program : List Char}
    (hEnd : lineEnd ∈ [['\n'], ['\r', '\n'], ['\r']]) (hProgram : '\r' ∉ program) :
    Spells program (spelled lineEnd program) := by
  induction program with
  | nil => exact .nil
  | cons c program ih =>
    obtain ⟨hReturn, hRest⟩ := List.ne_and_not_mem_of_not_mem_cons hProgram
    have hTail := ih hRest
    unfold spelled at hTail ⊢
    rw [List.flatMap_cons]
    by_cases hLine : c = '\n'
    · rw [if_pos hLine, hLine]
      simp only [List.mem_cons, List.not_mem_nil, or_false] at hEnd
      rcases hEnd with rfl | rfl | rfl
      · exact .lineFeed hTail
      · exact .pair hTail
      · refine .carriageReturn hTail ?_
        -- what follows starts with another carriage return or with no line end at all
        cases program with
        | nil => decide
        | cons d more =>
          rw [List.flatMap_cons]
          by_cases hNext : d = '\n'
          · rw [if_pos hNext]
            exact fun h => absurd (Option.some.inj h) (by decide)
          · rw [if_neg hNext]
            simpa using hNext
    · rw [if_neg hLine]
      exact .char hLine (Ne.symm hReturn) hTail

end Text

-- ---------------------------------------------------------------------------
-- Files
-- ---------------------------------------------------------------------------

theorem decodeSource?_utf8Encode (text : List Char) :
    decodeSource? text.utf8Encode = some (String.ofList (normalizeLineEnds text)) := by
  have hValid : text.utf8Encode.IsValidUTF8 := ⟨text, rfl⟩
  have hText : String.fromUTF8 text.utf8Encode hValid = String.ofList text := rfl
  unfold decodeSource? String.fromUTF8?
  rw [dif_pos hValid, hText, Option.map_some, String.toList_ofList]

theorem decodeSource?_eq_none_iff {bytes : ByteArray} :
    decodeSource? bytes = none ↔ ¬bytes.IsValidUTF8 := by
  unfold decodeSource? String.fromUTF8?
  split
  · next h => simp [h]
  · next h => simp [h]

theorem decodeSource?_of_not_wellFormed {bytes : ByteArray}
    (h : ¬Utf8.WellFormed bytes.data.toList) : decodeSource? bytes = none := by
  refine decodeSource?_eq_none_iff.mpr ?_
  rintro ⟨text, hBytes⟩
  exact h (Utf8.exists_utf8Encode_iff.mp ⟨text, hBytes⟩)

/-- What is read from a file that has a path of its own. -/
theorem readSource_of_file {folder : Folder} {path : String} {bytes : ByteArray}
    (hFile : folder path = some bytes) (hPrompt : path ≠ promptName)
    (hNull : '\x00' ∉ path.toList) :
    readSource folder path =
      match decodeSource? bytes with
      | none => .error (.failure ("'" ++ path ++ "' could not be opened") false)
      | some source => .ok source := by
  unfold readSource
  rw [if_neg hPrompt, if_neg (by simpa using hNull), hFile]
  rfl

namespace Session

/--
Reading a file is exact, and all or nothing. The file of a text runs as that text
does with its line ends translated, pairs first; a byte-order mark is a character
like others. Bytes that are no well-formed UTF-8 are a failure that changes
nothing. However the line ends of a program are spelled, each in its own way or
all alike, it runs as the program. No path of a file holds the null character.
-/
theorem runFile_exact {folder : Folder} {path : String} {bytes : ByteArray}
    (hFile : folder path = some bytes) (hPrompt : path ≠ promptName)
    (hNull : '\x00' ∉ path.toList) (rounds : Nat) (s : Session) :
    (∀ text : List Char, bytes = text.utf8Encode →
      s.runFile rounds folder path = s.run rounds
        (String.ofList ((joinPairs text).map fun c => if c = '\r' then '\n' else c))) ∧
      ((¬∃ text : List Char, bytes = text.utf8Encode) ↔ ¬Utf8.WellFormed bytes.data.toList) ∧
      (¬Utf8.WellFormed bytes.data.toList → s.runFile rounds folder path =
        (.error (.failure ("'" ++ path ++ "' could not be opened") false), s)) ∧
      (∀ program text : List Char, Spells program text → bytes = text.utf8Encode →
        s.runFile rounds folder path = s.run rounds (String.ofList program)) ∧
      ∀ program lineEnd : List Char, '\r' ∉ program →
        lineEnd ∈ [['\n'], ['\r', '\n'], ['\r']] →
          bytes = (spelled lineEnd program).utf8Encode →
            s.runFile rounds folder path = s.run rounds (String.ofList program) := by
  have hRead := readSource_of_file hFile hPrompt hNull
  have hText : ∀ text : List Char, bytes = text.utf8Encode →
      s.runFile rounds folder path = s.run rounds (String.ofList (normalizeLineEnds text)) := by
    intro text hBytes
    rw [hBytes, decodeSource?_utf8Encode] at hRead
    unfold runFile
    rw [hRead]
  have hSpelled : ∀ program text : List Char, Spells program text → bytes = text.utf8Encode →
      s.runFile rounds folder path = s.run rounds (String.ofList program) := by
    intro program text hSpells hBytes
    rw [hText text hBytes, normalizeLineEnds_iff.mpr hSpells]
  refine ⟨?_, not_congr Utf8.exists_utf8Encode_iff, ?_, hSpelled, ?_⟩
  · intro text hBytes
    rw [hText text hBytes, normalizeLineEnds_eq]
  · intro hMalformed
    rw [decodeSource?_of_not_wellFormed hMalformed] at hRead
    exact runFile_of_error hRead
  · intro program lineEnd hProgram hEnd hBytes
    exact hSpelled program _ (spells_spelled hEnd hProgram) hBytes

/-- A pair inside a string and a lone carriage return behind it; and a byte that starts nothing. -/
theorem runFile_exact_mixed :
    let program := "print \"a\nb\";\nc;"
    let text := "print \"a\r\nb\";\rc;"
    let folder : Folder := fun path =>
      some (if path = "good" then text.toList.utf8Encode else [0x61, 0x80].toByteArray)
    let s : Session := {}
    s.runFile 0 folder "good" = s.run 0 program ∧
      (s.runFile 0 folder "good").2.machine.printed = #["a\nb"] ∧
      s.runFile 0 folder "bad" = (.error (.failure "'bad' could not be opened" false), s) := by
  intro program text folder s
  obtain ⟨-, -, -, hSpelled, -⟩ :=
    runFile_exact (rfl : folder "good" = some text.toList.utf8Encode) (by decide) (by decide) 0 s
  have hSpells : Spells program.toList text.toList :=
    normalizeLineEnds_iff.mp (by decide +kernel)
  have hGood := hSpelled program.toList text.toList hSpells rfl
  rw [String.ofList_toList] at hGood
  obtain ⟨-, hMalformed, hBad, -⟩ :=
    runFile_exact (rfl : folder "bad" = some [0x61, 0x80].toByteArray) (by decide) (by decide) 0 s
  refine ⟨hGood, ?_, hBad (hMalformed.mp ?_)⟩
  · rw [hGood]
    decide +kernel
  · rintro ⟨other, hBytes⟩
    have hInvalid : ¬[0x61, 0x80].toByteArray.IsValidUTF8 := by decide +kernel
    exact hInvalid ⟨other, hBytes⟩

end Session

end Scriptlet
