import LineScript.Text.Blank

/-!
# Lines and words

* `lines`         the lines of a text: what lies between its line feeds;
* `words`         the words of a line: the longest runs of characters that are not white space;
* `breakEscapes`  a text in which the two characters `\n` stand for a line feed.

A text has one more line than it has line feeds, so the empty text has one line.
-/

namespace LineScript.Text

/-! ## lines -/

def lines (s : String) : List String :=
  (s.toList.splitOn '\n').map String.ofList

theorem lines_ne_nil (s : String) : lines s ≠ [] := by
  simp [lines, List.splitOn_ne_nil]

/-- a text without a line feed is one line -/
theorem lines_eq_singleton {s : String} (h : '\n' ∉ s.toList) : lines s = [s] := by
  simp [lines, List.splitOn_eq_singleton h]

theorem lines_append_lineFeed {s : String} (h : '\n' ∉ s.toList) (t : String) :
    lines (s ++ "\n" ++ t) = s :: lines t := by
  have hfeed : (s ++ "\n" ++ t).toList = s.toList ++ '\n' :: t.toList := by simp
  simp [lines, hfeed, List.splitOn_append_cons_self_of_not_mem h]

/-! ## words -/

def wordChars (cs : List Char) : List (List Char) :=
  (cs.splitOnP isBlank).filter fun w => !w.isEmpty

def words (s : String) : List String :=
  (wordChars s.toList).map String.ofList

theorem wordChars_nil : wordChars [] = [] := by
  simp [wordChars]

/-- words split at white space -/
theorem wordChars_append_cons (x y : List Char) {c : Char} (h : isBlank c) :
    wordChars (x ++ c :: y) = wordChars x ++ wordChars y := by
  simp [wordChars, List.splitOnP_append_cons x y h]

/-- a run of other characters is one word -/
theorem wordChars_eq_singleton {w : List Char} (hw : w ≠ []) (h : ∀ c ∈ w, isBlank c = false) :
    wordChars w = [w] := by
  simp [wordChars, List.splitOnP_eq_singleton h, hw]

/-! ## line feeds written as two characters -/

/-- a character in front of a text that has been read: a backslash in front of an `n` becomes a
line feed -/
def readEscape : Char → List Char → List Char
  | '\\', 'n' :: cs => '\n' :: cs
  | c, cs => c :: cs

/-- a text with a line feed for every two characters `\n`; two such pairs never overlap, so it does
not matter from which end they are sought -/
def breakEscapesChars (cs : List Char) : List Char :=
  cs.foldr readEscape []

def breakEscapes (s : String) : String :=
  String.ofList (breakEscapesChars s.toList)

theorem breakEscapesChars_escape (cs : List Char) :
    breakEscapesChars ('\\' :: 'n' :: cs) = '\n' :: breakEscapesChars cs := rfl

theorem breakEscapesChars_cons {c : Char} (h : c ≠ '\\') (cs : List Char) :
    breakEscapesChars (c :: cs) = c :: breakEscapesChars cs := by
  simp only [breakEscapesChars, List.foldr_cons]
  rw [readEscape]
  exact fun _ hc _ => h hc

end LineScript.Text
