import LineScript.Text.Ranges

/-!
# White space

The white space of the language is the Unicode property `White_Space`: it separates words, it is
trimmed off lines, and it is trimmed off a text that is read as a number.

* `isBlank`  is a character white space;
* `trim`     a text without the white space at its two ends.
-/

namespace LineScript.Text

/-! ## the property -/

def blankRanges : Ranges :=
  [(0x09, 0x0D), (0x20, 0x20), (0x85, 0x85), (0xA0, 0xA0), (0x1680, 0x1680), (0x2000, 0x200A),
    (0x2028, 0x2029), (0x202F, 0x202F), (0x205F, 0x205F), (0x3000, 0x3000)]

def isBlank (c : Char) : Bool :=
  blankRanges.has c

/-! ## trimming -/

/-- a list of characters without the white space at its end -/
def dropBlankEnd (cs : List Char) : List Char :=
  (cs.reverse.dropWhile isBlank).reverse

/-- a list of characters without the white space at its two ends -/
def trimChars (cs : List Char) : List Char :=
  dropBlankEnd (cs.dropWhile isBlank)

def trim (s : String) : String :=
  String.ofList (trimChars s.toList)

theorem toList_trim (s : String) : (trim s).toList = trimChars s.toList := by
  simp [trim]

theorem dropWhile_isBlank_eq_self {cs : List Char} (h : ∀ c ∈ cs.head?, isBlank c = false) :
    cs.dropWhile isBlank = cs := by
  cases cs with
  | nil => rfl
  | cons c cs => rw [List.dropWhile_cons_of_neg (Bool.eq_false_iff.mp (h c rfl))]

/-- nothing is trimmed off a text that neither begins nor ends with white space -/
theorem trimChars_eq_self {cs : List Char} (hhead : ∀ c ∈ cs.head?, isBlank c = false)
    (hlast : ∀ c ∈ cs.getLast?, isBlank c = false) : trimChars cs = cs := by
  rw [← List.head?_reverse] at hlast
  rw [trimChars, dropWhile_isBlank_eq_self hhead, dropBlankEnd, dropWhile_isBlank_eq_self hlast,
    List.reverse_reverse]

end LineScript.Text
