import LineScript.Text.Cluster.Ranges

/-!
# Clusters

A cluster is what a reader takes for one character: a letter with its accents, a conjunct, a
syllable, a flag, a pictograph joined from several.  Clusters are the extended grapheme clusters of
Unicode.

* `Role`      what a character can do in a cluster;
* `Tail`      what the end of a text can still bind to itself;
* `clusters`  a text cut into its clusters.
-/

namespace LineScript.Text

namespace Cluster

/-! ## roles -/

inductive Role where
  | other
  | control
  | carriageReturn
  | lineFeed
  /-- a mark that goes with what is in front of it -/
  | extend
  /-- a mark that can also bind two consonants -/
  | virama
  /-- a mark that keeps consonants apart -/
  | nonJoiner
  /-- a mark that can also bind two pictographs -/
  | joiner
  /-- a mark with a width of its own -/
  | spacing
  | prepend
  | leading
  | vowel
  | trailing
  /-- a syllable of Hangul that ends in its vowel -/
  | openSyllable
  | closedSyllable
  /-- one half of a flag -/
  | indicator
  | pictograph
  | consonant
deriving DecidableEq, Repr

/-- every group of so many syllables opens with the one that ends in its vowel -/
def syllableGroup : Nat := 28

def Role.ofSyllable (c : Char) : Role :=
  if (c.toNat - 0xAC00) % syllableGroup = 0 then .openSyllable else .closedSyllable

def Role.ofChar (c : Char) : Role :=
  if c = '\r' then .carriageReturn
  else if c = '\n' then .lineFeed
  else if controlRanges.has c then .control
  else if c.toNat < 0x80 then .other
  else if c.toNat = 0x200C then .nonJoiner
  else if c.toNat = 0x200D then .joiner
  else if viramaRanges.has c then .virama
  else if extendRanges.has c then .extend
  else if spacingRanges.has c then .spacing
  else if prependRanges.has c then .prepend
  else if leadingRanges.has c then .leading
  else if vowelRanges.has c then .vowel
  else if trailingRanges.has c then .trailing
  else if syllableRanges.has c then .ofSyllable c
  else if indicatorRanges.has c then .indicator
  else if pictographRanges.has c then .pictograph
  else if consonantRanges.has c then .consonant
  else .other

/-! ## tails -/

inductive Tail where
  /-- nothing, or what binds nothing -/
  | closed
  | carriageReturn
  /-- a character that binds only marks -/
  | plain
  | prepend
  | leading
  | vowel
  | trailing
  /-- the first half of a flag -/
  | halfFlag
  /-- a pictograph with its marks -/
  | pictograph
  /-- a pictograph with its marks and a joiner -/
  | joined
  /-- a consonant with marks, none of them a virama -/
  | consonant
  /-- a consonant with marks, a virama among them -/
  | bound
deriving DecidableEq, Repr

namespace Tail

/-- does a character of this role go on with the cluster in front of it -/
def binds : Tail → Role → Bool
  | .carriageReturn, .lineFeed => true
  | .closed, _ | .carriageReturn, _ => false
  | _, .control | _, .carriageReturn | _, .lineFeed => false
  | _, .extend | _, .virama | _, .nonJoiner | _, .joiner | _, .spacing => true
  | .prepend, _ => true
  | .leading, .leading | .leading, .vowel => true
  | .leading, .openSyllable | .leading, .closedSyllable => true
  | .vowel, .vowel | .vowel, .trailing | .trailing, .trailing => true
  | .halfFlag, .indicator => true
  | .joined, .pictograph => true
  | .bound, .consonant => true
  | _, _ => false

def next : Tail → Role → Tail
  | _, .control | _, .lineFeed => .closed
  | _, .carriageReturn => .carriageReturn
  | _, .prepend => .prepend
  | _, .leading => .leading
  | _, .vowel | _, .openSyllable => .vowel
  | _, .trailing | _, .closedSyllable => .trailing
  | .halfFlag, .indicator => .plain
  | _, .indicator => .halfFlag
  | _, .pictograph => .pictograph
  | .pictograph, .extend | .pictograph, .virama | .pictograph, .nonJoiner => .pictograph
  | .pictograph, .joiner => .joined
  | _, .consonant => .consonant
  | .consonant, .extend | .consonant, .joiner => .consonant
  | .consonant, .virama => .bound
  | .bound, .extend | .bound, .virama | .bound, .joiner => .bound
  | _, _ => .plain

end Tail

/-! ## cutting -/

/-- what goes on with the cluster in front of a text, and the clusters after that -/
def cut (t : Tail) : List Char → List Char × List (List Char)
  | [] => ([], [])
  | c :: cs =>
    let (first, rest) := cut (t.next (.ofChar c)) cs
    if t.binds (.ofChar c) then (c :: first, rest) else ([], (c :: first) :: rest)

theorem cut_nil (t : Tail) : cut t [] = ([], []) := rfl

theorem cut_cons (t : Tail) (c : Char) (cs : List Char) :
    cut t (c :: cs) =
      if t.binds (.ofChar c)
      then (c :: (cut (t.next (.ofChar c)) cs).1, (cut (t.next (.ofChar c)) cs).2)
      else ([], (c :: (cut (t.next (.ofChar c)) cs).1) :: (cut (t.next (.ofChar c)) cs).2) := rfl

/-- cutting loses nothing -/
theorem cut_append_flatten (t : Tail) (cs : List Char) :
    (cut t cs).1 ++ (cut t cs).2.flatten = cs := by
  induction cs generalizing t with
  | nil => rfl
  | cons c cs ih =>
    rw [cut_cons]
    split <;> simp [ih]

/-- nothing goes on with a closed text -/
theorem cut_closed (cs : List Char) : (cut .closed cs).1 = [] := by
  cases cs <;> rfl

theorem ne_nil_of_mem_cut {t : Tail} {cs g : List Char} (h : g ∈ (cut t cs).2) : g ≠ [] := by
  induction cs generalizing t with
  | nil => simp [cut_nil] at h
  | cons c cs ih =>
    rw [cut_cons] at h
    split at h
    · exact ih h
    · rcases List.mem_cons.1 h with rfl | h
      · simp
      · exact ih h

end Cluster

def clusters (cs : List Char) : List (List Char) :=
  (Cluster.cut .closed cs).2

theorem flatten_clusters (cs : List Char) : (clusters cs).flatten = cs := by
  simpa [clusters, Cluster.cut_closed] using Cluster.cut_append_flatten .closed cs

theorem ne_nil_of_mem_clusters {cs g : List Char} (h : g ∈ clusters cs) : g ≠ [] :=
  Cluster.ne_nil_of_mem_cut h

end LineScript.Text
