import LineScript.Text.Cluster.Basic

/-!
# Lines as they are typed

A line that is typed can hold backspaces, and each takes back the cluster before it.  How many bytes
that is was noted in one byte when the cluster was typed.

* `Draft`  a line while it is typed;
* `typed`  what is left of a line in the end.

Nothing is left to take back at the front of a line, so a backspace does nothing there; a line
without backspaces stays as it is (`typedChars_eq_self`).
-/

namespace LineScript.Text

def byteCount : List Char → Nat
  | [] => 0
  | c :: cs => c.utf8Size + byteCount cs

/-- some characters without so many bytes in front; a character that is cut goes with them -/
def dropBytes (n : Nat) : List Char → List Char
  | [] => []
  | c :: cs => if n = 0 then c :: cs else dropBytes (n - c.utf8Size) cs

/-! ## drafts -/

def backspace : Char := '\x08'

/-- the characters of a line, last first, and the sizes of its clusters, last first -/
structure Draft where
  kept : List Char
  sizes : List UInt8
deriving DecidableEq, Repr

namespace Draft

def start : Draft := ⟨[], []⟩

def write (d : Draft) (cluster : List Char) : Draft :=
  ⟨cluster.reverse ++ d.kept, (byteCount cluster).toUInt8 :: d.sizes⟩

def takeBack (d : Draft) : Draft :=
  match d.sizes with
  | [] => d
  | size :: sizes => ⟨dropBytes size.toNat d.kept, sizes⟩

def step (d : Draft) (cluster : List Char) : Draft :=
  if cluster = [backspace] then d.takeBack else d.write cluster

theorem kept_foldl_step {gs : List (List Char)} (h : [backspace] ∉ gs) (d : Draft) :
    (gs.foldl step d).kept = gs.flatten.reverse ++ d.kept := by
  induction gs generalizing d with
  | nil => rfl
  | cons g gs ih =>
    simp only [List.mem_cons, not_or] at h
    rw [List.foldl_cons, ih h.2, step, if_neg (Ne.symm h.1)]
    simp [write]

end Draft

/-! ## lines -/

def typedChars (cs : List Char) : List Char :=
  ((clusters cs).foldl Draft.step .start).kept.reverse

def typed (s : String) : String :=
  String.ofList (typedChars s.toList)

theorem typedChars_eq_self {cs : List Char} (h : backspace ∉ cs) : typedChars cs = cs := by
  have : [backspace] ∉ clusters cs := by
    intro hmem
    apply h
    rw [← flatten_clusters cs]
    exact List.mem_flatten.2 ⟨_, hmem, List.mem_singleton.2 rfl⟩
  simp [typedChars, Draft.kept_foldl_step this, flatten_clusters, Draft.start]

theorem typed_eq_self {s : String} (h : backspace ∉ s.toList) : typed s = s := by
  simp [typed, typedChars_eq_self h]

end LineScript.Text
