import Mathlib.Data.List.DropRight
import Mathlib.Data.List.Infix
import Mathlib.Data.List.SplitOn

/-!
# String operations

The string methods the sources call, over the characters of a string. Lean's
strings are sequences of Unicode scalar values, so a lone surrogate, which a
UTF-16 string can hold, has no counterpart here.
-/

namespace AutoQa.Base.Text

/-- `hay.includes(needle)`. -/
def includes (hay needle : String) : Bool := decide (needle.toList <:+: hay.toList)

/-- `s.startsWith(p)`. -/
def startsWith (s p : String) : Bool := p.toList.isPrefixOf s.toList

/-- `s.endsWith(p)`. -/
def endsWith (s p : String) : Bool := p.toList.isSuffixOf s.toList

/-- `s.substring(n)`. -/
def substring (s : String) (n : Nat) : String := String.ofList (s.toList.drop n)

/-- `s.slice(0, -n)`. -/
def dropRight (s : String) (n : Nat) : String := String.ofList (s.toList.rdrop n)

/-- The white space and line terminators that `trim` removes. -/
def isSpace (c : Char) : Bool :=
  let n := c.toNat
  (9 ≤ n && n ≤ 13) || n == 32 || n == 0xA0 || n == 0x1680 || (0x2000 ≤ n && n ≤ 0x200A)
    || n == 0x2028 || n == 0x2029 || n == 0x202F || n == 0x205F || n == 0x3000 || n == 0xFEFF

/-- `s.trim()`. -/
def trim (s : String) : String :=
  String.ofList ((s.toList.dropWhile isSpace).rdropWhile isSpace)

/-- Neither end is white space. -/
structure Solid (cs : List Char) : Prop where
  starts : ∃ c tail, cs = c :: tail ∧ isSpace c = false
  ends : ∃ init c, cs = init ++ [c] ∧ isSpace c = false

theorem Solid.dropWhile {cs : List Char} (h : Solid cs) (rest : List Char) :
    (cs ++ rest).dropWhile isSpace = cs ++ rest := by
  obtain ⟨c, tail, rfl, hc⟩ := h.starts
  simp [hc]

theorem Solid.rdropWhile {cs : List Char} (h : Solid cs) : cs.rdropWhile isSpace = cs := by
  obtain ⟨init, c, rfl, hc⟩ := h.ends
  exact List.rdropWhile_concat_neg isSpace init c (by simp [hc])

theorem trim_solid_append {cs : List Char} (h : Solid cs) (rest : List Char) :
    trim (String.ofList (cs ++ rest)) = String.ofList (cs ++ rest.rdropWhile isSpace) := by
  rw [trim, String.toList_ofList, h.dropWhile]
  refine congrArg String.ofList ?_
  have hback := h.rdropWhile
  rw [List.rdropWhile] at hback ⊢
  rw [List.reverse_append, List.dropWhile_append, List.rdropWhile]
  split
  · next hempty => simp [hback, List.isEmpty_iff.mp hempty]
  · simp

/-- What is left of a text between white space. -/
theorem trim_solid {before cs after : List Char} (h : Solid cs)
    (hbefore : ∀ c ∈ before, isSpace c = true) (hafter : ∀ c ∈ after, isSpace c = true) :
    trim (String.ofList (before ++ (cs ++ after))) = String.ofList cs := by
  have hdrop : (before ++ (cs ++ after)).dropWhile isSpace = cs ++ after := by
    rw [List.dropWhile_append_of_pos hbefore, h.dropWhile]
  have hnone : after.rdropWhile isSpace = [] := List.rdropWhile_eq_nil_iff.mpr hafter
  have htrim := trim_solid_append h after
  rw [hnone, List.append_nil] at htrim
  rw [← htrim, trim, trim, String.toList_ofList, String.toList_ofList, hdrop, h.dropWhile]

/-- What is appended to a text is lost if it is white space, and only then. -/
theorem trim_append_iff {cs rest : List Char} (h : Solid cs) :
    trim (String.ofList (cs ++ rest)) = String.ofList cs ↔ ∀ c ∈ rest, isSpace c = true := by
  rw [trim_solid_append h, String.ofList_inj, List.append_right_eq_self]
  exact List.rdropWhile_eq_nil_iff

/-- `s.split(sep)` for a one-character separator. -/
def split (s : String) (sep : Char) : List String := (s.toList.splitOn sep).map String.ofList

end AutoQa.Base.Text
