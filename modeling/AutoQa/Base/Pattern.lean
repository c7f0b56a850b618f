import Mathlib.Data.List.Infix

/-!
# Regular expressions, in the few forms a path filter needs

A pattern is given by what it does with the rest of the text from the position it
stands at: it hands the text behind itself to the pattern that follows. `search` tries
every position, as `RegExp.test` does.
-/

namespace AutoQa.Base

/-- Whether the text matches from its first character on. -/
abbrev Pattern := List Char → Bool

namespace Pattern

/-- The end of a pattern. -/
def done : Pattern := fun _ => true

/-- `$`. -/
def atEnd : Pattern := List.isEmpty

/-- One character out of a class. -/
def oneOf (p : Char → Bool) (next : Pattern) : Pattern
  | [] => false
  | c :: rest => p c && next rest

/-- The characters of `word`, one after the other. -/
def literal (word : List Char) (next : Pattern) : Pattern :=
  word.foldr (fun c => oneOf (· == c)) next

/-- The characters that `.` matches: no line terminator. -/
def isDot (c : Char) : Bool :=
  !(c == '\n' || c == '\r' || c == '\u2028' || c == '\u2029')

/-- `.*`. -/
def anything (next : Pattern) : Pattern
  | [] => next []
  | c :: rest => next (c :: rest) || (isDot c && anything next rest)

/-- The pattern matches somewhere in the text. -/
def search (m : Pattern) : Pattern
  | [] => m []
  | c :: rest => m (c :: rest) || search m rest

theorem search_append {m : Pattern} {text : List Char} (h : search m text = true)
    (front : List Char) : search m (front ++ text) = true := by
  induction front with
  | nil => exact h
  | cons c front ih => simp [search, ih]

theorem literal_done (word rest : List Char) : literal word done (word ++ rest) = true := by
  induction word with
  | nil => rfl
  | cons c word ih => simpa [literal, oneOf] using ih

/-- A word that stands in the text is found. -/
theorem search_literal (front word rest : List Char) :
    search (literal word done) (front ++ (word ++ rest)) = true := by
  apply search_append
  have hhere := literal_done word rest
  cases htext : word ++ rest with
  | nil => rwa [htext] at hhere
  | cons c tail =>
    rw [htext] at hhere
    simp [search, hhere]

/-! ## A character that no word has -/

section

variable {c : Char} {word : List Char}

/-- No word goes on over such a character. -/
theorem literal_stops (hc : c ∉ word) (text rest : List Char) :
    literal word done (text ++ c :: rest) = literal word done text := by
  induction word generalizing text with
  | nil => rfl
  | cons d word ih =>
    have hne : (c == d) = false := by simpa using fun heq : c = d => hc (by simp [heq])
    cases text with
    | nil => simp [literal, oneOf, hne]
    | cons e text =>
      have hrest := ih (fun hmem => hc (List.mem_cons_of_mem d hmem)) text
      simp only [literal] at hrest
      simp [literal, oneOf, hrest]

theorem search_nil_literal (hne : word ≠ []) : search (literal word done) [] = false := by
  cases word with
  | nil => exact absurd rfl hne
  | cons d word => rfl

/-- A word is found on one side of it or on the other. -/
theorem search_separated (hc : c ∉ word) (hne : word ≠ []) (text rest : List Char) :
    search (literal word done) (text ++ c :: rest)
      = (search (literal word done) text || search (literal word done) rest) := by
  induction text with
  | nil =>
    have hhere := literal_stops hc [] rest
    have hnone := search_nil_literal hne
    rw [List.nil_append] at hhere ⊢
    rw [hnone, Bool.false_or, search, hhere]
    rw [search] at hnone
    rw [hnone, Bool.false_or]
  | cons d text ih =>
    have hhere := literal_stops hc (d :: text) rest
    rw [List.cons_append] at hhere ⊢
    rw [search, hhere, ih, search, Bool.or_assoc]

end

/-! ## A character that adds no match -/

/-- Behind a text, `c` makes no match that the text does not have without it. -/
def Inert (c : Char) (m : Pattern) : Prop := ∀ text, m (text ++ [c]) = true → m text = true

namespace Inert

variable {c : Char} {m : Pattern}

theorem done : Inert c done := fun _ _ => rfl

theorem atEnd : Inert c atEnd := by
  intro text h
  cases text <;> cases h

theorem oneOf {p : Char → Bool} (hm : Inert c m) (hc : p c = false) : Inert c (oneOf p m) := by
  intro text h
  cases text with
  | nil => simp [Pattern.oneOf, hc] at h
  | cons d text =>
    simp only [List.cons_append, Pattern.oneOf, Bool.and_eq_true] at h ⊢
    exact ⟨h.1, hm text h.2⟩

theorem literal (hm : Inert c m) : ∀ {word : List Char}, c ∉ word → Inert c (literal word m)
  | [], _ => hm
  | d :: word, hc => by
    have hne : (c == d) = false := by simpa using fun heq : c = d => hc (by simp [heq])
    exact oneOf (literal hm (fun hmem => hc (List.mem_cons_of_mem d hmem))) hne

theorem anything (hm : Inert c m) : Inert c (anything m) := by
  intro text
  induction text with
  | nil =>
    intro h
    simp only [List.nil_append, Pattern.anything, Bool.or_eq_true, Bool.and_eq_true] at h
    rcases h with h | ⟨-, h⟩
    · exact hm [] h
    · exact h
  | cons d text ih =>
    intro h
    simp only [List.cons_append, Pattern.anything, Bool.or_eq_true, Bool.and_eq_true] at h ⊢
    exact h.imp (hm (d :: text)) (fun h => ⟨h.1, ih h.2⟩)

theorem search (hm : Inert c m) : Inert c (search m) := by
  intro text
  induction text with
  | nil =>
    intro h
    simp only [List.nil_append, Pattern.search, Bool.or_eq_true] at h
    exact h.elim (hm []) id
  | cons d text ih =>
    intro h
    simp only [List.cons_append, Pattern.search, Bool.or_eq_true] at h ⊢
    exact h.imp (hm (d :: text)) ih

end Inert

end Pattern

end AutoQa.Base
