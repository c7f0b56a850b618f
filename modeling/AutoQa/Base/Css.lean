import Mathlib.Data.List.Basic

/-!
# Compound selectors

How CSS reads a compound selector: identifiers with their escapes, and the type, id and
class selectors made of them. Attribute selectors, pseudo-classes and the nesting selector
are a parameter. `Plain` identifiers are read as they stand.
-/

namespace AutoQa.Base.Css

/-! ## Identifiers -/

/-- An identifier can start with the character. A null character reads as U+FFFD. -/
def isNameStart (c : Char) : Bool :=
  c.isAlpha || c == '_' || 0x80 ≤ c.toNat || c.toNat == 0

def isName (c : Char) : Bool := isNameStart c || c.isDigit || c == '-'

def isNewline (c : Char) : Bool := c == '\n' || c == '\r' || c.toNat == 12

def isSpace (c : Char) : Bool := c == ' ' || c == '\t' || isNewline c

def replacement : Char := Char.ofNat 0xFFFD

/-- The character that is read. -/
def scalar (c : Char) : Char := if c.toNat == 0 then replacement else c

/-- The text starts with an escape. -/
def validEscape : List Char → Bool
  | '\\' :: c :: _ => !isNewline c
  | ['\\'] => true
  | _ => false

/-- The text starts with an identifier. -/
def startsIdent : List Char → Bool
  | [] => false
  | c :: rest =>
      if c == '-' then
        match rest with
        | [] => false
        | d :: _ => isNameStart d || d == '-' || validEscape rest
      else isNameStart c || validEscape (c :: rest)

def isHex (c : Char) : Bool :=
  c.isDigit || ('a' ≤ c && c ≤ 'f') || ('A' ≤ c && c ≤ 'F')

def hexValue (c : Char) : Nat :=
  if c.isDigit then c.toNat - '0'.toNat
  else if 'a' ≤ c && c ≤ 'f' then c.toNat - 'a'.toNat + 10
  else c.toNat - 'A'.toNat + 10

/-- Up to `n` more digits. -/
def takeHex : Nat → Nat → List Char → Nat × List Char
  | n + 1, acc, c :: rest =>
      if isHex c then takeHex n (acc * 16 + hexValue c) rest else (acc, c :: rest)
  | _, acc, rest => (acc, rest)

/-- One white-space character, if there is one. -/
def skipSpace : List Char → List Char
  | [] => []
  | c :: rest =>
      if c == '\r' && rest.head? == some '\n' then rest.tail
      else if isSpace c then rest
      else c :: rest

/-- The character with the number `n`, where there is one. -/
def ofCode (n : Nat) : Char := if n.isValidChar && n != 0 then Char.ofNat n else replacement

/-- The escaped character behind a backslash. -/
def consumeEscape : List Char → Char × List Char
  | [] => (replacement, [])
  | c :: rest =>
      if isHex c then (ofCode (takeHex 5 (hexValue c) rest).1, skipSpace (takeHex 5 (hexValue c) rest).2)
      else (scalar c, rest)

/-- The longest name at the front of the text, and what is behind it. -/
def nameFrom : Nat → List Char → List Char × List Char
  | 0, text => ([], text)
  | _ + 1, [] => ([], [])
  | n + 1, c :: rest =>
      if isName c then (scalar c :: (nameFrom n rest).1, (nameFrom n rest).2)
      else if validEscape (c :: rest) then
        ((consumeEscape rest).1 :: (nameFrom n (consumeEscape rest).2).1,
          (nameFrom n (consumeEscape rest).2).2)
      else ([], c :: rest)

def consumeName (text : List Char) : List Char × List Char := nameFrom text.length text

/-! ## Comments -/

/-- What is behind the end of a comment; one that is not closed ends the text. -/
def endComment : List Char → List Char
  | [] => []
  | c :: rest => if c == '*' && rest.head? == some '/' then rest.tail else endComment rest

def startsComment (text : List Char) : Bool := ['/', '*'].isPrefixOf text

/-- Up to `n` comments. -/
def skipComments : Nat → List Char → List Char
  | 0, text => text
  | n + 1, text =>
      if startsComment text then skipComments n (endComment (text.drop 2)) else text

/-- The text behind the comments at its front. -/
def dropComments (text : List Char) : List Char := skipComments text.length text

/-- There is only white space, and comments. -/
def blank : Nat → List Char → Bool
  | 0, _ => false
  | n + 1, text =>
      match dropComments text with
      | [] => true
      | c :: rest => isSpace c && blank n rest

/-! ## Compound selectors -/

inductive Simple where
  | type (name : List Char)
  | universal
  | id (name : List Char)
  | class (name : List Char)
  /-- An attribute selector, a pseudo-class or the like, and whether it holds. -/
  | other (holds : Bool)
  deriving DecidableEq, Repr

/-- The characters with which a simple selector of another kind starts. -/
def opensOther (c : Char) : Bool := c == '[' || c == ':' || c == '&'

section

-- How the other kinds are read, and whether they hold.
variable (other : List Char → Option (Bool × List Char))

/-- The simple selectors behind the first; white space may end the text. -/
def parseRest : Nat → List Char → Option (List Simple)
  | 0, _ => none
  | n + 1, text =>
      match dropComments text with
      | [] => some []
      | c :: rest =>
          if c == '#' then
            if startsIdent rest then
              (parseRest n (consumeName rest).2).map (.id (consumeName rest).1 :: ·)
            else none
          else if c == '.' then
            if startsIdent (dropComments rest) then
              (parseRest n (consumeName (dropComments rest)).2).map
                (.class (consumeName (dropComments rest)).1 :: ·)
            else none
          else if opensOther c then
            (other (c :: rest)).bind fun (holds, behind) =>
              (parseRest n behind).map (.other holds :: ·)
          else if blank (text.length + 1) (c :: rest) then some []
          else none

/-- The simple selectors of a compound selector; none with a namespace prefix. -/
def parseCompound (text : List Char) : Option (List Simple) :=
  if startsIdent text then
    (parseRest other (text.length + 1) (consumeName text).2).map (.type (consumeName text).1 :: ·)
  else
    match text with
    | '*' :: rest => (parseRest other (text.length + 1) rest).map (.universal :: ·)
    | _ => (parseRest other (text.length + 1) text).filter fun simples => !simples.isEmpty

end

/-! ## Names that need no escape -/

/-- No name goes on with the text. -/
def EndsName (rest : List Char) : Prop :=
  ∀ c tail, rest = c :: tail → isName c = false ∧ c ≠ '\\'

/-- An identifier that stands for itself. -/
structure Plain (p : List Char) : Prop where
  starts : startsIdent p = true
  name : ∀ c ∈ p, isName c = true
  noNull : ∀ c ∈ p, c.toNat ≠ 0

instance (p : List Char) : Decidable (Plain p) :=
  decidable_of_iff
    (startsIdent p = true ∧ p.all isName = true ∧ p.any (·.toNat == 0) = false) <| by
      constructor
      · rintro ⟨hstarts, hname, hnull⟩
        exact ⟨hstarts, by simpa using hname, by simpa using hnull⟩
      · rintro ⟨hstarts, hname, hnull⟩
        exact ⟨hstarts, by simpa using hname, by simpa using hnull⟩

theorem isName_of_isNameStart {c : Char} (h : isNameStart c = true) : isName c = true := by
  simp [isName, h]

theorem validEscape_of_ne {c : Char} {rest : List Char} (hc : c ≠ '\\') :
    validEscape (c :: rest) = false := by
  unfold validEscape
  split
  · rename_i heq
    exact absurd (List.cons.inj heq).1 hc
  · rename_i heq
    exact absurd (List.cons.inj heq).1 hc
  · rfl

theorem ne_backslash_of_isName {c : Char} (h : isName c = true) : c ≠ '\\' := by
  rintro rfl
  revert h
  decide

theorem scalar_of_ne {c : Char} (h : c.toNat ≠ 0) : scalar c = c := by
  simp [scalar, h]

theorem map_scalar {p : List Char} (h : ∀ c ∈ p, c.toNat ≠ 0) : p.map scalar = p := by
  rw [List.map_congr_left fun c hc => scalar_of_ne (h c hc), List.map_id']

theorem nameFrom_append {p rest : List Char} (hp : ∀ c ∈ p, isName c = true)
    (hrest : EndsName rest) (n : Nat) (hn : (p ++ rest).length ≤ n) :
    nameFrom n (p ++ rest) = (p.map scalar, rest) := by
  induction p generalizing n with
  | nil =>
    cases rest with
    | nil => cases n <;> rfl
    | cons c tail =>
      obtain ⟨hname, hne⟩ := hrest c tail rfl
      cases n with
      | zero => simp at hn
      | succ n => simp [nameFrom, hname, validEscape_of_ne hne]
  | cons c p ih =>
    cases n with
    | zero => simp at hn
    | succ n =>
      have hc := hp c List.mem_cons_self
      have hlen : (p ++ rest).length ≤ n := by simpa using hn
      have hih := ih (fun d hd => hp d (List.mem_cons_of_mem _ hd)) n hlen
      simp [nameFrom, hc, hih]

theorem consumeName_append {p rest : List Char} (hp : ∀ c ∈ p, isName c = true)
    (hrest : EndsName rest) : consumeName (p ++ rest) = (p.map scalar, rest) :=
  nameFrom_append hp hrest _ (Nat.le_refl _)

theorem Plain.consumeName {p rest : List Char} (hp : Plain p) (hrest : EndsName rest) :
    consumeName (p ++ rest) = (p, rest) := by
  rw [consumeName_append hp.name hrest, map_scalar hp.noNull]

theorem startsIdent_endsName {rest : List Char} (hrest : EndsName rest) : startsIdent rest = false := by
  cases rest with
  | nil => rfl
  | cons c tail =>
    obtain ⟨hname, hne⟩ := hrest c tail rfl
    have hdash : c ≠ '-' := by
      rintro rfl
      exact absurd hname (by decide)
    have hstart : isNameStart c = false := by
      cases hstart : isNameStart c with
      | false => rfl
      | true => exact absurd (isName_of_isNameStart hstart) (by simp [hname])
    simp [startsIdent, hdash, hstart, validEscape_of_ne hne]

/-- What is behind a name does not decide whether the name is an identifier. -/
theorem startsIdent_append {p rest : List Char} (hp : ∀ c ∈ p, isName c = true)
    (hrest : EndsName rest) : startsIdent (p ++ rest) = startsIdent p := by
  match p with
  | [] => exact startsIdent_endsName hrest
  | [c] =>
    have hc := ne_backslash_of_isName (hp c List.mem_cons_self)
    cases rest with
    | nil => rfl
    | cons d tail =>
      obtain ⟨hname, hne⟩ := hrest d tail rfl
      simp only [isName, Bool.or_eq_false_iff] at hname
      simp [startsIdent, hname.1.1, hname.2, validEscape_of_ne hne, validEscape_of_ne hc]
  | c :: d :: p =>
    have hc := ne_backslash_of_isName (hp c List.mem_cons_self)
    have hd := ne_backslash_of_isName (hp d (List.mem_cons_of_mem _ List.mem_cons_self))
    simp [startsIdent, validEscape_of_ne hc, validEscape_of_ne hd]

theorem Plain.startsIdent {p rest : List Char} (hp : Plain p) (hrest : EndsName rest) :
    startsIdent (p ++ rest) = true := by
  rw [startsIdent_append hp.name hrest, hp.starts]

/-! ## Names that are read as they stand

Only a plain identifier is: an escape takes more characters than it gives. The argument
stops at the first character that starts another simple selector, as the text behind the
name may be taken into an escape at its end. -/

/-- The characters with which an id and a class selector start. -/
def isStop (c : Char) : Bool := c == '#' || c == '.'

/-- The text up to its first `isStop` character. -/
def before (text : List Char) : List Char := text.takeWhile fun c => !isStop c

/-- The text is empty, or another simple selector starts with it. -/
def Stops (rest : List Char) : Prop := ∀ c tail, rest = c :: tail → isStop c = true

theorem isStop_cases {c : Char} (h : isStop c = true) : c = '#' ∨ c = '.' := by
  simpa [isStop] using h

theorem isStop_of {q : Char → Bool} (hhash : q '#' = false) (hdot : q '.' = false) {c : Char}
    (hc : q c = true) : isStop c = false := by
  cases hstop : isStop c with
  | false => rfl
  | true =>
    obtain rfl | rfl := isStop_cases hstop
    · simp [hhash] at hc
    · simp [hdot] at hc

theorem before_cons {c : Char} (h : isStop c = false) (rest : List Char) :
    before (c :: rest) = c :: before rest := by
  simp [before, h]

theorem before_stops {rest : List Char} (h : Stops rest) : before rest = [] := by
  cases rest with
  | nil => rfl
  | cons c tail => simp [before, h c tail rfl]

theorem before_append_stops (p : List Char) {rest : List Char} (h : Stops rest) :
    before (p ++ rest) = before p := by
  induction p with
  | nil => exact before_stops h
  | cons c p ih =>
    cases hc : isStop c with
    | true => simp [before, hc]
    | false => rw [List.cons_append, before_cons hc, before_cons hc, ih]

theorem Stops.endsName {rest : List Char} (h : Stops rest) : EndsName rest := by
  intro c tail hrest
  obtain rfl | rfl := isStop_cases (h c tail hrest)
  · decide
  · decide

theorem takeHex_before (n acc : Nat) (text : List Char) :
    (before (takeHex n acc text).2).length ≤ (before text).length := by
  induction n generalizing acc text with
  | zero => exact Nat.le_refl _
  | succ n ih =>
    cases text with
    | nil => exact Nat.le_refl _
    | cons c rest =>
      rw [takeHex]
      split
      · rename_i hhex
        rw [before_cons (isStop_of (by decide) (by decide) hhex)]
        exact Nat.le_succ_of_le (ih _ rest)
      · exact Nat.le_refl _

theorem before_tail (c : Char) (text : List Char) (hc : isStop c = false) :
    (before text).length ≤ (before (c :: text)).length := by
  rw [before_cons hc]
  exact Nat.le_succ _

theorem skipSpace_before (text : List Char) : (before (skipSpace text)).length ≤ (before text).length := by
  cases text with
  | nil => exact Nat.le_refl _
  | cons c rest =>
    rw [skipSpace]
    split
    · rename_i h
      simp only [Bool.and_eq_true, beq_iff_eq] at h
      obtain ⟨rfl, hhead⟩ := h
      obtain ⟨tail, rfl⟩ := List.head?_eq_some_iff.mp hhead
      exact Nat.le_trans (before_tail '\n' tail (by decide)) (before_tail _ _ (by decide))
    · split
      · rename_i hspace
        exact before_tail c rest (isStop_of (by decide) (by decide) hspace)
      · exact Nat.le_refl _

theorem consumeEscape_before (c : Char) (rest : List Char) :
    (before (consumeEscape (c :: rest)).2).length ≤ (before rest).length := by
  rw [consumeEscape]
  split
  · exact Nat.le_trans (skipSpace_before _) (takeHex_before _ _ _)
  · exact Nat.le_refl _

theorem before_length_cons (c : Char) (text : List Char) :
    (before (c :: text)).length ≤ (before text).length + 1 := by
  cases hc : isStop c with
  | true => simp [before, hc]
  | false => simp [before_cons hc]

/-- An escape is longer than what it stands for. -/
theorem escape_before {rest v : List Char}
    (hv : (before v).length ≤ (before (consumeEscape rest).2).length) :
    (before ((consumeEscape rest).1 :: v)).length < (before ('\\' :: rest)).length ∨
      rest = [] := by
  cases rest with
  | nil => exact .inr rfl
  | cons d rest =>
    left
    rw [before_cons (by decide : isStop '\\' = false), List.length_cons]
    cases hd : isStop d with
    | true =>
      -- The escaped character is the stop itself.
      have hhex : isHex d = false := by
        obtain rfl | rfl := isStop_cases hd <;> decide
      have hnull : d.toNat ≠ 0 := by
        obtain rfl | rfl := isStop_cases hd <;> decide
      simp [before, consumeEscape, hhex, scalar_of_ne hnull, hd]
    | false =>
      rw [before_cons hd, List.length_cons]
      have hle := before_length_cons (consumeEscape (d :: rest)).1 v
      have hrest := consumeEscape_before d rest
      omega

theorem isStop_scalar {c : Char} (h : isStop c = false) : isStop (scalar c) = false := by
  unfold scalar
  split
  · decide
  · exact h

section

-- How a name is compared: as it stands, or in lower case.
variable {f : Char → Char}

/-- What was read of `text` is not longer, and where it is the same there is no escape. -/
def ReadsPlain (f : Char → Char) (value text : List Char) : Prop :=
  (before value).length ≤ (before text).length ∧
    ((before value).map f = before text → ∀ c ∈ before text, isName c = true ∧ c.toNat ≠ 0)

theorem ReadsPlain.nil (text : List Char) : ReadsPlain f [] text := by
  refine ⟨Nat.zero_le _, fun heq => ?_⟩
  rw [← heq]
  exact fun c hc => absurd hc List.not_mem_nil

theorem ReadsPlain.name (hf : f replacement = replacement) {value rest : List Char} {c : Char}
    (h : ReadsPlain f value rest) (hname : isName c = true) :
    ReadsPlain f (scalar c :: value) (c :: rest) := by
  have hc : isStop c = false := isStop_of (by decide) (by decide) hname
  obtain ⟨hle, heq⟩ := h
  rw [ReadsPlain, before_cons hc, before_cons (isStop_scalar hc)]
  refine ⟨Nat.succ_le_succ hle, fun h => ?_⟩
  obtain ⟨hscalar, hrest⟩ := List.cons.inj h
  have hnull : c.toNat ≠ 0 := by
    intro hnull
    have hread : scalar c = replacement := by simp [scalar, hnull]
    rw [← hscalar, hread, hf] at hnull
    exact absurd hnull (by decide)
  exact List.forall_mem_cons.mpr ⟨⟨hname, hnull⟩, heq hrest⟩

theorem nameFrom_before (hf : f replacement = replacement) (n : Nat) (text : List Char) :
    ReadsPlain f (nameFrom n text).1 text := by
  induction n generalizing text with
  | zero => exact .nil text
  | succ n ih =>
    cases text with
    | nil => exact .nil []
    | cons c rest =>
      rw [nameFrom]
      split
      · rename_i hname
        exact (ih rest).name hf hname
      · split
        · rename_i hescape
          have hc : c = '\\' := by
            by_contra hne
            simp [validEscape_of_ne hne] at hescape
          subst hc
          obtain hlt | rfl := escape_before (ih (consumeEscape rest).2).1
          · refine ⟨Nat.le_of_lt hlt, fun heq => absurd (congrArg List.length heq) ?_⟩
            rw [List.length_map]
            exact Nat.ne_of_lt hlt
          · -- The backslash that ends the text reads as U+FFFD.
            have hnil : nameFrom n [] = ([], []) := by cases n <;> rfl
            have hread : before [replacement] = [replacement] := by decide
            have htext : before ['\\'] = ['\\'] := by decide
            simp only [ReadsPlain, consumeEscape, hnil, hread, htext, List.map_cons, List.map_nil, hf]
            exact ⟨Nat.le_refl _, fun heq => absurd heq (by decide)⟩
        · exact .nil (c :: rest)

theorem before_map (hstop : ∀ c, isStop (f c) = isStop c) (text : List Char) :
    before (text.map f) = (before text).map f := by
  simp only [before, List.takeWhile_map, Function.comp_def, hstop]

/-- A name that is read as it stands is plain. -/
theorem consumeName_self (hf : f replacement = replacement) (hstop : ∀ c, isStop (f c) = isStop c)
    {p rest : List Char} (hrest : Stops rest) (h : (consumeName (p ++ rest)).1.map f = p) :
    (∀ c ∈ p, isName c = true) ∧ ∀ c ∈ p, c.toNat ≠ 0 := by
  have hplain : ∀ c ∈ before p, isName c = true ∧ c.toNat ≠ 0 := by
    have heq := (nameFrom_before hf (p ++ rest).length (p ++ rest)).2
    rw [← consumeName, ← before_map hstop, h, before_append_stops p hrest] at heq
    exact heq rfl
  have hbehind : Stops (p.dropWhile (fun c => !isStop c) ++ rest) := by
    intro c tail heq
    cases hdrop : p.dropWhile (fun c => !isStop c) with
    | nil =>
      rw [hdrop] at heq
      exact hrest c tail heq
    | cons d tail' =>
      have hd := List.head_dropWhile_not (fun c => !isStop c) (by simp [hdrop] : p.dropWhile _ ≠ [])
      rw [hdrop] at heq
      obtain ⟨rfl, -⟩ := List.cons.inj heq
      simpa [hdrop] using hd
  have hlength : p.length = (before p).length := by
    have hsplit : p ++ rest = before p ++ (p.dropWhile (fun c => !isStop c) ++ rest) := by
      rw [← List.append_assoc, before, List.takeWhile_append_dropWhile]
    rw [hsplit, consumeName_append (fun c hc => (hplain c hc).1) hbehind.endsName] at h
    simpa using (congrArg List.length h).symm
  have hall : before p = p := (List.takeWhile_prefix _).eq_of_length hlength.symm
  rw [← hall]
  exact ⟨fun c hc => (hplain c hc).1, fun c hc => (hplain c hc).2⟩

end

/-! ## Reading one simple selector -/

theorem dropComments_eq {text : List Char} (h : startsComment text = false) :
    dropComments text = text := by
  unfold dropComments
  cases text.length with
  | zero => rfl
  | succ n => simp [skipComments, h]

theorem startsComment_of_ne {c : Char} (h : c ≠ '/') (rest : List Char) :
    startsComment (c :: rest) = false := by
  simp [startsComment, List.isPrefixOf, h.symm]

theorem startsComment_of_not_mem {text : List Char} (h : '*' ∉ text) : startsComment text = false := by
  cases hstarts : startsComment text with
  | false => rfl
  | true =>
    obtain ⟨tail, rfl⟩ := List.isPrefixOf_iff_prefix.mp hstarts
    simp at h

theorem startsComment_of_startsIdent {text : List Char} (h : startsIdent text = true) :
    startsComment text = false := by
  cases text with
  | nil => rfl
  | cons c rest =>
    apply startsComment_of_ne
    rintro rfl
    simp [startsIdent, isNameStart, validEscape] at h

theorem blank_iff {text : List Char} (hstar : '*' ∉ text) {n : Nat} (hn : text.length < n) :
    blank n text = true ↔ ∀ c ∈ text, isSpace c = true := by
  induction text generalizing n with
  | nil =>
    cases n with
    | zero => simp at hn
    | succ n => simp [blank, dropComments_eq (startsComment_of_not_mem hstar)]
  | cons c rest ih =>
    cases n with
    | zero => simp at hn
    | succ n =>
      have hrest : '*' ∉ rest := fun h => hstar (List.mem_cons_of_mem _ h)
      rw [blank, dropComments_eq (startsComment_of_not_mem hstar)]
      simp [ih hrest (by simpa using hn)]

section

variable (other : List Char → Option (Bool × List Char)) (n : Nat)

theorem parseRest_id (rest : List Char) : parseRest other (n + 1) ('#' :: rest) =
    if startsIdent rest then
      (parseRest other n (consumeName rest).2).map (.id (consumeName rest).1 :: ·)
    else none := by
  have hdrop := dropComments_eq (startsComment_of_ne (by decide : '#' ≠ '/') rest)
  simp [parseRest, hdrop]

theorem parseRest_class {rest : List Char} (h : startsComment rest = false) :
    parseRest other (n + 1) ('.' :: rest) =
      if startsIdent rest then
        (parseRest other n (consumeName rest).2).map (.class (consumeName rest).1 :: ·)
      else none := by
  have hdrop := dropComments_eq (startsComment_of_ne (by decide : '.' ≠ '/') rest)
  simp [parseRest, hdrop, dropComments_eq h]

theorem parseRest_end {c : Char} {rest : List Char} (hstar : '*' ∉ c :: rest)
    (hstop : isStop c = false) (hopen : opensOther c = false) :
    parseRest other (n + 1) (c :: rest) =
      if (c :: rest).all isSpace then some [] else none := by
  have hblank : blank ((c :: rest).length + 1) (c :: rest) = (c :: rest).all isSpace := by
    rw [Bool.eq_iff_iff, List.all_eq_true]
    exact blank_iff hstar (Nat.lt_succ_self _)
  simp only [isStop, Bool.or_eq_false_iff] at hstop
  simp only [parseRest, dropComments_eq (startsComment_of_not_mem hstar), hstop.1, hstop.2, hopen,
    hblank, Bool.false_eq_true, if_false]

theorem parseRest_plain_class {p rest : List Char} (hp : Plain p) (hrest : EndsName rest) :
    parseRest other (n + 1) ('.' :: (p ++ rest)) = (parseRest other n rest).map (.class p :: ·) := by
  have hstarts := hp.startsIdent hrest
  rw [parseRest_class other n (startsComment_of_startsIdent hstarts), if_pos hstarts,
    hp.consumeName hrest]

theorem parseRest_plain_id {p rest : List Char} (hp : Plain p) (hrest : EndsName rest) :
    parseRest other (n + 1) ('#' :: (p ++ rest)) = (parseRest other n rest).map (.id p :: ·) := by
  have hstarts := hp.startsIdent hrest
  rw [parseRest_id other n, if_pos hstarts, hp.consumeName hrest]

theorem parseCompound_plain {p rest : List Char} (hp : Plain p) (hrest : EndsName rest) :
    parseCompound other (p ++ rest) =
      (parseRest other ((p ++ rest).length + 1) rest).map (.type p :: ·) := by
  have hstarts := hp.startsIdent hrest
  unfold parseCompound
  rw [if_pos hstarts, hp.consumeName hrest]

end

end AutoQa.Base.Css
