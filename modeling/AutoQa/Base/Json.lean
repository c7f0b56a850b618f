import Mathlib.Tactic.SplitIfs

/-!
# JSON documents

The syntax tree of a JSON document, `stringify` with its indentation, `parse`,
and the round trip between them. A number is kept as its decimal literal, so
the engine's rounding to a double is not modelled, nor is the sign of zero or
a lone surrogate escape. An object keeps its members in document order; a
repeated key is looked up at its LAST occurrence, which is the one that
survives in the object `JSON.parse` builds.
-/

namespace AutoQa.Base

/-- A decimal literal: sign, integer part, fraction digits, exponent. -/
structure Number where
  neg : Bool
  int : Nat
  frac : List (Fin 10)
  exp : Int
  deriving DecidableEq, Repr

inductive Json where
  | null
  | bool (b : Bool)
  | num (n : Number)
  | str (s : String)
  | arr (items : List Json)
  | obj (members : List (String × Json))
  deriving Repr

namespace Json

/-! ## Reading a document's fields -/

/-- `v[key]` where `v` is not `null`; `none` is `undefined`. -/
def member (key : String) : Json → Option Json
  | .obj members => (members.reverse.find? (fun m => m.1 == key)).map Prod.snd
  | _ => none

def Number.isZero (n : Number) : Bool := n.int == 0 && n.frac.all (· == 0)

/-- `!!v`. -/
def truthy : Json → Bool
  | .null => false
  | .bool b => b
  | .num n => !Number.isZero n
  | .str s => s != ""
  | .arr _ => true
  | .obj _ => true

def string? : Json → Option String
  | .str s => some s
  | _ => none

/-! ## `stringify` -/

def digitChar (d : Fin 10) : Char := Nat.digitChar d.val

def printExponent : Int → List Char
  | .ofNat n => '+' :: Nat.toDigits 10 n
  | .negSucc n => '-' :: Nat.toDigits 10 (n + 1)

def printFrac (frac : List (Fin 10)) : List Char :=
  if frac = [] then [] else '.' :: frac.map digitChar

def printExp (exp : Int) : List Char :=
  if exp = 0 then [] else 'e' :: printExponent exp

def printNumber (n : Number) : List Char :=
  (if n.neg then ['-'] else []) ++ Nat.toDigits 10 n.int ++ printFrac n.frac ++ printExp n.exp

/-- Quote, backslash and the control characters are escaped; every other
character stands for itself. -/
def escape (c : Char) : List Char :=
  if c = '"' then ['\\', '"']
  else if c = '\\' then ['\\', '\\']
  else if c.toNat = 8 then ['\\', 'b']
  else if c.toNat = 9 then ['\\', 't']
  else if c.toNat = 10 then ['\\', 'n']
  else if c.toNat = 12 then ['\\', 'f']
  else if c.toNat = 13 then ['\\', 'r']
  else if c.toNat < 32 then
    ['\\', 'u', '0', '0', Nat.digitChar (c.toNat / 16), Nat.digitChar (c.toNat % 16)]
  else [c]

def printString (s : String) : List Char :=
  '"' :: s.toList.flatMap escape ++ ['"']

/-- A line break and the indentation of `depth`; nothing when `gap` is `0`,
the compact form. -/
def newline (gap depth : Nat) : List Char :=
  if gap = 0 then [] else '\n' :: List.replicate (gap * depth) ' '

mutual

def print (gap depth : Nat) : Json → List Char
  | .null => "null".toList
  | .bool true => "true".toList
  | .bool false => "false".toList
  | .num n => printNumber n
  | .str s => printString s
  | .arr items => '[' :: printItems gap depth items
  | .obj members => '\x7b' :: printMembers gap depth members

/-- The items of an array and the closing bracket. -/
def printItems (gap depth : Nat) : List Json → List Char
  | [] => [']']
  | x :: xs => newline gap (depth + 1) ++ print gap (depth + 1) x ++ printMoreItems gap depth xs

def printMoreItems (gap depth : Nat) : List Json → List Char
  | [] => newline gap depth ++ [']']
  | x :: xs =>
      ',' :: newline gap (depth + 1) ++ print gap (depth + 1) x ++ printMoreItems gap depth xs

/-- The members of an object and the closing brace. -/
def printMembers (gap depth : Nat) : List (String × Json) → List Char
  | [] => ['\x7d']
  | m :: ms => newline gap (depth + 1) ++ printMember gap depth m ++ printMoreMembers gap depth ms

def printMoreMembers (gap depth : Nat) : List (String × Json) → List Char
  | [] => newline gap depth ++ ['\x7d']
  | m :: ms =>
      ',' :: newline gap (depth + 1) ++ printMember gap depth m ++ printMoreMembers gap depth ms

def printMember (gap depth : Nat) : String × Json → List Char
  | (k, x) => printString k ++ ':' :: (if gap = 0 then [] else [' ']) ++ print gap (depth + 1) x

end

mutual

/-- `${v}`. -/
def toText : Json → String
  | .null => "null"
  | .bool b => if b then "true" else "false"
  | .num n => String.ofList (printNumber n)
  | .str s => s
  | .arr items => String.intercalate "," (itemTexts items)
  | .obj _ => "[object Object]"

/-- Inside an array `null` prints as nothing. -/
def itemTexts : List Json → List String
  | [] => []
  | .null :: xs => "" :: itemTexts xs
  | x :: xs => toText x :: itemTexts xs

end

/-- `JSON.stringify(v, null, gap)`. -/
def stringify (v : Json) (gap : Nat) : String := String.ofList (print gap 0 v)

/-! ## `parse` -/

def isWs (c : Char) : Bool := c == ' ' || c == '\n' || c == '\t' || c == '\r'

def skipWs (cs : List Char) : List Char := cs.dropWhile isWs

/-- A non-empty run of digits and what follows it. -/
def takeDigits (cs : List Char) : Option (List Char × List Char) :=
  match cs.takeWhile Char.isDigit with
  | [] => none
  | ds => some (ds, cs.dropWhile Char.isDigit)

def takeSign : List Char → Bool × List Char
  | '-' :: cs => (true, cs)
  | cs => (false, cs)

/-- No leading zero: after `0` the integer part is over. -/
def takeInt : List Char → Option (Nat × List Char)
  | '0' :: cs => some (0, cs)
  | cs => (takeDigits cs).map fun (ds, rest) => (Nat.ofDigitChars 10 ds 0, rest)

def digitOf (c : Char) : Fin 10 := Fin.ofNat 10 (c.toNat - '0'.toNat)

def takeFrac : List Char → Option (List (Fin 10) × List Char)
  | '.' :: cs => (takeDigits cs).map fun (ds, rest) => (ds.map digitOf, rest)
  | cs => some ([], cs)

def takeExponent : List Char → Option (Int × List Char)
  | '-' :: cs => (takeDigits cs).map fun (ds, rest) => (-(Nat.ofDigitChars 10 ds 0 : Int), rest)
  | '+' :: cs => (takeDigits cs).map fun (ds, rest) => ((Nat.ofDigitChars 10 ds 0 : Int), rest)
  | cs => (takeDigits cs).map fun (ds, rest) => ((Nat.ofDigitChars 10 ds 0 : Int), rest)

def takeExp : List Char → Option (Int × List Char)
  | 'e' :: cs => takeExponent cs
  | 'E' :: cs => takeExponent cs
  | cs => some (0, cs)

def takeNumber (cs : List Char) : Option (Number × List Char) :=
  let (neg, afterSign) := takeSign cs
  (takeInt afterSign).bind fun (int, afterInt) =>
    (takeFrac afterInt).bind fun (frac, afterFrac) =>
      (takeExp afterFrac).map fun (exp, rest) => (⟨neg, int, frac, exp⟩, rest)

def hexDigit? (c : Char) : Option Nat :=
  if c.isDigit then some (c.toNat - 48)
  else if 97 ≤ c.toNat ∧ c.toNat ≤ 102 then some (c.toNat - 87)
  else if 65 ≤ c.toNat ∧ c.toNat ≤ 70 then some (c.toNat - 55)
  else none

/-- The code unit of a `\uXXXX` escape. -/
def hex4? (a b c d : Char) : Option Nat :=
  (hexDigit? a).bind fun a => (hexDigit? b).bind fun b => (hexDigit? c).bind fun c =>
    (hexDigit? d).map fun d => ((a * 16 + b) * 16 + c) * 16 + d

def unescape? (c : Char) : Option Char :=
  if c = '"' then some '"'
  else if c = '\\' then some '\\'
  else if c = '/' then some '/'
  else if c = 'b' then some (Char.ofNat 8)
  else if c = 'f' then some (Char.ofNat 12)
  else if c = 'n' then some '\n'
  else if c = 'r' then some '\r'
  else if c = 't' then some '\t'
  else none

def isHigh (u : Nat) : Bool := 0xD800 ≤ u && u < 0xDC00

def isLow (u : Nat) : Bool := 0xDC00 ≤ u && u < 0xE000

/-- A code unit outside a surrogate pair; a lone surrogate is replaced. -/
def unitChar (u : Nat) : Char :=
  if isHigh u || isLow u then Char.ofNat 0xFFFD else Char.ofNat u

/-- The characters of a sequence of code units: a surrogate pair is one
character. -/
def joinUnits : List Nat → List Char
  | [] => []
  | [u] => [unitChar u]
  | u :: v :: us =>
    if isHigh u && isLow v then
      Char.ofNat (0x10000 + (u - 0xD800) * 0x400 + (v - 0xDC00)) :: joinUnits us
    else unitChar u :: joinUnits (v :: us)

/-- The code units of a string up to its closing quote, and what follows. -/
def takeString : List Char → Option (List Nat × List Char)
  | [] => none
  | c :: cs =>
    if c = '"' then some ([], cs)
    else if c = '\\' then
      match cs with
      | [] => none
      | e :: es =>
        if e = 'u' then
          match es with
          | a :: b :: x :: y :: rest =>
            (hex4? a b x y).bind fun u => (takeString rest).map fun (s, r) => (u :: s, r)
          | _ => none
        else (unescape? e).bind fun ch => (takeString es).map fun (s, r) => (ch.toNat :: s, r)
    else if c.toNat < 32 then none
    else (takeString cs).map fun (s, r) => (c.toNat :: s, r)

/-- What follows the literal `word`. -/
def takeWord (word : String) (v : Json) (cs : List Char) : Option (Json × List Char) :=
  if word.toList.isPrefixOf cs then some (v, cs.drop word.toList.length) else none

mutual

/-- Every call gives up one unit of fuel; `parse` starts with more than the
text is long. -/
def takeValue : Nat → List Char → Option (Json × List Char)
  | 0, _ => none
  | fuel + 1, cs =>
    match skipWs cs with
    | [] => none
    | c :: rest =>
      if c = '[' then
        match skipWs rest with
        | ']' :: rest' => some (.arr [], rest')
        | _ => (takeItems fuel rest).map fun (xs, r) => (.arr xs, r)
      else if c = '\x7b' then
        match skipWs rest with
        | '\x7d' :: rest' => some (.obj [], rest')
        | _ => (takeMembers fuel rest).map fun (ms, r) => (.obj ms, r)
      else if c = '"' then
        (takeString rest).map fun (s, r) => (.str (String.ofList (joinUnits s)), r)
      else if c = 'n' then takeWord "null" .null (c :: rest)
      else if c = 't' then takeWord "true" (.bool true) (c :: rest)
      else if c = 'f' then takeWord "false" (.bool false) (c :: rest)
      else (takeNumber (c :: rest)).map fun (n, r) => (.num n, r)

/-- One item, then `,` and the remaining items, or `]`. -/
def takeItems : Nat → List Char → Option (List Json × List Char)
  | 0, _ => none
  | fuel + 1, cs =>
    (takeValue fuel cs).bind fun (x, rest) =>
      match skipWs rest with
      | ',' :: rest' => (takeItems fuel rest').map fun (xs, r) => (x :: xs, r)
      | ']' :: rest' => some ([x], rest')
      | _ => none

def takeMembers : Nat → List Char → Option (List (String × Json) × List Char)
  | 0, _ => none
  | fuel + 1, cs =>
    match skipWs cs with
    | '"' :: afterQuote =>
      (takeString afterQuote).bind fun (units, afterKey) =>
        let k := String.ofList (joinUnits units)
        match skipWs afterKey with
        | ':' :: afterColon =>
          (takeValue fuel afterColon).bind fun (x, rest) =>
            match skipWs rest with
            | ',' :: rest' =>
                (takeMembers fuel rest').map fun (ms, r) => ((k, x) :: ms, r)
            | '\x7d' :: rest' => some ([(k, x)], rest')
            | _ => none
        | _ => none
    | _ => none

end

/-- `JSON.parse(text)`; `none` is the thrown `SyntaxError`. -/
def parse (text : String) : Option Json :=
  match takeValue (text.toList.length + 1) text.toList with
  | some (v, rest) => if skipWs rest = [] then some v else none
  | none => none

/-! ## The round trip

What each scanner does on printed text; `rest` is the text that follows. -/

theorem skipWs_append {ws : List Char} (h : ∀ c ∈ ws, isWs c = true) (cs : List Char) :
    skipWs (ws ++ cs) = skipWs cs := by
  induction ws with
  | nil => rfl
  | cons c ws ih =>
    have hc : isWs c = true := h c (by simp)
    simp only [skipWs, List.cons_append, List.dropWhile_cons, hc, if_true]
    exact ih (fun d hd => h d (by simp [hd]))

theorem skipWs_cons {c : Char} (h : isWs c = false) (cs : List Char) :
    skipWs (c :: cs) = c :: cs := by
  simp [skipWs, h]

theorem newline_isWs (gap depth : Nat) : ∀ c ∈ newline gap depth, isWs c = true := by
  intro c hc
  unfold newline at hc
  split at hc
  · cases hc
  · rcases List.mem_cons.mp hc with rfl | hc
    · rfl
    · obtain ⟨-, rfl⟩ := List.mem_replicate.mp hc
      rfl

@[simp] theorem skipWs_newline (gap depth : Nat) (cs : List Char) :
    skipWs (newline gap depth ++ cs) = skipWs cs :=
  skipWs_append (newline_isWs gap depth) cs

/-- The text that may follow a number: it cannot be read as more of it. -/
def EndsNumber (rest : List Char) : Prop :=
  ∀ c cs, rest = c :: cs → c.isDigit = false ∧ c ≠ '.' ∧ c ≠ 'e' ∧ c ≠ 'E'

theorem EndsNumber.nil : EndsNumber [] := by
  intro c cs h
  cases h

theorem EndsNumber.cons {c : Char} (h : c.isDigit = false ∧ c ≠ '.' ∧ c ≠ 'e' ∧ c ≠ 'E')
    (cs : List Char) : EndsNumber (c :: cs) := by
  intro d ds hd
  cases hd
  exact h

theorem takeDigits_append {ds rest : List Char} (hne : ds ≠ [])
    (hd : ∀ c ∈ ds, c.isDigit = true) (hr : ∀ c cs, rest = c :: cs → c.isDigit = false) :
    takeDigits (ds ++ rest) = some (ds, rest) := by
  have htake : (ds ++ rest).takeWhile Char.isDigit = ds := by
    rw [List.takeWhile_append_of_pos hd]
    cases rest with
    | nil => simp
    | cons c cs => simp [hr c cs rfl]
  have hdrop : (ds ++ rest).dropWhile Char.isDigit = rest := by
    rw [List.dropWhile_append_of_pos hd]
    cases rest with
    | nil => simp
    | cons c cs => simp [hr c cs rfl]
  unfold takeDigits
  rw [htake, hdrop]
  cases ds with
  | nil => exact absurd rfl hne
  | cons d ds => rfl

theorem toDigits_isDigit (n : Nat) : ∀ c ∈ Nat.toDigits 10 n, c.isDigit = true :=
  fun _ hc => Nat.isDigit_of_mem_toDigits (by decide) (by decide) hc

theorem takeDigits_toDigits (n : Nat) {rest : List Char}
    (hr : ∀ c cs, rest = c :: cs → c.isDigit = false) :
    takeDigits (Nat.toDigits 10 n ++ rest) = some (Nat.toDigits 10 n, rest) :=
  takeDigits_append Nat.toDigits_ne_nil (toDigits_isDigit n) hr

theorem digitChar_ne_zero : ∀ n, n < 10 → 0 < n → Nat.digitChar n ≠ '0' := by decide

/-- A positive number is printed without a leading zero. -/
theorem toDigits_head {n : Nat} (hn : 0 < n) (ds : List Char) :
    Nat.toDigits 10 n ≠ '0' :: ds := by
  induction n using Nat.strongRecOn generalizing ds with
  | ind n ih =>
    by_cases hlt : n < 10
    · rw [Nat.toDigits_of_lt_base hlt]
      intro h
      exact digitChar_ne_zero n hlt hn (List.cons.inj h).1
    · rw [Nat.toDigits_of_base_le (by decide) (by omega)]
      cases hd : Nat.toDigits 10 (n / 10) with
      | nil => exact absurd hd Nat.toDigits_ne_nil
      | cons c cs =>
        intro h
        have hc : c = '0' := by simpa using (List.cons.inj h).1
        subst hc
        exact ih (n / 10) (by omega) (by omega) cs hd

/-! ## Numbers -/

theorem takeInt_print (n : Nat) {rest : List Char} (hr : EndsNumber rest ∨ ∃ cs, rest = '.' :: cs
    ∨ rest = 'e' :: cs) :
    takeInt (Nat.toDigits 10 n ++ rest) = some (n, rest) := by
  have hdigit : ∀ c cs, rest = c :: cs → c.isDigit = false := by
    intro c cs h
    rcases hr with hr | ⟨ds, rfl | rfl⟩
    · exact (hr c cs h).1
    · cases h; rfl
    · cases h; rfl
  by_cases hn : n = 0
  · subst hn
    simp [takeInt]
  · have hsplit : takeInt (Nat.toDigits 10 n ++ rest)
        = (takeDigits (Nat.toDigits 10 n ++ rest)).map
            (fun p => (Nat.ofDigitChars 10 p.1 0, p.2)) := by
      cases hd : Nat.toDigits 10 n with
      | nil => exact absurd hd Nat.toDigits_ne_nil
      | cons c cs =>
        -- else `takeInt` would stop after the zero
        have hc : c ≠ '0' := by
          rintro rfl
          exact toDigits_head (by omega) cs hd
        simp only [List.cons_append]
        unfold takeInt
        split
        · rename_i heq
          exact absurd (List.cons.inj heq).1 hc
        · rfl
    rw [hsplit, takeDigits_toDigits n hdigit]
    simp [Nat.ofDigitChars_ten_toDigits]

theorem digitOf_digitChar (d : Fin 10) : digitOf (digitChar d) = d := by
  revert d
  decide

theorem digitChar_isDigit (d : Fin 10) : (digitChar d).isDigit = true := by
  revert d
  decide

theorem takeFrac_print (frac : List (Fin 10)) {rest : List Char}
    (hr : EndsNumber rest ∨ ∃ cs, rest = 'e' :: cs) :
    takeFrac (printFrac frac ++ rest) = some (frac, rest) := by
  have hhead : ∀ c cs, rest = c :: cs → c.isDigit = false ∧ c ≠ '.' := by
    intro c cs h
    rcases hr with hr | ⟨ds, rfl⟩
    · exact ⟨(hr c cs h).1, (hr c cs h).2.1⟩
    · cases h
      decide
  by_cases hf : frac = []
  · subst hf
    rw [printFrac, if_pos rfl, List.nil_append]
    unfold takeFrac
    split
    · exact absurd rfl (hhead _ _ rfl).2
    · rfl
  · rw [printFrac, if_neg hf, List.cons_append]
    simp only [takeFrac]
    rw [takeDigits_append (by simpa using hf) _ (fun c cs h => (hhead c cs h).1)]
    · simp [Function.comp_def, digitOf_digitChar]
    · intro c hc
      obtain ⟨d, -, rfl⟩ := List.mem_map.mp hc
      exact digitChar_isDigit d

theorem takeExponent_print (e : Int) {rest : List Char} (hr : EndsNumber rest) :
    takeExponent (printExponent e ++ rest) = some (e, rest) := by
  have hdigit := fun c cs h => (hr c cs h).1
  cases e with
  | ofNat n =>
    simp only [printExponent, List.cons_append, takeExponent]
    rw [takeDigits_toDigits n hdigit]
    simp [Nat.ofDigitChars_ten_toDigits]
  | negSucc n =>
    simp only [printExponent, List.cons_append, takeExponent]
    rw [takeDigits_toDigits (n + 1) hdigit]
    simp [Nat.ofDigitChars_ten_toDigits, Int.negSucc_eq]

theorem takeExp_print (e : Int) {rest : List Char} (hr : EndsNumber rest) :
    takeExp (printExp e ++ rest) = some (e, rest) := by
  by_cases he : e = 0
  · subst he
    rw [printExp, if_pos rfl, List.nil_append]
    unfold takeExp
    split
    · exact absurd rfl (hr _ _ rfl).2.2.1
    · exact absurd rfl (hr _ _ rfl).2.2.2
    · rfl
  · rw [printExp, if_neg he, List.cons_append]
    exact takeExponent_print e hr

theorem takeSign_print (neg : Bool) (n : Nat) (rest : List Char) :
    takeSign ((if neg then ['-'] else []) ++ (Nat.toDigits 10 n ++ rest))
      = (neg, Nat.toDigits 10 n ++ rest) := by
  cases neg with
  | true => rfl
  | false =>
    cases hd : Nat.toDigits 10 n with
    | nil => exact absurd hd Nat.toDigits_ne_nil
    | cons c cs =>
      have hc : c.isDigit = true := toDigits_isDigit n c (by simp [hd])
      simp only [Bool.false_eq_true, if_false, List.nil_append, List.cons_append]
      unfold takeSign
      split
      · rename_i heq
        obtain ⟨rfl, -⟩ := List.cons.inj heq
        exact absurd hc (by decide)
      · rfl

theorem takeNumber_print (n : Number) {rest : List Char} (hr : EndsNumber rest) :
    takeNumber (printNumber n ++ rest) = some (n, rest) := by
  obtain ⟨neg, int, frac, exp⟩ := n
  -- what follows the fraction, and what follows the integer part
  have hexp : EndsNumber (printExp exp ++ rest) ∨ ∃ cs, printExp exp ++ rest = 'e' :: cs := by
    by_cases he : exp = 0
    · exact .inl (by simpa [printExp, he] using hr)
    · exact .inr ⟨printExponent exp ++ rest, by simp [printExp, he]⟩
  have hfrac : EndsNumber (printFrac frac ++ (printExp exp ++ rest))
      ∨ ∃ cs, printFrac frac ++ (printExp exp ++ rest) = '.' :: cs
        ∨ printFrac frac ++ (printExp exp ++ rest) = 'e' :: cs := by
    by_cases hf : frac = []
    · rcases hexp with h | ⟨cs, h⟩
      · exact .inl (by simpa [printFrac, hf] using h)
      · exact .inr ⟨cs, .inr (by simpa [printFrac, hf] using h)⟩
    · exact .inr ⟨frac.map digitChar ++ (printExp exp ++ rest), .inl (by simp [printFrac, hf])⟩
  simp only [takeNumber, printNumber, List.append_assoc]
  rw [takeSign_print]
  simp only
  rw [takeInt_print int hfrac]
  simp only [Option.bind_some]
  rw [takeFrac_print frac hexp]
  simp only [Option.bind_some]
  rw [takeExp_print exp hr]
  rfl

/-! ## Strings -/

/-- A character is never a surrogate. -/
theorem toNat_surrogate (c : Char) : isHigh c.toNat = false ∧ isLow c.toNat = false := by
  have hvalid := c.valid
  simp only [UInt32.isValidChar, Nat.isValidChar] at hvalid
  simp only [isHigh, isLow, Char.toNat, Bool.and_eq_false_iff, decide_eq_false_iff_not]
  omega

theorem unitChar_toNat (c : Char) : unitChar c.toNat = c := by
  simp [unitChar, (toNat_surrogate c).1, (toNat_surrogate c).2]

theorem joinUnits_toNat (s : List Char) : joinUnits (s.map Char.toNat) = s := by
  induction s with
  | nil => rfl
  | cons c s ih =>
    cases s with
    | nil => simp [joinUnits, unitChar_toNat]
    | cons d s =>
      -- no unit of a printed character starts a surrogate pair
      simp only [List.map_cons, joinUnits, (toNat_surrogate c).1, Bool.false_and, Bool.false_eq_true,
        if_false, unitChar_toNat] at ih ⊢
      rw [ih]

theorem hex4?_control : ∀ n, n < 32 →
    hex4? '0' '0' (Nat.digitChar (n / 16)) (Nat.digitChar (n % 16)) = some n := by decide

theorem takeString_quote (cs : List Char) : takeString ('"' :: cs) = some ([], cs) := by
  unfold takeString
  rfl

theorem takeString_backslash (e ch : Char) (hu : e ≠ 'u') (h : unescape? e = some ch)
    (cs : List Char) : takeString ('\\' :: e :: cs)
      = (takeString cs).map fun (s, r) => (ch.toNat :: s, r) := by
  rw [takeString.eq_def]
  simp [hu, h]

theorem takeString_unicode {a b x y : Char} {u : Nat} (h : hex4? a b x y = some u)
    (cs : List Char) : takeString ('\\' :: 'u' :: a :: b :: x :: y :: cs)
      = (takeString cs).map fun (s, r) => (u :: s, r) := by
  rw [takeString.eq_def]
  simp [h]

theorem takeString_plain {c : Char} (hq : c ≠ '"') (hb : c ≠ '\\') (hc : ¬ c.toNat < 32)
    (cs : List Char) :
    takeString (c :: cs) = (takeString cs).map fun (s, r) => (c.toNat :: s, r) := by
  rw [takeString.eq_def]
  simp [hq, hb, hc]

theorem takeString_escape (c : Char) (cs : List Char) :
    takeString (escape c ++ cs) = (takeString cs).map fun (s, r) => (c.toNat :: s, r) := by
  unfold escape
  split_ifs with hquote hback h8 h9 h10 h12 h13 hctl
  · rw [hquote]
    exact takeString_backslash '"' '"' (by decide) rfl cs
  · rw [hback]
    exact takeString_backslash '\\' '\\' (by decide) rfl cs
  · rw [h8]
    exact takeString_backslash 'b' (Char.ofNat 8) (by decide) rfl cs
  · rw [h9]
    exact takeString_backslash 't' '\t' (by decide) rfl cs
  · rw [h10]
    exact takeString_backslash 'n' '\n' (by decide) rfl cs
  · rw [h12]
    exact takeString_backslash 'f' (Char.ofNat 12) (by decide) rfl cs
  · rw [h13]
    exact takeString_backslash 'r' '\r' (by decide) rfl cs
  · exact takeString_unicode (hex4?_control c.toNat hctl) cs
  · exact takeString_plain hquote hback hctl cs

theorem takeString_print (s cs : List Char) :
    takeString (s.flatMap escape ++ '"' :: cs) = some (s.map Char.toNat, cs) := by
  induction s with
  | nil => exact takeString_quote cs
  | cons c s ih =>
    rw [List.flatMap_cons, List.append_assoc, takeString_escape, ih]
    rfl

/-! ## Values -/

theorem endsNumber_newline (gap depth : Nat) {rest : List Char} (h : EndsNumber rest) :
    EndsNumber (newline gap depth ++ rest) := by
  unfold newline
  split
  · exact h
  · exact EndsNumber.cons (by decide) _

theorem endsNumber_items (gap depth : Nat) (xs : List Json) (rest : List Char) :
    EndsNumber (printMoreItems gap depth xs ++ rest) := by
  cases xs with
  | nil =>
    simp only [printMoreItems, List.append_assoc]
    exact endsNumber_newline gap depth (EndsNumber.cons (by decide) _)
  | cons x xs => exact EndsNumber.cons (by decide) _

theorem endsNumber_members (gap depth : Nat) (ms : List (String × Json)) (rest : List Char) :
    EndsNumber (printMoreMembers gap depth ms ++ rest) := by
  cases ms with
  | nil =>
    simp only [printMoreMembers, List.append_assoc]
    exact endsNumber_newline gap depth (EndsNumber.cons (by decide) _)
  | cons m ms => exact EndsNumber.cons (by decide) _

/-- The first character of a printed number: neither white space nor the
start of any other value. -/
theorem printNumber_head (n : Number) : ∃ c cs, printNumber n = c :: cs ∧
    (c = '-' ∨ c.isDigit = true) := by
  obtain ⟨neg, int, frac, exp⟩ := n
  cases neg with
  | true => exact ⟨'-', _, rfl, .inl rfl⟩
  | false =>
    cases hd : Nat.toDigits 10 int with
    | nil => exact absurd hd Nat.toDigits_ne_nil
    | cons c cs =>
      exact ⟨c, cs ++ printFrac frac ++ printExp exp, by simp [printNumber, hd],
        .inr (toDigits_isDigit int c (by simp [hd]))⟩

theorem takeValue_number (fuel : Nat) (n : Number) {rest : List Char} (hr : EndsNumber rest) :
    takeValue (fuel + 1) (printNumber n ++ rest) = some (.num n, rest) := by
  obtain ⟨c, cs, hc, hhead⟩ := printNumber_head n
  have hnot : ∀ d : Char, d ≠ '-' → d.isDigit = false → c ≠ d := by
    intro d hd hdig heq
    subst heq
    rcases hhead with h | h
    · exact hd h
    · rw [hdig] at h
      cases h
  have hws : isWs c = false := by
    simp [isWs, hnot ' ' (by decide) rfl, hnot '\n' (by decide) rfl, hnot '\t' (by decide) rfl,
      hnot '\r' (by decide) rfl]
  have htake := takeNumber_print n hr
  rw [hc, List.cons_append] at htake ⊢
  rw [takeValue, skipWs_cons hws]
  simp only [if_neg (hnot '[' (by decide) rfl), if_neg (hnot '\x7b' (by decide) rfl),
    if_neg (hnot '"' (by decide) rfl), if_neg (hnot 'n' (by decide) rfl),
    if_neg (hnot 't' (by decide) rfl), if_neg (hnot 'f' (by decide) rfl), htake]
  rfl

theorem takeValue_string (fuel : Nat) (s : String) (rest : List Char) :
    takeValue (fuel + 1) (printString s ++ rest) = some (.str s, rest) := by
  simp only [printString, List.cons_append, List.append_assoc, takeValue]
  rw [skipWs_cons (by decide)]
  simp [takeString_print, joinUnits_toNat]

theorem takeValue_newline (gap depth fuel : Nat) (cs : List Char) :
    takeValue fuel (newline gap depth ++ cs) = takeValue fuel cs := by
  cases fuel with
  | zero => simp only [takeValue]
  | succ fuel => simp only [takeValue, skipWs_newline]

/-- A printed value starts with neither white space nor a closing bracket. -/
theorem print_head (gap depth : Nat) (v : Json) :
    ∃ c cs, print gap depth v = c :: cs ∧ isWs c = false ∧ c ≠ ']' := by
  cases v with
  | null => exact ⟨'n', "ull".toList, by simp [print], by decide, by decide⟩
  | bool b =>
    cases b with
    | true => exact ⟨'t', "rue".toList, by simp [print], by decide, by decide⟩
    | false => exact ⟨'f', "alse".toList, by simp [print], by decide, by decide⟩
  | num n =>
    obtain ⟨c, cs, hc, hhead⟩ := printNumber_head n
    refine ⟨c, cs, by simp [print, hc], ?_, ?_⟩
    · rcases hhead with rfl | h
      · rfl
      · simp only [isWs, Bool.or_eq_false_iff, beq_eq_false_iff_ne]
        refine ⟨⟨⟨?_, ?_⟩, ?_⟩, ?_⟩ <;> (rintro rfl; exact absurd h (by decide))
    · rintro rfl
      rcases hhead with h | h
      · exact absurd h (by decide)
      · exact absurd h (by decide)
  | str s =>
    exact ⟨'"', s.toList.flatMap escape ++ ['"'], by simp [print, printString], by decide,
      by decide⟩
  | arr items => exact ⟨'[', printItems gap depth items, by simp [print], by decide, by decide⟩
  | obj members =>
    exact ⟨'\x7b', printMembers gap depth members, by simp [print], by decide, by decide⟩

theorem skipWs_print (gap depth : Nat) (v : Json) (rest : List Char) :
    ∃ c cs, skipWs (print gap depth v ++ rest) = c :: cs ∧ c ≠ ']' := by
  obtain ⟨c, cs, hc, hws, hne⟩ := print_head gap depth v
  exact ⟨c, cs ++ rest, by rw [hc, List.cons_append, skipWs_cons hws], hne⟩

theorem printMoreItems_cons (gap depth : Nat) (x : Json) (xs : List Json) :
    printMoreItems gap depth (x :: xs) = ',' :: printItems gap depth (x :: xs) := by
  simp [printMoreItems, printItems]

theorem printMoreMembers_cons (gap depth : Nat) (m : String × Json) (ms : List (String × Json)) :
    printMoreMembers gap depth (m :: ms) = ',' :: printMembers gap depth (m :: ms) := by
  simp [printMoreMembers, printMembers]

theorem printMoreItems_length (gap depth : Nat) (xs : List Json) :
    0 < (printMoreItems gap depth xs).length := by
  cases xs <;> simp [printMoreItems]

theorem printMoreMembers_length (gap depth : Nat) (ms : List (String × Json)) :
    0 < (printMoreMembers gap depth ms).length := by
  cases ms <;> simp [printMoreMembers]

theorem takeValue_space (gap fuel : Nat) (cs : List Char) :
    takeValue fuel ((if gap = 0 then [] else [' ']) ++ cs) = takeValue fuel cs := by
  split
  · rfl
  · cases fuel with
    | zero => simp only [takeValue]
    | succ fuel => simp only [takeValue, List.cons_append, List.nil_append]; rfl

mutual

/-- A printed value is read back, with enough fuel, up to where it ends. -/
theorem takeValue_print (gap : Nat) : ∀ (v : Json) (depth fuel : Nat) (rest : List Char),
    EndsNumber rest → (print gap depth v).length ≤ fuel →
    takeValue fuel (print gap depth v ++ rest) = some (v, rest)
  | v, depth, 0, rest, _, hfuel => by
    obtain ⟨c, cs, hc, -⟩ := print_head gap depth v
    simp [hc] at hfuel
  | .null, depth, fuel + 1, rest, _, _ => by simp only [print]; rfl
  | .bool true, depth, fuel + 1, rest, _, _ => by simp only [print]; rfl
  | .bool false, depth, fuel + 1, rest, _, _ => by simp only [print]; rfl
  | .num n, depth, fuel + 1, rest, hr, _ => by
    simp only [print]
    exact takeValue_number fuel n hr
  | .str s, depth, fuel + 1, rest, _, _ => by
    simp only [print]
    exact takeValue_string fuel s rest
  | .arr [], depth, fuel + 1, rest, _, _ => by simp only [print, printItems]; rfl
  | .arr (x :: xs), depth, fuel + 1, rest, _, hfuel => by
    have hitems := takeItems_print gap (x :: xs) depth fuel rest (by simp)
      (by simpa [print] using hfuel)
    -- the first item does not look like the bracket of an empty array
    obtain ⟨c, cs, hc, hne⟩ :=
      skipWs_print gap (depth + 1) x (printMoreItems gap depth xs ++ rest)
    have hskip : skipWs (printItems gap depth (x :: xs) ++ rest) = c :: cs := by
      simpa only [printItems, List.append_assoc, skipWs_newline] using hc
    simp only [print, List.cons_append, takeValue]
    rw [skipWs_cons (by decide)]
    simp only [if_true, hskip, hitems]
    split
    · rename_i heq
      exact absurd (List.cons.inj heq).1 hne
    · rfl
  | .obj [], depth, fuel + 1, rest, _, _ => by simp only [print, printMembers]; rfl
  | .obj (m :: ms), depth, fuel + 1, rest, _, hfuel => by
    have hmembers := takeMembers_print gap (m :: ms) depth fuel rest (by simp)
      (by simpa [print] using hfuel)
    obtain ⟨k, x⟩ := m
    have hskip : ∃ cs, skipWs (printMembers gap depth ((k, x) :: ms) ++ rest) = '"' :: cs := by
      simp only [printMembers, printMember, printString, List.append_assoc, skipWs_newline,
        List.cons_append]
      exact ⟨_, skipWs_cons (by decide) _⟩
    obtain ⟨cs, hskip⟩ := hskip
    simp only [print, List.cons_append, takeValue]
    rw [skipWs_cons (by decide)]
    simp only [hskip, hmembers]
    rfl

theorem takeItems_print (gap : Nat) : ∀ (items : List Json) (depth fuel : Nat) (rest : List Char),
    items ≠ [] → (printItems gap depth items).length ≤ fuel →
    takeItems fuel (printItems gap depth items ++ rest) = some (items, rest)
  | [], _, _, _, hne, _ => absurd rfl hne
  | x :: xs, depth, 0, rest, _, hfuel => by
    obtain ⟨c, cs, hc, -⟩ := print_head gap (depth + 1) x
    simp [printItems, hc] at hfuel
  | x :: xs, depth, fuel + 1, rest, _, hfuel => by
    have hmore := printMoreItems_length gap depth xs
    simp only [printItems, List.length_append] at hfuel
    have hx := takeValue_print gap x (depth + 1) fuel (printMoreItems gap depth xs ++ rest)
      (endsNumber_items gap depth xs rest) (by omega)
    simp only [printItems, List.append_assoc, takeItems]
    rw [takeValue_newline, hx]
    cases xs with
    | nil =>
      simp only [printMoreItems, List.append_assoc, Option.bind_some, skipWs_newline]
      rfl
    | cons y ys =>
      rw [printMoreItems_cons] at hfuel ⊢
      have hys := takeItems_print gap (y :: ys) depth fuel rest (by simp)
        (by simp only [List.length_cons] at hfuel; omega)
      simp only [Option.bind_some, List.cons_append]
      rw [skipWs_cons (by decide)]
      simp [hys]

theorem takeMembers_print (gap : Nat) : ∀ (members : List (String × Json)) (depth fuel : Nat)
    (rest : List Char), members ≠ [] → (printMembers gap depth members).length ≤ fuel →
    takeMembers fuel (printMembers gap depth members ++ rest) = some (members, rest)
  | [], _, _, _, hne, _ => absurd rfl hne
  | (k, x) :: ms, depth, 0, rest, _, hfuel => by
    simp [printMembers, printMember, printString] at hfuel
  | (k, x) :: ms, depth, fuel + 1, rest, _, hfuel => by
    have hmore := printMoreMembers_length gap depth ms
    simp only [printMembers, printMember, List.length_append, List.length_cons] at hfuel
    have hx := takeValue_print gap x (depth + 1) fuel (printMoreMembers gap depth ms ++ rest)
      (endsNumber_members gap depth ms rest) (by omega)
    simp only [printMembers, printMember, printString, List.append_assoc, List.cons_append,
      takeMembers, skipWs_newline, List.nil_append]
    rw [skipWs_cons (by decide)]
    simp only [takeString_print, Option.bind_some, joinUnits_toNat, String.ofList_toList]
    rw [skipWs_cons (by decide)]
    simp only [takeValue_space, hx, Option.bind_some]
    cases ms with
    | nil =>
      simp only [printMoreMembers, List.append_assoc, skipWs_newline]
      rfl
    | cons m ms =>
      rw [printMoreMembers_cons] at hfuel ⊢
      have hms := takeMembers_print gap (m :: ms) depth fuel rest (by simp)
        (by simp only [List.length_cons] at hfuel; omega)
      simp only [List.cons_append]
      rw [skipWs_cons (by decide)]
      simp [hms]

end

/-- `JSON.parse` inverts `JSON.stringify`, at every indentation. -/
theorem parse_stringify (v : Json) (gap : Nat) : parse (stringify v gap) = some v := by
  have h := takeValue_print gap v 0 ((print gap 0 v).length + 1) [] .nil (by omega)
  rw [List.append_nil] at h
  simp [parse, stringify, h, skipWs]

end Json

end AutoQa.Base
