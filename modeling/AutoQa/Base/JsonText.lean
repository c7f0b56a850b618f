import AutoQa.Base.Json
import AutoQa.Base.Text

/-!
# The texts that are read as a document

A text that `parse` accepts is a document between white space. Where the document
begins and where it ends can be told from the text alone, and it is read alike in
front of whatever may follow it. So white space around a document can be removed,
added or exchanged.
-/

namespace AutoQa.Base.Json

/-- `scan` reads `used` as `a` in front of every text that satisfies `F`. -/
def Reads {α : Type} (scan : List Char → Option (α × List Char)) (F : List Char → Prop)
    (used : List Char) (a : α) : Prop :=
  ∀ rest, F rest → scan (used ++ rest) = some (a, rest)

/-! ## Numbers -/

def NoDigit (rest : List Char) : Prop := ∀ c cs, rest = c :: cs → c.isDigit = false

/-- A non-empty run of digits. -/
def Digits (ds : List Char) : Prop := ds ≠ [] ∧ ∀ c ∈ ds, c.isDigit = true

theorem takeDigits_used {cs ds rest : List Char} (h : takeDigits cs = some (ds, rest)) :
    cs = ds ++ rest ∧ Digits ds ∧ Reads takeDigits NoDigit ds ds := by
  unfold takeDigits at h
  split at h
  · cases h
  · next hne =>
    cases h
    have hall : ∀ c ∈ cs.takeWhile Char.isDigit, c.isDigit = true := List.all_eq_true.mp List.all_takeWhile
    exact ⟨List.takeWhile_append_dropWhile.symm, ⟨hne, hall⟩, fun rest hrest =>
      takeDigits_append hne hall hrest⟩

/-- The digits behind a sign or a point. -/
theorem mapDigits_used {α : Type} (f : List Char → α) {cs rest : List Char} {a : α}
    (h : ((takeDigits cs).map fun p => (f p.1, p.2)) = some (a, rest)) :
    ∃ ds, cs = ds ++ rest ∧ Digits ds ∧
      Reads (fun cs => (takeDigits cs).map fun p => (f p.1, p.2)) NoDigit ds a := by
  obtain ⟨⟨ds, r⟩, hdigits, hpair⟩ := Option.map_eq_some_iff.mp h
  cases hpair
  obtain ⟨hcs, hds, hread⟩ := takeDigits_used hdigits
  exact ⟨ds, hcs, hds, fun rest hrest => by simp [hread rest hrest]⟩

theorem Digits.head {ds : List Char} (h : Digits ds) : ∃ d tail, ds = d :: tail ∧ d.isDigit = true := by
  obtain ⟨hne, hall⟩ := h
  cases ds with
  | nil => exact absurd rfl hne
  | cons d tail => exact ⟨d, tail, rfl, hall d (by simp)⟩

theorem takeInt_used {cs rest : List Char} {n : Nat} (h : takeInt cs = some (n, rest)) :
    ∃ used, cs = used ++ rest ∧ Digits used ∧ Reads takeInt NoDigit used n := by
  unfold takeInt at h
  split at h
  · cases h
    exact ⟨['0'], rfl, ⟨by simp, List.all_eq_true.mp rfl⟩, fun _ _ => rfl⟩
  · next hzero =>
    obtain ⟨ds, rfl, hds, hread⟩ := mapDigits_used (Nat.ofDigitChars 10 · 0) h
    refine ⟨ds, rfl, hds, fun rest' hrest => ?_⟩
    obtain ⟨d, tail, rfl, -⟩ := hds.head
    unfold takeInt
    split
    · -- the digits start with a zero there if they do here
      next heq =>
      obtain ⟨rfl, -⟩ := List.cons.inj heq
      exact absurd rfl (hzero _)
    · exact hread rest' hrest

theorem takeFrac_used {cs rest : List Char} {frac : List (Fin 10)}
    (h : takeFrac cs = some (frac, rest)) :
    ∃ used, cs = used ++ rest ∧ (used = [] ∨ ∃ ds, used = '.' :: ds ∧ Digits ds) ∧
      Reads takeFrac (fun rest => NoDigit rest ∧ ∀ cs, rest ≠ '.' :: cs) used frac := by
  unfold takeFrac at h
  split at h
  · obtain ⟨ds, rfl, hds, hread⟩ := mapDigits_used (List.map digitOf) h
    exact ⟨'.' :: ds, rfl, .inr ⟨ds, rfl, hds⟩, fun rest' hrest => hread rest' hrest.1⟩
  · cases h
    refine ⟨[], rfl, .inl rfl, fun rest' hrest => ?_⟩
    rw [List.nil_append]
    unfold takeFrac
    split
    · exact absurd rfl (hrest.2 _)
    · rfl

theorem takeExponent_used {cs rest : List Char} {exp : Int}
    (h : takeExponent cs = some (exp, rest)) :
    ∃ sign ds, cs = sign ++ ds ++ rest ∧ Digits ds ∧ Reads takeExponent NoDigit (sign ++ ds) exp := by
  unfold takeExponent at h
  split at h
  · obtain ⟨ds, rfl, hds, hread⟩ := mapDigits_used (fun ds => -(Nat.ofDigitChars 10 ds 0 : Int)) h
    exact ⟨['-'], ds, rfl, hds, hread⟩
  · obtain ⟨ds, rfl, hds, hread⟩ := mapDigits_used (fun ds => (Nat.ofDigitChars 10 ds 0 : Int)) h
    exact ⟨['+'], ds, rfl, hds, hread⟩
  · obtain ⟨ds, rfl, hds, hread⟩ := mapDigits_used (fun ds => (Nat.ofDigitChars 10 ds 0 : Int)) h
    refine ⟨[], ds, rfl, hds, fun rest' hrest => ?_⟩
    obtain ⟨d, tail, rfl, hdigit⟩ := hds.head
    unfold takeExponent
    split
    · next heq =>
      obtain ⟨rfl, -⟩ := List.cons.inj heq
      cases hdigit
    · next heq =>
      obtain ⟨rfl, -⟩ := List.cons.inj heq
      cases hdigit
    · exact hread rest' hrest

theorem takeExp_used {cs rest : List Char} {exp : Int} (h : takeExp cs = some (exp, rest)) :
    ∃ used, cs = used ++ rest ∧
      (used = [] ∨ ∃ mark sign ds, (mark = 'e' ∨ mark = 'E') ∧ used = mark :: (sign ++ ds) ∧ Digits ds) ∧
      Reads takeExp EndsNumber used exp := by
  unfold takeExp at h
  split at h
  · obtain ⟨sign, ds, rfl, hds, hread⟩ := takeExponent_used h
    exact ⟨'e' :: (sign ++ ds), rfl, .inr ⟨'e', sign, ds, .inl rfl, rfl, hds⟩,
      fun rest' hrest => hread rest' fun c cs hc => (hrest c cs hc).1⟩
  · obtain ⟨sign, ds, rfl, hds, hread⟩ := takeExponent_used h
    exact ⟨'E' :: (sign ++ ds), rfl, .inr ⟨'E', sign, ds, .inr rfl, rfl, hds⟩,
      fun rest' hrest => hread rest' fun c cs hc => (hrest c cs hc).1⟩
  · cases h
    refine ⟨[], rfl, .inl rfl, fun rest' hrest => ?_⟩
    rw [List.nil_append]
    unfold takeExp
    split
    · exact absurd rfl (hrest _ _ rfl).2.2.1
    · exact absurd rfl (hrest _ _ rfl).2.2.2
    · rfl

/-- The first character of a document. -/
def StartsValue (c : Char) : Prop := c ∈ ['[', '\x7b', '"', 'n', 't', 'f', '-'] ∨ c.isDigit = true

/-- The last character of a document. -/
def EndsValue (c : Char) : Prop := c ∈ [']', '\x7d', '"', 'l', 'e'] ∨ c.isDigit = true

/-- Where a document begins and ends. -/
structure Framed (used : List Char) : Prop where
  starts : ∃ c tail, used = c :: tail ∧ StartsValue c
  ends : ∃ init c, used = init ++ [c] ∧ EndsValue c

theorem Digits.ends {ds : List Char} (h : Digits ds) (before : List Char) :
    ∃ init c, before ++ ds = init ++ [c] ∧ EndsValue c := by
  obtain ⟨hne, hall⟩ := h
  refine ⟨before ++ ds.dropLast, ds.getLast hne, ?_, .inr (hall _ (List.getLast_mem hne))⟩
  rw [List.append_assoc, List.dropLast_concat_getLast]

theorem takeSign_used (cs : List Char) : ∃ sign, cs = sign ++ (takeSign cs).2 ∧
    (sign = ['-'] ∧ (takeSign cs).1 = true ∨ sign = [] ∧ (takeSign cs).1 = false) := by
  unfold takeSign
  split
  · exact ⟨['-'], rfl, .inl ⟨rfl, rfl⟩⟩
  · exact ⟨[], rfl, .inr ⟨rfl, rfl⟩⟩

/-- A sign is read in front of digits. -/
theorem takeSign_digits {sign ds : List Char} {neg : Bool} (hds : Digits ds)
    (hsign : sign = ['-'] ∧ neg = true ∨ sign = [] ∧ neg = false) (rest : List Char) :
    takeSign (sign ++ (ds ++ rest)) = (neg, ds ++ rest) := by
  obtain ⟨d, tail, rfl, hdigit⟩ := hds.head
  rcases hsign with ⟨rfl, rfl⟩ | ⟨rfl, rfl⟩
  · rfl
  · rw [List.nil_append]
    unfold takeSign
    split
    · next heq =>
      obtain ⟨rfl, -⟩ := List.cons.inj heq
      cases hdigit
    · rfl

theorem takeNumber_used {cs rest : List Char} {n : Number} (h : takeNumber cs = some (n, rest)) :
    ∃ used, cs = used ++ rest ∧ (∃ c tail, used = c :: tail ∧ (c = '-' ∨ c.isDigit = true)) ∧
      (∃ init c, used = init ++ [c] ∧ EndsValue c) ∧ Reads takeNumber EndsNumber used n := by
  obtain ⟨sign, hcs, hsign⟩ := takeSign_used cs
  cases htake : takeSign cs with
  | mk neg afterSign =>
  rw [htake] at hcs hsign
  simp only [takeNumber, htake] at h
  obtain ⟨⟨int, afterInt⟩, hint, h⟩ := Option.bind_eq_some_iff.mp h
  obtain ⟨⟨frac, afterFrac⟩, hfrac, h⟩ := Option.bind_eq_some_iff.mp h
  obtain ⟨⟨exp, afterExp⟩, hexp, hpair⟩ := Option.map_eq_some_iff.mp h
  cases hpair
  obtain ⟨ints, rfl, hints, hreadInt⟩ := takeInt_used hint
  obtain ⟨fracs, rfl, hfracs, hreadFrac⟩ := takeFrac_used hfrac
  obtain ⟨exps, rfl, hexps, hreadExp⟩ := takeExp_used hexp
  refine ⟨sign ++ (ints ++ (fracs ++ exps)), by simp [hcs], ?_, ?_, fun rest' hrest => ?_⟩
  · obtain ⟨d, tail, rfl, hdigit⟩ := hints.head
    rcases hsign with ⟨rfl, -⟩ | ⟨rfl, -⟩
    · exact ⟨'-', _, rfl, .inl rfl⟩
    · exact ⟨d, _, rfl, .inr hdigit⟩
  · -- the last part that is there ends with a digit
    rcases hexps with rfl | ⟨mark, s, ds, -, rfl, hds⟩
    · rcases hfracs with rfl | ⟨ds, rfl, hds⟩
      · simpa using hints.ends sign
      · simpa using hds.ends (sign ++ ints ++ ['.'])
    · simpa using hds.ends (sign ++ ints ++ fracs ++ mark :: s)
  · have hafterFrac : NoDigit (exps ++ rest') ∧ ∀ cs, exps ++ rest' ≠ '.' :: cs := by
      rcases hexps with rfl | ⟨mark, s, ds, hmark, rfl, -⟩
      · exact ⟨fun c cs hc => (hrest c cs hc).1, fun cs hc => (hrest _ _ hc).2.1 rfl⟩
      · refine ⟨fun c cs hc => ?_, fun cs hc => ?_⟩
        · obtain ⟨rfl, -⟩ := List.cons.inj hc
          rcases hmark with rfl | rfl <;> rfl
        · obtain ⟨rfl, -⟩ := List.cons.inj hc
          rcases hmark with h | h <;> cases h
    have hafterInt : NoDigit (fracs ++ (exps ++ rest')) := by
      rcases hfracs with rfl | ⟨ds, rfl, -⟩
      · exact hafterFrac.1
      · intro c cs hc
        obtain ⟨rfl, -⟩ := List.cons.inj hc
        rfl
    simp only [takeNumber, List.append_assoc]
    rw [takeSign_digits hints hsign]
    simp only [hreadInt _ hafterInt, hreadFrac _ hafterFrac, hreadExp _ hrest, Option.bind_some,
      Option.map_some]

/-! ## Strings -/

/-- The text of a string, with its closing quote, is read alike whatever follows. -/
def StringText (used : List Char) (units : List Nat) : Prop :=
  (∃ init, used = init ++ ['"']) ∧ Reads takeString (fun _ => True) used units

/-- One character or escape more in front. -/
theorem StringText.cons {head used : List Char} {u : Nat} {units : List Nat}
    (hhead : ∀ cs, takeString (head ++ cs) = (takeString cs).map fun (s, r) => (u :: s, r))
    (h : StringText used units) : StringText (head ++ used) (u :: units) := by
  obtain ⟨⟨init, rfl⟩, hread⟩ := h
  refine ⟨⟨head ++ init, by simp⟩, fun rest' _ => ?_⟩
  rw [List.append_assoc, hhead, hread rest' trivial]
  rfl

theorem takeString_used (cs : List Char) : ∀ {units : List Nat} {rest : List Char},
    takeString cs = some (units, rest) → ∃ used, cs = used ++ rest ∧ StringText used units := by
  have hmore : ∀ (head : List Char) {cs : List Char} {u : Nat}, (∀ {units : List Nat} {rest : List Char},
      takeString cs = some (units, rest) → ∃ used, cs = used ++ rest ∧ StringText used units) →
      (∀ cs, takeString (head ++ cs) = (takeString cs).map fun (s, r) => (u :: s, r)) →
      ∀ {units : List Nat} {rest : List Char}, takeString (head ++ cs) = some (units, rest) →
        ∃ used, head ++ cs = used ++ rest ∧ StringText used units := by
    intro head cs u ih hhead units rest h
    rw [hhead] at h
    obtain ⟨⟨us, r⟩, hrest, hpair⟩ := Option.map_eq_some_iff.mp h
    cases hpair
    obtain ⟨used, rfl, hused⟩ := ih hrest
    exact ⟨head ++ used, by simp, hused.cons hhead⟩
  induction cs using takeString.induct with
  | case1 => exact fun h => nomatch h
  | case2 es =>
    intro units rest h
    rw [takeString_quote] at h
    cases h
    exact ⟨['"'], rfl, ⟨[], rfl⟩, fun rest' _ => takeString_quote rest'⟩
  | case3 _ => exact fun h => nomatch h
  | case4 a b x y es _ ih =>
    intro units rest h
    cases hhex : hex4? a b x y with
    | none =>
      rw [takeString.eq_def] at h
      simp [hhex] at h
    | some u => exact hmore ['\\', 'u', a, b, x, y] ih (takeString_unicode hhex) h
  | case5 es hshort _ =>
    intro units rest h
    rw [takeString.eq_def] at h
    simp only [if_true] at h
    split at h
    · next hquote => exact absurd hquote (by decide)
    · cases h
  | case6 e es hu _ ih =>
    intro units rest h
    cases hescape : unescape? e with
    | none =>
      rw [takeString.eq_def] at h
      simp [hu, hescape] at h
    | some ch => exact hmore ['\\', e] ih (takeString_backslash e ch hu hescape) h
  | case7 c es hq hb hctl =>
    intro units rest h
    rw [takeString.eq_def] at h
    simp [hq, hb, hctl] at h
  | case8 c es hq hb hctl ih =>
    exact fun h => hmore [c] ih (takeString_plain hq hb hctl) h

/-! ## Values -/

/-- White space between the tokens of a document. -/
def White (ws : List Char) : Prop := ∀ c ∈ ws, isWs c = true

theorem skipWs_split (cs : List Char) : ∃ ws, cs = ws ++ skipWs cs ∧ White ws :=
  ⟨cs.takeWhile isWs, List.takeWhile_append_dropWhile.symm, List.all_eq_true.mp List.all_takeWhile⟩

theorem StartsValue.isWs {c : Char} (h : StartsValue c) : isWs c = false := by
  rcases h with h | h
  · exact eq_false_of_ne_true (List.any_eq_false.mp (by decide) c h)
  · simp only [Json.isWs, Bool.or_eq_false_iff, beq_eq_false_iff_ne]
    refine ⟨⟨⟨?_, ?_⟩, ?_⟩, ?_⟩ <;> (rintro rfl; cases h)

/-- The text of a value, read alike in front of whatever does not continue a number. -/
structure ValueText (used : List Char) (v : Json) : Prop where
  framed : Framed used
  reads : ∀ fuel, used.length ≤ fuel + 1 → Reads (takeValue (fuel + 1)) EndsNumber used v

/-- The items of an array behind its bracket. -/
structure ItemsText (used : List Char) (xs : List Json) : Prop where
  starts : ∃ ws c tail, used = ws ++ c :: tail ∧ White ws ∧ StartsValue c
  ends : ∃ init, used = init ++ [']']
  reads : ∀ fuel, used.length ≤ fuel → Reads (takeItems fuel) (fun _ => True) used xs

structure MembersText (used : List Char) (ms : List (String × Json)) : Prop where
  starts : ∃ ws tail, used = ws ++ '"' :: tail ∧ White ws
  ends : ∃ init, used = init ++ ['\x7d']
  reads : ∀ fuel, used.length ≤ fuel → Reads (takeMembers fuel) (fun _ => True) used ms

theorem takeWord_used {word : String} {v v' : Json} {cs rest : List Char}
    (h : takeWord word v cs = some (v', rest)) : v' = v ∧ cs = word.toList ++ rest := by
  unfold takeWord at h
  split at h
  · next hprefix =>
    cases h
    obtain ⟨tail, rfl⟩ := List.isPrefixOf_iff_prefix.mp hprefix
    exact ⟨rfl, by simp⟩
  · cases h

theorem valueText_null : ValueText "null".toList .null :=
  ⟨⟨⟨'n', _, rfl, .inl (by simp)⟩, ⟨['n', 'u', 'l'], 'l', rfl, .inl (by simp)⟩⟩, fun _ _ _ _ => rfl⟩

theorem valueText_true : ValueText "true".toList (.bool true) :=
  ⟨⟨⟨'t', _, rfl, .inl (by simp)⟩, ⟨['t', 'r', 'u'], 'e', rfl, .inl (by simp)⟩⟩, fun _ _ _ _ => rfl⟩

theorem valueText_false : ValueText "false".toList (.bool false) :=
  ⟨⟨⟨'f', _, rfl, .inl (by simp)⟩, ⟨['f', 'a', 'l', 's'], 'e', rfl, .inl (by simp)⟩⟩,
    fun _ _ _ _ => rfl⟩

theorem StringText.value {used : List Char} {units : List Nat} (h : StringText used units) :
    ValueText ('"' :: used) (.str (String.ofList (joinUnits units))) := by
  obtain ⟨⟨init, rfl⟩, hread⟩ := h
  refine ⟨⟨⟨'"', _, rfl, .inl (by simp)⟩, ⟨'"' :: init, '"', rfl, .inl (by simp)⟩⟩, ?_⟩
  intro fuel _ rest _
  simp only [List.cons_append, takeValue]
  rw [skipWs_cons (by decide)]
  simp only [hread rest trivial]
  rfl

theorem valueText_emptyArr {ws : List Char} (hws : White ws) : ValueText ('[' :: (ws ++ [']'])) (.arr []) := by
  refine ⟨⟨⟨'[', _, rfl, .inl (by simp)⟩, ⟨'[' :: ws, ']', rfl, .inl (by simp)⟩⟩, ?_⟩
  intro fuel _ rest _
  have hskip : skipWs (ws ++ [']'] ++ rest) = ']' :: rest := by
    rw [List.append_assoc, skipWs_append hws]
    exact skipWs_cons (by decide) rest
  simp only [List.cons_append, takeValue]
  rw [skipWs_cons (by decide)]
  simp only [if_true, hskip]

theorem valueText_emptyObj {ws : List Char} (hws : White ws) :
    ValueText ('\x7b' :: (ws ++ ['\x7d'])) (.obj []) := by
  refine ⟨⟨⟨'\x7b', _, rfl, .inl (by simp)⟩, ⟨'\x7b' :: ws, '\x7d', rfl, .inl (by simp)⟩⟩, ?_⟩
  intro fuel _ rest _
  have hskip : skipWs (ws ++ ['\x7d'] ++ rest) = '\x7d' :: rest := by
    rw [List.append_assoc, skipWs_append hws]
    exact skipWs_cons (by decide) rest
  simp only [List.cons_append, takeValue]
  rw [skipWs_cons (by decide)]
  simp only [hskip]
  rfl

theorem ItemsText.value {used : List Char} {xs : List Json} (h : ItemsText used xs) :
    ValueText ('[' :: used) (.arr xs) := by
  obtain ⟨init, hend⟩ := h.ends
  obtain ⟨ws, c, tail, hstart, hws, hc⟩ := h.starts
  refine ⟨⟨⟨'[', _, rfl, .inl (by simp)⟩, ⟨'[' :: init, ']', by rw [hend]; rfl, .inl (by simp)⟩⟩, ?_⟩
  intro fuel hfuel rest _
  have hskip : skipWs (used ++ rest) = c :: (tail ++ rest) := by
    rw [hstart, List.append_assoc, skipWs_append hws]
    exact skipWs_cons hc.isWs _
  simp only [List.cons_append, takeValue]
  rw [skipWs_cons (by decide)]
  simp only [if_true, hskip, h.reads fuel (by simpa using hfuel) rest trivial]
  split
  · next heq =>
    -- a closing bracket starts no item
    obtain ⟨rfl, -⟩ := List.cons.inj heq
    exact absurd hc (by simp [StartsValue])
  · rfl

theorem MembersText.value {used : List Char} {ms : List (String × Json)} (h : MembersText used ms) :
    ValueText ('\x7b' :: used) (.obj ms) := by
  obtain ⟨init, hend⟩ := h.ends
  obtain ⟨ws, tail, hstart, hws⟩ := h.starts
  refine ⟨⟨⟨'\x7b', _, rfl, .inl (by simp)⟩, ⟨'\x7b' :: init, '\x7d', by rw [hend]; rfl, .inl (by simp)⟩⟩, ?_⟩
  intro fuel hfuel rest _
  have hskip : skipWs (used ++ rest) = '"' :: (tail ++ rest) := by
    rw [hstart, List.append_assoc, skipWs_append hws]
    exact skipWs_cons (by decide) _
  simp only [List.cons_append, takeValue]
  rw [skipWs_cons (by decide)]
  simp only [hskip, h.reads fuel (by simpa using hfuel) rest trivial]
  rfl

theorem valueText_num {c : Char} {tail : List Char} {n : Number} (hc : c = '-' ∨ c.isDigit = true)
    (hends : ∃ init d, c :: tail = init ++ [d] ∧ EndsValue d)
    (hread : Reads takeNumber EndsNumber (c :: tail) n) : ValueText (c :: tail) (.num n) := by
  have hstarts : StartsValue c := hc.imp (fun h => by simp [h]) id
  refine ⟨⟨⟨c, tail, rfl, hstarts⟩, hends⟩, fun fuel _ rest hrest => ?_⟩
  have hnot : ∀ d : Char, d ≠ '-' → d.isDigit = false → c ≠ d := by
    rintro d hd hdigit rfl
    exact hc.elim hd (fun h => by simp [hdigit] at h)
  have hnumber := hread rest hrest
  rw [List.cons_append] at hnumber ⊢
  rw [takeValue, skipWs_cons hstarts.isWs]
  simp only [if_neg (hnot '[' (by decide) rfl), if_neg (hnot '\x7b' (by decide) rfl),
    if_neg (hnot '"' (by decide) rfl), if_neg (hnot 'n' (by decide) rfl),
    if_neg (hnot 't' (by decide) rfl), if_neg (hnot 'f' (by decide) rfl), hnumber]
  rfl

/-- White space in front of a value is skipped. -/
theorem takeValue_white {ws : List Char} (hws : White ws) (fuel : Nat) (cs : List Char) :
    takeValue fuel (ws ++ cs) = takeValue fuel cs := by
  cases fuel with
  | zero => simp only [takeValue]
  | succ fuel => simp only [takeValue, skipWs_append hws]

theorem ValueText.length_pos {used : List Char} {v : Json} (h : ValueText used v) :
    0 < used.length := by
  obtain ⟨c, tail, rfl, -⟩ := h.framed.starts
  simp

/-- A value behind white space, in front of a character that ends it. -/
theorem ValueText.reads_white {used ws rest : List Char} {v : Json} (h : ValueText used v)
    (hws : White ws) {fuel : Nat} (hfuel : used.length ≤ fuel) (hrest : EndsNumber rest) :
    takeValue fuel (ws ++ (used ++ rest)) = some (v, rest) := by
  obtain ⟨fuel, rfl⟩ : ∃ n, fuel = n + 1 := ⟨fuel - 1, by have := h.length_pos; omega⟩
  rw [takeValue_white hws]
  exact h.reads fuel hfuel rest hrest

theorem isWs_endsNumber {c : Char} (h : isWs c = true) :
    c.isDigit = false ∧ c ≠ '.' ∧ c ≠ 'e' ∧ c ≠ 'E' := by
  simp only [isWs, Bool.or_eq_true, beq_iff_eq] at h
  rcases h with ((rfl | rfl) | rfl) | rfl <;> decide

theorem White.endsNumber {ws : List Char} (h : White ws) : EndsNumber ws := by
  cases ws with
  | nil => exact .nil
  | cons c ws => exact .cons (isWs_endsNumber (h c (by simp))) ws

/-- A separator or a closing bracket, behind white space, ends a number. -/
theorem endsNumber_white {ws cs : List Char} {c : Char} (hws : White ws)
    (hc : c.isDigit = false ∧ c ≠ '.' ∧ c ≠ 'e' ∧ c ≠ 'E') : EndsNumber (ws ++ c :: cs) := by
  cases ws with
  | nil => exact .cons hc cs
  | cons w ws => exact .cons (isWs_endsNumber (hws w (by simp))) _

theorem ValueText.starts_white {used ws cs : List Char} {v : Json} (h : ValueText used v)
    (hws : White ws) : ∃ ws' c tail, ws ++ (used ++ cs) = ws' ++ c :: tail ∧ White ws' ∧ StartsValue c := by
  obtain ⟨c, tail, rfl, hc⟩ := h.framed.starts
  exact ⟨ws, c, tail ++ cs, by simp, hws, hc⟩

/-- The last item and the closing bracket. -/
theorem ValueText.lastItem {used ws ws' : List Char} {x : Json} (h : ValueText used x) (hws : White ws)
    (hws' : White ws') : ItemsText (ws ++ (used ++ (ws' ++ [']']))) [x] := by
  refine ⟨h.starts_white hws, ⟨ws ++ used ++ ws', by simp⟩, ?_⟩
  intro fuel hfuel rest _
  obtain ⟨fuel, rfl⟩ : ∃ n, fuel = n + 1 := ⟨fuel - 1, by simp at hfuel; omega⟩
  have hends : EndsNumber (ws' ++ ']' :: rest) := endsNumber_white hws' (by decide)
  have hvalue := h.reads_white hws (show used.length ≤ fuel by simp at hfuel; omega) hends
  have hskip : skipWs (ws' ++ ']' :: rest) = ']' :: rest := by
    rw [skipWs_append hws']
    exact skipWs_cons (by decide) rest
  simp only [List.append_assoc, List.cons_append, List.nil_append, takeItems, hvalue, Option.bind_some,
    hskip]

/-- An item in front of others. -/
theorem ItemsText.cons {used ws ws' more : List Char} {x : Json} {xs : List Json}
    (h : ItemsText more xs) (hx : ValueText used x) (hws : White ws) (hws' : White ws') :
    ItemsText (ws ++ (used ++ (ws' ++ ',' :: more))) (x :: xs) := by
  obtain ⟨init, hend⟩ := h.ends
  refine ⟨hx.starts_white hws, ⟨ws ++ used ++ ws' ++ ',' :: init, by simp [hend]⟩, ?_⟩
  intro fuel hfuel rest _
  obtain ⟨fuel, rfl⟩ : ∃ n, fuel = n + 1 := ⟨fuel - 1, by simp at hfuel; omega⟩
  have hends : EndsNumber (ws' ++ ',' :: (more ++ rest)) := endsNumber_white hws' (by decide)
  have hvalue := hx.reads_white hws (show used.length ≤ fuel by simp at hfuel; omega) hends
  have hmore := h.reads fuel (by simp at hfuel; omega) rest trivial
  have hskip : skipWs (ws' ++ ',' :: (more ++ rest)) = ',' :: (more ++ rest) := by
    rw [skipWs_append hws']
    exact skipWs_cons (by decide) _
  simp only [List.append_assoc, List.cons_append, takeItems, hvalue, Option.bind_some, hskip, hmore]
  rfl

/-- A key, its colon and its value: what `takeMembers` reads before it looks for more. -/
def memberText (ws key ws₁ ws₂ used : List Char) : List Char :=
  ws ++ '"' :: (key ++ (ws₁ ++ ':' :: (ws₂ ++ used)))

/-- Behind a member: the others, or the end. -/
def behindMember (fuel : Nat) (member : String × Json) :
    List Char → Option (List (String × Json) × List Char)
  | ',' :: rest => (takeMembers fuel rest).map fun (ms, r) => (member :: ms, r)
  | '\x7d' :: rest => some ([member], rest)
  | _ => none

theorem takeMembers_member {ws key ws₁ ws₂ used : List Char} {units : List Nat} {x : Json}
    (hkey : StringText key units) (hx : ValueText used x) (hws : White ws) (hws₁ : White ws₁)
    (hws₂ : White ws₂) {fuel : Nat} (hfuel : used.length ≤ fuel) {rest : List Char}
    (hrest : EndsNumber rest) :
    takeMembers (fuel + 1) (memberText ws key ws₁ ws₂ used ++ rest)
      = behindMember fuel (String.ofList (joinUnits units), x) (skipWs rest) := by
  have hquote : skipWs (memberText ws key ws₁ ws₂ used ++ rest)
      = '"' :: (key ++ (ws₁ ++ ':' :: (ws₂ ++ (used ++ rest)))) := by
    simp only [memberText, List.append_assoc, List.cons_append]
    rw [skipWs_append hws]
    exact skipWs_cons (by decide) _
  have hcolon : skipWs (ws₁ ++ ':' :: (ws₂ ++ (used ++ rest))) = ':' :: (ws₂ ++ (used ++ rest)) := by
    rw [skipWs_append hws₁]
    exact skipWs_cons (by decide) _
  have hvalue := hx.reads_white hws₂ hfuel hrest
  simp only [takeMembers, hquote, hkey.2 _ trivial, Option.bind_some, hcolon, hvalue]
  rfl

theorem MembersText.last {ws key ws₁ ws₂ used ws₃ : List Char} {units : List Nat} {x : Json}
    (hkey : StringText key units) (hx : ValueText used x) (hws : White ws) (hws₁ : White ws₁)
    (hws₂ : White ws₂) (hws₃ : White ws₃) :
    MembersText (memberText ws key ws₁ ws₂ used ++ (ws₃ ++ ['\x7d']))
      [(String.ofList (joinUnits units), x)] := by
  refine ⟨⟨ws, _, by simp [memberText]; rfl, hws⟩, ⟨memberText ws key ws₁ ws₂ used ++ ws₃, by simp⟩, ?_⟩
  intro fuel hfuel rest _
  obtain ⟨fuel, rfl⟩ : ∃ n, fuel = n + 1 := ⟨fuel - 1, by simp at hfuel; omega⟩
  have hlength : used.length ≤ fuel := by
    simp [memberText] at hfuel
    omega
  have hskip : skipWs (ws₃ ++ '\x7d' :: rest) = '\x7d' :: rest := by
    rw [skipWs_append hws₃]
    exact skipWs_cons (by decide) rest
  have hends : EndsNumber (ws₃ ++ '\x7d' :: rest) := endsNumber_white hws₃ (by decide)
  have hmember := takeMembers_member hkey hx hws hws₁ hws₂ hlength hends
  simp only [List.append_assoc, List.cons_append, List.nil_append]
  rw [hmember, hskip]
  rfl

theorem MembersText.cons {ws key ws₁ ws₂ used ws₃ more : List Char} {units : List Nat} {x : Json}
    {ms : List (String × Json)} (h : MembersText more ms) (hkey : StringText key units)
    (hx : ValueText used x) (hws : White ws) (hws₁ : White ws₁) (hws₂ : White ws₂) (hws₃ : White ws₃) :
    MembersText (memberText ws key ws₁ ws₂ used ++ (ws₃ ++ ',' :: more))
      ((String.ofList (joinUnits units), x) :: ms) := by
  obtain ⟨init, hend⟩ := h.ends
  refine ⟨⟨ws, _, by simp [memberText]; rfl, hws⟩,
    ⟨memberText ws key ws₁ ws₂ used ++ (ws₃ ++ ',' :: init), by simp [hend]⟩, ?_⟩
  intro fuel hfuel rest _
  obtain ⟨fuel, rfl⟩ : ∃ n, fuel = n + 1 := ⟨fuel - 1, by simp at hfuel; omega⟩
  have hlength : used.length ≤ fuel ∧ more.length ≤ fuel := by
    simp [memberText] at hfuel
    omega
  have hskip : skipWs (ws₃ ++ ',' :: (more ++ rest)) = ',' :: (more ++ rest) := by
    rw [skipWs_append hws₃]
    exact skipWs_cons (by decide) _
  have hends : EndsNumber (ws₃ ++ ',' :: (more ++ rest)) := endsNumber_white hws₃ (by decide)
  have hmember := takeMembers_member hkey hx hws hws₁ hws₂ hlength.1 hends
  simp only [List.append_assoc, List.cons_append]
  rw [hmember, hskip, behindMember, h.reads fuel hlength.2 rest trivial]
  rfl

/-! ## What is read

Each reader, with the fuel that is left for the others. -/

def ReadsValues (fuel : Nat) : Prop := ∀ {cs rest : List Char} {v : Json},
  takeValue fuel cs = some (v, rest) →
    ∃ ws used, cs = ws ++ (used ++ rest) ∧ White ws ∧ ValueText used v

def ReadsItems (fuel : Nat) : Prop := ∀ {cs rest : List Char} {xs : List Json},
  takeItems fuel cs = some (xs, rest) → ∃ used, cs = used ++ rest ∧ ItemsText used xs

def ReadsMembers (fuel : Nat) : Prop := ∀ {cs rest : List Char} {ms : List (String × Json)},
  takeMembers fuel cs = some (ms, rest) → ∃ used, cs = used ++ rest ∧ MembersText used ms

theorem readsValues_succ {fuel : Nat} (hitems : ReadsItems fuel) (hmembers : ReadsMembers fuel) :
    ReadsValues (fuel + 1) := by
  intro cs rest v h
  obtain ⟨ws, hcs, hws⟩ := skipWs_split cs
  -- the rest of the proof is about the value alone
  suffices ∃ used, skipWs cs = used ++ rest ∧ ValueText used v by
    obtain ⟨used, hused, hvalue⟩ := this
    exact ⟨ws, used, by rw [← hused]; exact hcs, hws, hvalue⟩
  simp only [takeValue] at h
  split at h
  · cases h
  next c tail hskip =>
  rw [hskip]
  split_ifs at h with hbracket hbrace hquote hnull htrue hfalse
  · subst hbracket
    split at h
    · next rest' hclose =>
      cases h
      obtain ⟨ws', htail, hws'⟩ := skipWs_split tail
      refine ⟨'[' :: (ws' ++ [']']), ?_, valueText_emptyArr hws'⟩
      rw [htail, hclose]
      simp
    · obtain ⟨⟨xs, r⟩, htake, hpair⟩ := Option.map_eq_some_iff.mp h
      cases hpair
      obtain ⟨used, rfl, hused⟩ := hitems htake
      exact ⟨'[' :: used, rfl, hused.value⟩
  · subst hbrace
    split at h
    · next rest' hclose =>
      cases h
      obtain ⟨ws', htail, hws'⟩ := skipWs_split tail
      refine ⟨'\x7b' :: (ws' ++ ['\x7d']), ?_, valueText_emptyObj hws'⟩
      rw [htail, hclose]
      simp
    · obtain ⟨⟨ms, r⟩, htake, hpair⟩ := Option.map_eq_some_iff.mp h
      cases hpair
      obtain ⟨used, rfl, hused⟩ := hmembers htake
      exact ⟨'\x7b' :: used, rfl, hused.value⟩
  · subst hquote
    obtain ⟨⟨units, r⟩, htake, hpair⟩ := Option.map_eq_some_iff.mp h
    cases hpair
    obtain ⟨used, rfl, hused⟩ := takeString_used tail htake
    exact ⟨'"' :: used, rfl, hused.value⟩
  · obtain ⟨rfl, hword⟩ := takeWord_used h
    exact ⟨_, hword, valueText_null⟩
  · obtain ⟨rfl, hword⟩ := takeWord_used h
    exact ⟨_, hword, valueText_true⟩
  · obtain ⟨rfl, hword⟩ := takeWord_used h
    exact ⟨_, hword, valueText_false⟩
  · obtain ⟨⟨n, r⟩, htake, hpair⟩ := Option.map_eq_some_iff.mp h
    cases hpair
    obtain ⟨used, hused, ⟨d, ds, rfl, hd⟩, hends, hread⟩ := takeNumber_used htake
    exact ⟨d :: ds, hused, valueText_num hd hends hread⟩

theorem readsItems_succ {fuel : Nat} (hvalues : ReadsValues fuel) (hitems : ReadsItems fuel) :
    ReadsItems (fuel + 1) := by
  intro cs rest xs htake
  simp only [takeItems] at htake
  obtain ⟨⟨x, afterValue⟩, hvalue, hmore⟩ := Option.bind_eq_some_iff.mp htake
  obtain ⟨ws, used, rfl, hws, hx⟩ := hvalues hvalue
  obtain ⟨ws', hafter, hws'⟩ := skipWs_split afterValue
  simp only at hmore
  split at hmore
  · next rest' hcomma =>
    obtain ⟨⟨xs', r⟩, htail, hpair⟩ := Option.map_eq_some_iff.mp hmore
    cases hpair
    obtain ⟨more, rfl, hitemsText⟩ := hitems htail
    refine ⟨ws ++ (used ++ (ws' ++ ',' :: more)), ?_, hitemsText.cons hx hws hws'⟩
    rw [hafter, hcomma]
    simp
  · next rest' hclose =>
    cases hmore
    refine ⟨ws ++ (used ++ (ws' ++ [']'])), ?_, hx.lastItem hws hws'⟩
    rw [hafter, hclose]
    simp
  · cases hmore

theorem readsMembers_succ {fuel : Nat} (hvalues : ReadsValues fuel) (hmembers : ReadsMembers fuel) :
    ReadsMembers (fuel + 1) := by
  intro cs rest ms htake
  obtain ⟨ws, hcs, hws⟩ := skipWs_split cs
  simp only [takeMembers] at htake
  split at htake
  · next afterQuote hskip =>
    rw [hskip] at hcs
    obtain ⟨⟨units, afterKey⟩, hkey, hbehindKey⟩ := Option.bind_eq_some_iff.mp htake
    obtain ⟨key, rfl, hkeyText⟩ := takeString_used _ hkey
    obtain ⟨ws₁, hafterKey, hws₁⟩ := skipWs_split afterKey
    simp only at hbehindKey
    split at hbehindKey
    · next afterColon hcolon =>
      obtain ⟨⟨x, afterValue⟩, hvalue, hmore⟩ := Option.bind_eq_some_iff.mp hbehindKey
      obtain ⟨ws₂, used, rfl, hws₂, hx⟩ := hvalues hvalue
      obtain ⟨ws₃, hafter, hws₃⟩ := skipWs_split afterValue
      simp only at hmore
      split at hmore
      · next rest' hcomma =>
        obtain ⟨⟨ms', r⟩, htail, hpair⟩ := Option.map_eq_some_iff.mp hmore
        cases hpair
        obtain ⟨more, rfl, hmembersText⟩ := hmembers htail
        refine ⟨memberText ws key ws₁ ws₂ used ++ (ws₃ ++ ',' :: more), ?_,
          hmembersText.cons hkeyText hx hws hws₁ hws₂ hws₃⟩
        rw [hcs, hafterKey, hcolon, hafter, hcomma]
        simp [memberText]
      · next rest' hclose =>
        cases hmore
        refine ⟨memberText ws key ws₁ ws₂ used ++ (ws₃ ++ ['\x7d']), ?_,
          .last hkeyText hx hws hws₁ hws₂ hws₃⟩
        rw [hcs, hafterKey, hcolon, hafter, hclose]
        simp [memberText]
      · cases hmore
    · cases hbehindKey
  · cases htake

theorem reads_all (fuel : Nat) : ReadsValues fuel ∧ ReadsItems fuel ∧ ReadsMembers fuel := by
  induction fuel with
  | zero =>
    refine ⟨fun h => ?_, fun h => ?_, fun h => ?_⟩
    · simp [takeValue] at h
    · simp [takeItems] at h
    · simp [takeMembers] at h
  | succ fuel ih =>
    obtain ⟨hvalues, hitems, hmembers⟩ := ih
    exact ⟨readsValues_succ hitems hmembers, readsItems_succ hvalues hitems,
      readsMembers_succ hvalues hmembers⟩

/-- The text of a document is a document between any white space. -/
theorem ValueText.parse {used ws ws' : List Char} {v : Json} (h : ValueText used v) (hws : White ws)
    (hws' : White ws') : Json.parse (String.ofList (ws ++ (used ++ ws'))) = some v := by
  have htake := h.reads_white hws
    (show used.length ≤ (ws ++ (used ++ ws')).length + 1 by simp; omega) hws'.endsNumber
  have hskip : skipWs ws' = [] := by
    have hempty := skipWs_append hws' []
    simpa [skipWs] using hempty
  rw [Json.parse, String.toList_ofList, htake]
  simp [hskip]

/-- **An accepted text** is the text of its document between white space. -/
theorem parse_text {text : String} {v : Json} (h : Json.parse text = some v) :
    ∃ ws used ws', text.toList = ws ++ (used ++ ws') ∧ White ws ∧ White ws' ∧ ValueText used v := by
  unfold Json.parse at h
  split at h
  · next v' rest htake =>
    split at h
    · next hempty =>
      cases h
      obtain ⟨ws, used, htext, hws, hused⟩ := (reads_all _).1 htake
      obtain ⟨ws', hrest, hws'⟩ := skipWs_split rest
      rw [hempty, List.append_nil] at hrest
      exact ⟨ws, used, rest, htext, hws, hrest ▸ hws', hused⟩
    · cases h
  · cases h

/-! ## White space at the ends -/

theorem isSpace_of_isDigit {c : Char} (h : c.isDigit = true) : Text.isSpace c = false := by
  simp only [Char.isDigit, Bool.and_eq_true, decide_eq_true_eq, ge_iff_le, UInt32.le_iff_toNat_le] at h
  have hbounds : 48 ≤ c.toNat ∧ c.toNat ≤ 57 := h
  simp only [Text.isSpace, Bool.or_eq_false_iff, Bool.and_eq_false_iff, decide_eq_false_iff_not,
    beq_eq_false_iff_ne]
  omega

theorem StartsValue.isSpace {c : Char} (h : StartsValue c) : Text.isSpace c = false := by
  rcases h with h | h
  · exact eq_false_of_ne_true (List.any_eq_false.mp (by decide) c h)
  · exact isSpace_of_isDigit h

theorem EndsValue.isSpace {c : Char} (h : EndsValue c) : Text.isSpace c = false := by
  rcases h with h | h
  · exact eq_false_of_ne_true (List.any_eq_false.mp (by decide) c h)
  · exact isSpace_of_isDigit h

theorem Framed.solid {used : List Char} (h : Framed used) : Text.Solid used := by
  obtain ⟨c, tail, hstart, hc⟩ := h.starts
  obtain ⟨init, d, hend, hd⟩ := h.ends
  exact ⟨⟨c, tail, hstart, hc.isSpace⟩, ⟨init, d, hend, hd.isSpace⟩⟩

theorem White.isSpace {ws : List Char} (h : White ws) : ∀ c ∈ ws, Text.isSpace c = true := by
  intro c hc
  have hws := h c hc
  simp only [isWs, Bool.or_eq_true, beq_iff_eq] at hws
  rcases hws with ((rfl | rfl) | rfl) | rfl <;> decide

/-- A printed document has no white space around it. -/
theorem print_framed (gap depth : Nat) (v : Json) : Framed (print gap depth v) := by
  have htake := takeValue_print gap v depth (print gap depth v).length [] .nil le_rfl
  obtain ⟨ws, used, htext, hws, hused⟩ := (reads_all _).1 htake
  rw [List.append_nil, List.append_nil] at htext
  obtain ⟨c, cs, hc, hnot, -⟩ := print_head gap depth v
  cases ws with
  | nil =>
    rw [htext]
    exact hused.framed
  | cons w ws =>
    rw [hc] at htext
    obtain ⟨rfl, -⟩ := List.cons.inj htext
    rw [hws c (by simp)] at hnot
    cases hnot

end AutoQa.Base.Json
