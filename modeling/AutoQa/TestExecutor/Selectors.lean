import AutoQa.Base.Css
import AutoQa.Base.Text
import Mathlib.Data.Rat.Defs

/-!
# The selectors of a snapshot

`playwright_a11y_snapshot` of `mcp-server.ts` names each visible element by a selector,
put together from its tag, id and classes with nothing escaped. The selector finds its
element when all of them are plain identifiers and one space stands between two classes.
A control of a form can hide what the snapshot reads of the form.
-/

namespace AutoQa.TestExecutor

open AutoQa.Base

/-! ## The snapshot -/

/-- The tokens of a text: what stands between its white space. -/
def tokens (text : List Char) : List (List Char) :=
  (text.splitOnP Css.isSpace).filter fun name => !name.isEmpty

/-- What a property holds: a text, or an object with this interface. -/
inductive Property where
  | text (text : List Char)
  | object (interface : String)
  deriving DecidableEq, Repr

/-- The text that `+` makes of it. -/
def Property.shown : Property → List Char
  | .text own => own
  | .object interface => '[' :: ("object " ++ interface ++ "]").toList

/-- The text whose methods are called; an object has no `toLowerCase`, `trim` or `split`. -/
def Property.asText : Property → Option (List Char)
  | .text own => some own
  | .object _ => none

/-- An element of the page, with what the snapshot and a selector read of it. -/
structure PageElement where
  localName : List Char
  id : List Char
  /-- The `class` attribute, as it is written. -/
  className : List Char
  roleAttribute : Option String
  ariaLabel : Option String
  textContent : String
  /-- The size of its bounding rectangle. -/
  width : Rat
  height : Rat
  /-- The properties that hold an object, with its interface: a control hides the property
  of its form that has the control's name, and the `className` of an SVG link is no text. -/
  objects : List (String × String)
  /-- The name of an element starts with a letter or a colon. -/
  named : ∃ c tail, localName = c :: tail ∧ (Css.isNameStart c = true ∨ c = ':')

namespace PageElement

/-- The property, where the element's own is a text. -/
def property (el : PageElement) (name : String) (own : List Char) : Property :=
  match el.objects.lookup name with
  | some interface => .object interface
  | none => .text own

/-- A method of the element is called; an object in its place cannot be. -/
def method (el : PageElement) (name : String) : Option Unit :=
  if el.objects.lookup name = none then some () else none

/-- The element's own `tagName`: the name, with the ASCII letters in upper case. -/
def tagName (el : PageElement) : List Char := el.localName.map Char.toUpper

/-- `el.classList`. -/
def classList (el : PageElement) : List (List Char) := tokens el.className

/-- The selector of `querySelectorAll`. -/
def interactive (el : PageElement) : Bool :=
  ["button", "a", "input", "select", "textarea", "form"].contains (String.ofList el.localName) ||
    match el.roleAttribute with
    | none => false
    | some role => ["button", "link", "menuitem", "switch"].contains role

/-- `rect.width > 0 && rect.height > 0`. -/
def visible (el : PageElement) : Bool := 0 < el.width && 0 < el.height

/-- The element is one that the simple selector asks for. -/
def meets (el : PageElement) : Css.Simple → Bool
  | .type name => name.map Char.toLower == el.localName
  | .universal => true
  | .id name => name == el.id
  | .class name => el.classList.contains name
  | .other holds => holds

end PageElement

structure PageDocument where
  /-- The names of its embeds, forms, frames, images and objects, which hide the
  document's own properties. -/
  names : List String
  elements : List PageElement

/-- An entry of the snapshot. -/
structure SnapshotEntry where
  role : List Char
  name : String
  selector : List Char
  visible : Bool
  deriving DecidableEq, Repr

/-- `text.substring(0, n)`, in UTF-16 code units; half a surrogate pair is left out. -/
def firstUnits : Nat → List Char → List Char
  | _, [] => []
  | n, c :: rest =>
      let units := if c.toNat < 0x10000 then 1 else 2
      if units ≤ n then c :: firstUnits (n - units) rest else []

/-- `a || b || ''`, where `a` is a text. -/
def orText (a : Option String) (b : Property) : Property :=
  match a with
  | some text => if text = "" then b else .text text.toList
  | none => b

/-- `el.className ? '.' + el.className.split(' ').join('.') : ''`. -/
def classPart (className : List Char) : List Char :=
  if className = [] then [] else '.' :: ['.'].intercalate (className.splitOn ' ')

/-- `el.id ? '#' + el.id : ''`. -/
def idPart (id : List Char) : List Char := if id = [] then [] else '#' :: id

section

-- `toLowerCase`, which changes letters outside ASCII too.
variable (toLowerCase : List Char → List Char)

/-- The entry of an element; there is none where a `TypeError` is thrown. -/
def snapshotEntry (el : PageElement) : Option SnapshotEntry := do
  el.method "getBoundingClientRect"
  let tagName ← (el.property "tagName" el.tagName).asText
  el.method "getAttribute"
  let name ← (orText el.ariaLabel (el.property "textContent" el.textContent.toList)).asText
  let className ← (el.property "className" el.className).asText
  pure
    { role := toLowerCase tagName
      name := String.ofList (firstUnits 50 (Text.trim (String.ofList name)).toList)
      selector := toLowerCase tagName ++ idPart (el.property "id" el.id).shown
        ++ classPart className
      visible := el.visible }

/-- The function that `playwright_a11y_snapshot` evaluates in the page. -/
def a11ySnapshot (document : PageDocument) : Option (List SnapshotEntry) :=
  if "querySelectorAll" ∈ document.names then none
  else do
    let elements := document.elements.filter PageElement.interactive
    let entries ← elements.mapM (snapshotEntry toLowerCase)
    pure (entries.filter (·.visible))

end

/-- The text is a compound selector, and the element is one it selects. -/
def Selects (other : List Char → Option (Bool × List Char)) (selector : List Char)
    (el : PageElement) : Prop :=
  ∃ simples, Css.parseCompound other selector = some simples ∧ ∀ s ∈ simples, el.meets s = true

/-- The element has an entry, and the entry's selector selects it. -/
def Selected (toLowerCase : List Char → List Char)
    (other : List Char → Option (Bool × List Char)) (el : PageElement) : Prop :=
  ∃ entry, snapshotEntry toLowerCase el = some entry ∧ Selects other entry.selector el

/-! ## What needs no escape -/

/-- Identifiers, with one space between two of them; other white space may end the text. -/
inductive PlainClasses : List Char → Prop where
  | last {name ws : List Char} (hname : Css.Plain name)
      (hws : ∀ c ∈ ws, Css.isSpace c = true ∧ c ≠ ' ') : PlainClasses (name ++ ws)
  | cons {name rest : List Char} (hname : Css.Plain name) (hrest : PlainClasses rest) :
      PlainClasses (name ++ ' ' :: rest)

/-- No object hides what the snapshot calls; the text is not read if there is a label. -/
structure Readable (el : PageElement) : Prop where
  rect : el.objects.lookup "getBoundingClientRect" = none
  tagName : el.objects.lookup "tagName" = none
  getAttribute : el.objects.lookup "getAttribute" = none
  text : el.ariaLabel.all (· == "") = true → el.objects.lookup "textContent" = none
  className : el.objects.lookup "className" = none

/-- The same of a whole document. -/
def PageDocument.Readable (document : PageDocument) : Prop :=
  "querySelectorAll" ∉ document.names ∧
    ∀ el ∈ document.elements, el.interactive = true → TestExecutor.Readable el

/-- The element can be named without an escape. -/
structure Unescaped (toLowerCase : List Char → List Char) (el : PageElement) : Prop where
  readable : Readable el
  ownId : el.objects.lookup "id" = none
  lowerCase : toLowerCase el.tagName = el.localName
  noCapital : el.localName.map Char.toLower = el.localName
  tag : Css.Plain el.localName
  id : el.id = [] ∨ Css.Plain el.id
  classes : el.className = [] ∨ PlainClasses el.className

/-- A character with a meaning of its own in the class part: behind it something else than
a class may follow, or it stands for another character. -/
def special (c : Char) : Bool :=
  Css.isStop c || Css.opensOther c || c == '\\' || c == '*' || c.toNat == 0

/-! ## Entries -/

section

variable {toLowerCase : List Char → List Char} {el : PageElement}

theorem property_own {name : String} {own : List Char} (h : el.objects.lookup name = none) :
    el.property name own = .text own := by
  simp [PageElement.property, h]

theorem asText_own {name : String} {own : List Char} (h : el.objects.lookup name = none) :
    (el.property name own).asText = some own := by
  rw [property_own h, Property.asText]

/-- A method of a text is called. -/
theorem asText_property {name : String} {own text : List Char}
    (h : (el.property name own).asText = some text) : el.objects.lookup name = none ∧ text = own := by
  unfold PageElement.property at h
  split at h
  · cases h
  · rename_i hlookup
    exact ⟨hlookup, (Option.some.inj h).symm⟩

theorem asText_orText {own text : List Char}
    (h : (orText el.ariaLabel (el.property "textContent" own)).asText = some text)
    (hlabel : el.ariaLabel.all (· == "") = true) : el.objects.lookup "textContent" = none := by
  cases hnone : el.ariaLabel with
  | none =>
    rw [hnone] at h
    exact (asText_property h).1
  | some label =>
    rw [hnone] at h hlabel
    have hempty : label = "" := by simpa using hlabel
    rw [orText, if_pos hempty] at h
    exact (asText_property h).1

/-- The selector of an element that is read. -/
def selectorText (toLowerCase : List Char → List Char) (el : PageElement) : List Char :=
  toLowerCase el.tagName ++ (idPart (el.property "id" el.id).shown ++ classPart el.className)

variable (toLowerCase) in
theorem Readable.entry (h : Readable el) : ∃ entry, snapshotEntry toLowerCase el = some entry ∧
    entry.selector = selectorText toLowerCase el ∧ entry.visible = el.visible := by
  have hname : ∃ name,
      (orText el.ariaLabel (el.property "textContent" el.textContent.toList)).asText = some name := by
    cases hlabel : el.ariaLabel with
    | none => exact ⟨_, asText_own (h.text (by simp [hlabel]))⟩
    | some label =>
      by_cases hempty : label = ""
      · have htext := h.text (by simp [hlabel, hempty])
        exact ⟨_, by rw [orText, if_pos hempty, asText_own htext]⟩
      · exact ⟨_, by rw [orText, if_neg hempty]; rfl⟩
  obtain ⟨name, hname⟩ := hname
  have hrect : el.method "getBoundingClientRect" = some () := by simp [PageElement.method, h.rect]
  have hattribute : el.method "getAttribute" = some () := by
    simp [PageElement.method, h.getAttribute]
  simp only [snapshotEntry, hrect, hattribute, hname, asText_own h.tagName, asText_own h.className,
    Option.bind_eq_bind, Option.bind_some]
  exact ⟨_, rfl, List.append_assoc _ _ _, rfl⟩

theorem method_some {name : String} {u : Unit} (h : el.method name = some u) :
    el.objects.lookup name = none := by
  by_contra hne
  simp [PageElement.method, hne] at h

/-- Only an element that is read has an entry. -/
theorem readable_of_entry {entry : SnapshotEntry} (h : snapshotEntry toLowerCase el = some entry) :
    Readable el := by
  obtain ⟨_, hrect, h⟩ := Option.bind_eq_some_iff.mp h
  obtain ⟨tagName, htag, h⟩ := Option.bind_eq_some_iff.mp h
  obtain ⟨_, hattribute, h⟩ := Option.bind_eq_some_iff.mp h
  obtain ⟨name, hname, h⟩ := Option.bind_eq_some_iff.mp h
  obtain ⟨className, hclass, -⟩ := Option.bind_eq_some_iff.mp h
  exact ⟨method_some hrect, (asText_property htag).1, method_some hattribute, asText_orText hname,
    (asText_property hclass).1⟩

theorem selected_iff {other : List Char → Option (Bool × List Char)} :
    Selected toLowerCase other el ↔
      Readable el ∧ Selects other (selectorText toLowerCase el) el := by
  constructor
  · rintro ⟨entry, hentry, hselects⟩
    have hreadable := readable_of_entry hentry
    obtain ⟨entry', hentry', hselector, -⟩ := hreadable.entry toLowerCase
    cases hentry.symm.trans hentry'
    exact ⟨hreadable, hselector ▸ hselects⟩
  · intro ⟨hreadable, hselects⟩
    obtain ⟨entry, hentry, hselector, -⟩ := hreadable.entry toLowerCase
    exact ⟨entry, hentry, hselector ▸ hselects⟩

variable (toLowerCase) in
/-- All elements of a list have entries, or there is no list of them. -/
theorem entries_iff (elements : List PageElement) :
    (∃ entries, elements.mapM (snapshotEntry toLowerCase) = some entries) ↔
      ∀ el ∈ elements, Readable el := by
  induction elements with
  | nil => simp
  | cons el elements ih =>
    rw [List.forall_mem_cons, ← ih, List.mapM_cons]
    constructor
    · rintro ⟨entries, h⟩
      obtain ⟨entry, hentry, h⟩ := Option.bind_eq_some_iff.mp h
      obtain ⟨rest, hrest, -⟩ := Option.bind_eq_some_iff.mp h
      exact ⟨readable_of_entry hentry, rest, hrest⟩
    · intro ⟨hreadable, rest, hrest⟩
      obtain ⟨entry, hentry, -⟩ := hreadable.entry toLowerCase
      exact ⟨entry :: rest, by simp [hentry, hrest]⟩

theorem mem_entries {elements : List PageElement} {entries : List SnapshotEntry}
    (h : elements.mapM (snapshotEntry toLowerCase) = some entries) (hel : el ∈ elements)
    {entry : SnapshotEntry} (hentry : snapshotEntry toLowerCase el = some entry) :
    entry ∈ entries := by
  induction elements generalizing entries with
  | nil => cases hel
  | cons first elements ih =>
    rw [List.mapM_cons] at h
    obtain ⟨entry', hentry', h⟩ := Option.bind_eq_some_iff.mp h
    obtain ⟨rest, hrest, h⟩ := Option.bind_eq_some_iff.mp h
    cases h
    rcases List.mem_cons.mp hel with rfl | hel
    · cases hentry.symm.trans hentry'
      exact List.mem_cons_self
    · exact List.mem_cons_of_mem _ (ih hrest hel)

/-- A visible element is in the snapshot exactly if nothing on the page hides what the
snapshot calls. -/
theorem listed_iff {document : PageDocument} (hel : el ∈ document.elements)
    (hinteractive : el.interactive = true) (hvisible : el.visible = true) :
    (∃ entries, a11ySnapshot toLowerCase document = some entries ∧
      ∃ entry ∈ entries, snapshotEntry toLowerCase el = some entry) ↔ document.Readable := by
  have hmem : el ∈ document.elements.filter PageElement.interactive :=
    List.mem_filter.mpr ⟨hel, hinteractive⟩
  have hall : (∀ el ∈ document.elements, el.interactive = true → Readable el) ↔
      ∀ el ∈ document.elements.filter PageElement.interactive, Readable el := by
    simp [List.mem_filter]
  rw [PageDocument.Readable, hall, ← entries_iff toLowerCase]
  constructor
  · rintro ⟨entries, h, -⟩
    by_cases hname : "querySelectorAll" ∈ document.names
    · rw [a11ySnapshot, if_pos hname] at h
      cases h
    · rw [a11ySnapshot, if_neg hname] at h
      obtain ⟨all, hentries, -⟩ := Option.bind_eq_some_iff.mp h
      exact ⟨hname, all, hentries⟩
  · rintro ⟨hname, entries, hentries⟩
    have hreadable := (entries_iff toLowerCase _).mp ⟨entries, hentries⟩ el hmem
    obtain ⟨entry, hentry, -, hshown⟩ := hreadable.entry toLowerCase
    refine ⟨entries.filter (·.visible), by simp [a11ySnapshot, hname, hentries], entry, ?_, hentry⟩
    exact List.mem_filter.mpr ⟨mem_entries hentries hmem hentry, hshown.trans hvisible⟩

end

/-! ## The class part -/

def dot (c : Char) : Char := if c = ' ' then '.' else c

theorem join_split (cs : List Char) : ['.'].intercalate (cs.splitOn ' ') = cs.map dot := by
  induction cs with
  | nil => rfl
  | cons c cs ih =>
    have hne : cs.splitOn ' ' ≠ [] := List.splitOn_ne_nil ' ' cs
    rw [List.splitOn_cons_eq_if_modifyHead, List.map_cons, ← ih]
    split
    · rename_i hc
      rw [List.intercalate_cons_of_ne_nil hne]
      simp [dot, eq_of_beq hc]
    · rename_i hc
      have hdot : dot c = c := if_neg (by simpa using hc)
      obtain ⟨name, names, hnames⟩ := List.exists_cons_of_ne_nil hne
      rw [hnames, hdot]
      cases names <;> simp

theorem classPart_eq (cs : List Char) : classPart cs = if cs = [] then [] else '.' :: cs.map dot := by
  rw [classPart, join_split]

theorem dot_of_isName {c : Char} (h : Css.isName c = true) : dot c = c := by
  refine if_neg ?_
  rintro rfl
  exact absurd h (by decide)

theorem map_dot_name {name : List Char} (h : ∀ c ∈ name, Css.isName c = true) : name.map dot = name := by
  rw [List.map_congr_left fun c hc => dot_of_isName (h c hc), List.map_id']

theorem isSpace_cases {c : Char} (h : Css.isSpace c = true) :
    c = ' ' ∨ c = '\t' ∨ c = '\n' ∨ c = '\r' ∨ c = Char.ofNat 12 := by
  simp only [Css.isSpace, Css.isNewline, Bool.or_eq_true, beq_iff_eq] at h
  obtain (h | h) | (h | h) | h := h
  · exact .inl h
  · exact .inr (.inl h)
  · exact .inr (.inr (.inl h))
  · exact .inr (.inr (.inr (.inl h)))
  · exact .inr (.inr (.inr (.inr (by rw [← h, Char.ofNat_toNat]))))

/-- White space is none of a kind that a few characters show to be free of it. -/
theorem of_isSpace {q : Char → Bool} (h : [' ', '\t', '\n', '\r', Char.ofNat 12].any q = false)
    {c : Char} (hc : Css.isSpace c = true) : q c = false := by
  apply eq_false_of_ne_true ∘ List.any_eq_false.mp h c
  obtain rfl | rfl | rfl | rfl | rfl := isSpace_cases hc <;> decide

theorem isSpace_of_isName {c : Char} (h : Css.isName c = true) : Css.isSpace c = false := by
  cases hspace : Css.isSpace c with
  | false => rfl
  | true => exact absurd h (by simp [of_isSpace (q := Css.isName) (by decide) hspace])

/-- A class that a space or the end follows is one of the element's. -/
theorem mem_tokens {name rest : List Char} (hname : Css.Plain name)
    (hrest : ∀ c tail, rest = c :: tail → Css.isSpace c = true) :
    name ∈ tokens (name ++ rest) := by
  have hspaces : ∀ c ∈ name, Css.isSpace c = false := fun c hc => isSpace_of_isName (hname.name c hc)
  have hne : name ≠ [] := by
    rintro rfl
    exact absurd hname.starts (by decide)
  have hmem : name ∈ (name ++ rest).splitOnP Css.isSpace := by
    cases rest with
    | nil =>
      rw [List.append_nil, List.splitOnP_eq_singleton hspaces]
      exact List.mem_singleton_self name
    | cons c tail =>
      rw [List.splitOnP_append_cons_of_forall_mem hspaces c (hrest c tail rfl)]
      exact List.mem_cons_self
  simp [tokens, List.mem_filter, hmem, hne]

theorem tokens_cons {name rest : List Char} (hname : Css.Plain name) {token : List Char}
    (h : token ∈ tokens rest) : token ∈ tokens (name ++ ' ' :: rest) := by
  have hspaces : ∀ c ∈ name, Css.isSpace c = false := fun c hc => isSpace_of_isName (hname.name c hc)
  rw [tokens, List.splitOnP_append_cons_of_forall_mem hspaces ' ' (by decide), List.filter_cons]
  split
  · exact List.mem_cons_of_mem _ h
  · exact h

theorem Stops.dots (cs : List Char) : Css.Stops ('.' :: cs) := by
  intro c tail h
  obtain ⟨rfl, -⟩ := List.cons.inj h
  decide

section

variable {other : List Char → Option (Bool × List Char)}

/-- White space that is no space is left as it is. -/
theorem map_dot_white {ws : List Char} (h : ∀ c ∈ ws, Css.isSpace c = true ∧ c ≠ ' ') :
    ws.map dot = ws := by
  have hdot : ∀ c ∈ ws, dot c = c := fun c hc => if_neg (h c hc).2
  rw [List.map_congr_left hdot, List.map_id']

theorem parseRest_white {ws : List Char} (h : ∀ c ∈ ws, Css.isSpace c = true ∧ c ≠ ' ') (n : Nat) :
    Css.parseRest other (n + 1) ws = some [] := by
  cases ws with
  | nil => rfl
  | cons c ws =>
    have hc := (h c List.mem_cons_self).1
    have hstar : '*' ∉ c :: ws := fun hmem => absurd (h '*' hmem).1 (by decide)
    rw [Css.parseRest_end other n hstar (of_isSpace (by decide) hc) (of_isSpace (by decide) hc),
      if_pos (List.all_eq_true.mpr fun d hd => (h d hd).1)]

theorem endsName_white {ws : List Char} (h : ∀ c ∈ ws, Css.isSpace c = true ∧ c ≠ ' ') :
    Css.EndsName ws := by
  rintro c tail rfl
  have hc := (h c List.mem_cons_self).1
  refine ⟨of_isSpace (by decide) hc, ?_⟩
  rintro rfl
  exact absurd hc (by decide)

/-- Plain classes are read as they are, and each is one of the element's. -/
theorem PlainClasses.parse {cs : List Char} (h : PlainClasses cs) (n : Nat) (hn : cs.length < n) :
    ∃ simples, Css.parseRest other (n + 1) ('.' :: cs.map dot) = some simples ∧
      ∀ s ∈ simples, ∃ name ∈ tokens cs, s = .class name := by
  induction h generalizing n with
  | @last name ws hname hws =>
    cases n with
    | zero => simp at hn
    | succ n =>
      refine ⟨[.class name], ?_, ?_⟩
      · rw [List.map_append, map_dot_name hname.name, map_dot_white hws,
          Css.parseRest_plain_class other _ hname (endsName_white hws), parseRest_white hws]
        rfl
      · have hmem : name ∈ tokens (name ++ ws) := by
          apply mem_tokens hname
          rintro c tail rfl
          exact (hws c List.mem_cons_self).1
        intro s hs
        exact ⟨name, hmem, List.mem_singleton.mp hs⟩
  | @cons name rest hname hrest ih =>
    cases n with
    | zero => simp at hn
    | succ n =>
      have hlen : rest.length < n := by
        simp at hn
        omega
      obtain ⟨simples, hparse, hall⟩ := ih n hlen
      have hdots : (name ++ ' ' :: rest).map dot = name ++ '.' :: rest.map dot := by
        rw [List.map_append, map_dot_name hname.name]
        rfl
      refine ⟨.class name :: simples, ?_, ?_⟩
      · rw [hdots, Css.parseRest_plain_class other _ hname (Stops.dots _).endsName, hparse]
        rfl
      · intro s hs
        obtain rfl | hs := List.mem_cons.mp hs
        · refine ⟨name, mem_tokens hname ?_, rfl⟩
          rintro c tail heq
          obtain ⟨rfl, -⟩ := List.cons.inj heq
          decide
        · obtain ⟨token, htoken, rfl⟩ := hall s hs
          exact ⟨token, tokens_cons hname htoken, rfl⟩

theorem special_cases {c : Char} (h : special c = false) :
    Css.isStop c = false ∧ Css.opensOther c = false ∧ c ≠ '\\' ∧ c ≠ '*' ∧ c.toNat ≠ 0 := by
  simpa [special, and_assoc] using h

theorem star_not_mem {cs : List Char} (h : ∀ c ∈ cs, special c = false) : '*' ∉ cs.map dot := by
  intro hmem
  obtain ⟨c, hc, heq⟩ := List.mem_map.mp hmem
  unfold dot at heq
  split at heq
  · exact absurd heq (by decide)
  · exact (special_cases (h c hc)).2.2.2.1 heq

/-- What is behind the longest name is not taken for a part of it. -/
theorem endsName_dropWhile {cs : List Char} (h : ∀ c ∈ cs, special c = false) :
    Css.EndsName ((cs.dropWhile Css.isName).map dot) := by
  intro d tail heq
  cases hdrop : cs.dropWhile Css.isName with
  | nil => simp [hdrop] at heq
  | cons c rest =>
    have hname := List.head_dropWhile_not Css.isName (by simp [hdrop] : cs.dropWhile _ ≠ [])
    have hspecial := h c (List.dropWhile_subset Css.isName (hdrop ▸ List.mem_cons_self))
    rw [hdrop] at heq
    obtain ⟨rfl, -⟩ := List.cons.inj heq
    unfold dot
    split
    · decide
    · exact ⟨by simpa [hdrop] using hname, (special_cases hspecial).2.2.1⟩

/-- Behind a class there is another, or white space that ends the text. -/
theorem parseRest_behind {c : Char} {rest : List Char} (hspecial : ∀ d ∈ c :: rest, special d = false)
    (hc : c ≠ ' ') {n : Nat} {simples : List Css.Simple}
    (h : Css.parseRest other n ((c :: rest).map dot) = some simples) :
    ∀ d ∈ c :: rest, Css.isSpace d = true ∧ d ≠ ' ' := by
  cases n with
  | zero => exact absurd h (by simp [Css.parseRest])
  | succ n =>
    have hdot : dot c = c := if_neg hc
    have hstar := star_not_mem hspecial
    obtain ⟨hstop, hopen, -⟩ := special_cases (hspecial c List.mem_cons_self)
    rw [List.map_cons, hdot] at h hstar
    rw [Css.parseRest_end other n hstar hstop hopen] at h
    split at h
    · rename_i hwhite
      rw [← hdot, ← List.map_cons] at hwhite
      intro d hd
      have hd' := List.all_eq_true.mp hwhite (dot d) (List.mem_map_of_mem hd)
      have hne : d ≠ ' ' := by
        rintro rfl
        exact absurd hd' (by decide)
      rw [dot, if_neg hne] at hd'
      exact ⟨hd', hne⟩
    · exact absurd h (by simp)

/-- Classes without a special character are read only if they are plain. -/
theorem plainClasses_of_parse (n : Nat) {cs : List Char} (hspecial : ∀ c ∈ cs, special c = false)
    {simples : List Css.Simple} (h : Css.parseRest other n ('.' :: cs.map dot) = some simples) :
    PlainClasses cs := by
  induction n generalizing cs simples with
  | zero => exact absurd h (by simp [Css.parseRest])
  | succ n ih =>
    rw [Css.parseRest_class other n (Css.startsComment_of_not_mem (star_not_mem hspecial))] at h
    split at h
    · rename_i hstarts
      have hname : ∀ c ∈ cs.takeWhile Css.isName, Css.isName c = true :=
        fun c hc => List.mem_takeWhile_imp hc
      have hsplit := List.takeWhile_append_dropWhile (p := Css.isName) (l := cs)
      have hrest := endsName_dropWhile hspecial
      have hdots : cs.map dot = cs.takeWhile Css.isName ++ (cs.dropWhile Css.isName).map dot := by
        rw [← map_dot_name hname, ← List.map_append, hsplit]
      rw [hdots, Css.startsIdent_append hname hrest] at hstarts
      rw [hdots, Css.consumeName_append hname hrest] at h
      obtain ⟨more, hmore, -⟩ := Option.map_eq_some_iff.mp h
      have hplain : Css.Plain (cs.takeWhile Css.isName) := by
        refine ⟨hstarts, hname, fun c hc => ?_⟩
        exact (special_cases (hspecial c (List.takeWhile_subset _ hc))).2.2.2.2
      have hsub : ∀ c ∈ cs.dropWhile Css.isName, special c = false :=
        fun c hc => hspecial c (List.dropWhile_subset _ hc)
      rw [← hsplit]
      cases hdrop : cs.dropWhile Css.isName with
      | nil => exact .last hplain (fun c hc => absurd hc List.not_mem_nil)
      | cons c rest =>
        rw [hdrop] at hmore hsub
        by_cases hc : c = ' '
        · subst hc
          exact .cons hplain (ih (fun d hd => hsub d (List.mem_cons_of_mem _ hd)) hmore)
        · exact .last hplain (parseRest_behind hsub hc hmore)
    · exact absurd h (by simp)

/-! ## The whole selector -/

theorem stops_classPart (className : List Char) : Css.Stops (classPart className) := by
  unfold classPart
  split
  · exact fun c tail heq => absurd heq (by simp)
  · exact Stops.dots _

theorem stops_parts (id className : List Char) : Css.Stops (idPart id ++ classPart className) := by
  unfold idPart
  split
  · exact stops_classPart className
  · intro c tail heq
    obtain ⟨rfl, -⟩ := List.cons.inj heq
    decide

variable (other) in
theorem parse_classPart {className : List Char} (h : className = [] ∨ PlainClasses className) (n : Nat)
    (hn : (classPart className).length < n) :
    ∃ simples, Css.parseRest other (n + 1) (classPart className) = some simples ∧
      ∀ s ∈ simples, ∃ name ∈ tokens className, s = .class name := by
  rw [classPart_eq] at hn ⊢
  obtain rfl | h := h
  · exact ⟨[], rfl, fun s hs => absurd hs List.not_mem_nil⟩
  · split
    · exact ⟨[], rfl, fun s hs => absurd hs List.not_mem_nil⟩
    · rename_i hne
      rw [if_neg hne] at hn
      apply h.parse
      simp at hn
      omega

theorem meets_classes {el : PageElement} {simples : List Css.Simple}
    (h : ∀ s ∈ simples, ∃ name ∈ tokens el.className, s = .class name) :
    ∀ s ∈ simples, el.meets s = true := by
  intro s hs
  obtain ⟨name, hname, rfl⟩ := h s hs
  simpa [PageElement.meets, PageElement.classList] using hname

variable (other) in
/-- Behind the tag, the id and the classes are read as they are. -/
theorem parse_parts {el : PageElement} (hid : el.id = [] ∨ Css.Plain el.id)
    (hclasses : el.className = [] ∨ PlainClasses el.className) (n : Nat)
    (hn : (idPart el.id ++ classPart el.className).length < n) :
    ∃ simples, Css.parseRest other (n + 1) (idPart el.id ++ classPart el.className) = some simples ∧
      ∀ s ∈ simples, el.meets s = true := by
  obtain hnil | hplain := hid
  · rw [hnil, idPart, if_pos rfl, List.nil_append] at hn ⊢
    obtain ⟨simples, hparse, hall⟩ := parse_classPart other hclasses n hn
    exact ⟨simples, hparse, meets_classes hall⟩
  · have hne : el.id ≠ [] := by
      intro hnil
      rw [hnil] at hplain
      exact absurd hplain.starts (by decide)
    rw [idPart, if_neg hne, List.cons_append] at hn ⊢
    rw [Css.parseRest_plain_id other n hplain (stops_classPart _).endsName]
    cases n with
    | zero => simp at hn
    | succ n =>
      have hlen : (classPart el.className).length < n := by
        simp at hn
        omega
      obtain ⟨simples, hparse, hall⟩ := parse_classPart other hclasses n hlen
      refine ⟨.id el.id :: simples, by rw [hparse]; rfl, ?_⟩
      intro s hs
      obtain rfl | hs := List.mem_cons.mp hs
      · simp [PageElement.meets]
      · exact meets_classes hall s hs

theorem Unescaped.selected {toLowerCase : List Char → List Char} {el : PageElement}
    (h : Unescaped toLowerCase el) : Selected toLowerCase other el := by
  obtain ⟨hreadable, hown, hlower, hcapital, htag, hid, hclasses⟩ := h
  have hlen : (idPart el.id ++ classPart el.className).length <
      (el.localName ++ (idPart el.id ++ classPart el.className)).length := by
    obtain ⟨c, tail, hname, -⟩ := el.named
    have hpos : 0 < el.localName.length := by simp [hname]
    simp only [List.length_append]
    omega
  have hselector : selectorText toLowerCase el
      = el.localName ++ (idPart el.id ++ classPart el.className) := by
    rw [selectorText, hlower, property_own hown, Property.shown]
  obtain ⟨simples, hparse, hall⟩ := parse_parts other hid hclasses _ hlen
  refine selected_iff.mpr ⟨hreadable, .type el.localName :: simples, ?_, ?_⟩
  · rw [hselector, Css.parseCompound_plain other htag (stops_parts _ _).endsName, hparse]
    rfl
  · intro s hs
    obtain rfl | hs := List.mem_cons.mp hs
    · simp [PageElement.meets, hcapital]
    · exact hall s hs

theorem isStop_toLower (c : Char) : Css.isStop c.toLower = Css.isStop c := by
  by_cases h : c.val ≥ 'A'.val ∧ c.val ≤ 'Z'.val
  · have hall : ∀ n < 91, Css.isStop (Char.ofNat n).toLower = Css.isStop (Char.ofNat n) := by decide
    have hc : c.toNat < 91 := Nat.lt_succ_of_le (UInt32.le_iff_toNat_le.mp h.2)
    simpa using hall c.toNat hc
  · exact congrArg Css.isStop (dif_neg h)

/-- The element has a name that `toLowerCase` gives back, and it is not one of a
pseudo-class. -/
structure Regular (toLowerCase : List Char → List Char) (el : PageElement) : Prop where
  lowerCase : toLowerCase el.tagName = el.localName
  noColon : el.localName.head? ≠ some ':'

/-- The tag of an element that is selected is read as it stands. -/
theorem Regular.tag {toLowerCase : List Char → List Char} {el : PageElement}
    (hregular : Regular toLowerCase el)
    (h : Selects other (selectorText toLowerCase el) el) :
    el.localName.map Char.toLower = el.localName ∧ Css.Plain el.localName ∧
      ∃ n simples, Css.parseRest other n
          (idPart (el.property "id" el.id).shown ++ classPart el.className) = some simples ∧
        ∀ s ∈ simples, el.meets s = true := by
  obtain ⟨simples, hparse, hall⟩ := h
  rw [selectorText, hregular.lowerCase] at hparse
  obtain ⟨c, tail, hname, hstart⟩ := el.named
  have hc : Css.isNameStart c = true := by
    obtain hc | rfl := hstart
    · exact hc
    · exact absurd (by rw [hname]; rfl) hregular.noColon
  have hstarts : ∀ rest, Css.startsIdent (el.localName ++ rest) = true := by
    have hdash : c ≠ '-' := by
      rintro rfl
      exact absurd hc (by decide)
    intro rest
    simp [hname, Css.startsIdent, hc, hdash]
  unfold Css.parseCompound at hparse
  rw [if_pos (hstarts _)] at hparse
  obtain ⟨more, hmore, rfl⟩ := Option.map_eq_some_iff.mp hparse
  have htype := hall _ List.mem_cons_self
  rw [PageElement.meets, beq_iff_eq] at htype
  obtain ⟨hnames, hnull⟩ :=
    Css.consumeName_self (by decide) isStop_toLower (stops_parts _ el.className) htype
  have hplain : Css.Plain el.localName := by
    refine ⟨?_, hnames, hnull⟩
    simpa using hstarts []
  rw [hplain.consumeName (stops_parts _ _).endsName] at htype hmore
  exact ⟨htype, hplain, _, more, hmore, fun s hs => hall s (List.mem_cons_of_mem _ hs)⟩

/-- No selector goes on with the text of an object behind its `#`. -/
theorem own_of_parse {el : PageElement} {n : Nat} {rest : List Char} {simples : List Css.Simple}
    (h : Css.parseRest other n (idPart (el.property "id" el.id).shown ++ rest) = some simples) :
    el.objects.lookup "id" = none := by
  cases hlookup : el.objects.lookup "id" with
  | none => rfl
  | some interface =>
    rw [PageElement.property, hlookup, Property.shown, idPart, if_neg (List.cons_ne_nil _ _)] at h
    cases n with
    | zero => exact absurd h (by simp [Css.parseRest])
    | succ n =>
      rw [List.cons_append, Css.parseRest_id, List.cons_append] at h
      have hstarts : ∀ tail, Css.startsIdent ('[' :: tail) = false := by
        intro tail
        cases tail <;> rfl
      simp [hstarts] at h

/-- So is its id. -/
theorem id_plain {el : PageElement} {n : Nat} {simples : List Css.Simple}
    (h : Css.parseRest other n (idPart el.id ++ classPart el.className) = some simples)
    (hall : ∀ s ∈ simples, el.meets s = true) :
    (el.id = [] ∨ Css.Plain el.id) ∧
      ∃ m more, Css.parseRest other m (classPart el.className) = some more := by
  by_cases hnil : el.id = []
  · rw [hnil, idPart, if_pos rfl, List.nil_append] at h
    exact ⟨.inl hnil, n, simples, h⟩
  · cases n with
    | zero => exact absurd h (by simp [Css.parseRest])
    | succ n =>
      rw [idPart, if_neg hnil, List.cons_append, Css.parseRest_id] at h
      split at h
      · rename_i hstarts
        obtain ⟨more, hmore, rfl⟩ := Option.map_eq_some_iff.mp h
        have hid := hall _ List.mem_cons_self
        rw [PageElement.meets, beq_iff_eq, ← List.map_id (Css.consumeName _).1] at hid
        obtain ⟨hnames, hnull⟩ :=
          Css.consumeName_self rfl (fun _ => rfl) (stops_classPart el.className) hid
        have hends := (stops_classPart el.className).endsName
        rw [Css.startsIdent_append hnames hends] at hstarts
        rw [Css.consumeName_append hnames hends] at hmore
        exact ⟨.inr ⟨hstarts, hnames, hnull⟩, n, more, hmore⟩
      · exact absurd h (by simp)

/-- A snapshot's selector selects its element if nothing of the element needs an escape or
is hidden. Where the class attribute has no special character, it selects it only then; the
tag and the id have to be plain in any case. A visible element is in the snapshot of its
page exactly if nothing there hides what the snapshot calls. -/
theorem snapshot_selector_selects_iff (toLowerCase : List Char → List Char)
    (other : List Char → Option (Bool × List Char)) (el : PageElement) :
    (Unescaped toLowerCase el → Selected toLowerCase other el) ∧
    (Regular toLowerCase el → (∀ c ∈ el.className, special c = false) →
      (Selected toLowerCase other el ↔ Unescaped toLowerCase el)) ∧
    (Regular toLowerCase el → Selected toLowerCase other el →
      Readable el ∧ el.objects.lookup "id" = none ∧ Css.Plain el.localName ∧
        (el.id = [] ∨ Css.Plain el.id)) ∧
    ∀ document : PageDocument, el ∈ document.elements → el.interactive = true → el.visible = true →
      ((∃ entries, a11ySnapshot toLowerCase document = some entries ∧
        ∃ entry ∈ entries, snapshotEntry toLowerCase el = some entry) ↔ document.Readable) := by
  refine ⟨Unescaped.selected, ?_, ?_, fun document => listed_iff⟩
  · intro hregular hspecial
    refine ⟨fun h => ?_, Unescaped.selected⟩
    obtain ⟨hreadable, hselects⟩ := selected_iff.mp h
    obtain ⟨hcapital, htag, n, simples, hparse, hall⟩ := hregular.tag hselects
    have hown := own_of_parse hparse
    rw [property_own hown] at hparse
    obtain ⟨hid, m, more, hmore⟩ := id_plain hparse hall
    refine ⟨hreadable, hown, hregular.lowerCase, hcapital, htag, hid, ?_⟩
    rw [classPart_eq] at hmore
    split at hmore
    · rename_i hnil
      exact .inl hnil
    · exact .inr (plainClasses_of_parse m hspecial hmore)
  · intro hregular h
    obtain ⟨hreadable, hselects⟩ := selected_iff.mp h
    obtain ⟨-, htag, n, simples, hparse, hall⟩ := hregular.tag hselects
    have hown := own_of_parse hparse
    rw [property_own hown] at hparse
    exact ⟨hreadable, hown, htag, (id_plain hparse hall).1⟩

end

/-- An element of the given name, id and classes, 80 by 24. -/
def pageElement (localName id className : String) (objects : List (String × String))
    (named : ∃ c tail, localName.toList = c :: tail ∧ (Css.isNameStart c = true ∨ c = ':')) :
    PageElement where
  localName := localName.toList
  id := id.toList
  className := className.toList
  roleAttribute := none
  ariaLabel := none
  textContent := "Save"
  width := 80
  height := 24
  objects := objects
  named := named

def buttonElement (id className : String) : PageElement :=
  pageElement "button" id className [] ⟨'b', "utton".toList, rfl, .inl (by decide)⟩

/-- A form with one control, an input of this name. -/
def formElement (id control : String) : PageElement :=
  pageElement "form" id "" [(control, "HTMLInputElement")] ⟨'f', "orm".toList, rfl, .inl (by decide)⟩

/-- The selectors of a page's snapshot. -/
def snapshotSelectors (elements : List PageElement) : Option (List String) :=
  (a11ySnapshot (List.map Char.toLower) ⟨[], elements⟩).map
    (List.map fun entry => String.ofList entry.selector)

theorem plain_identifiers_selected :
    snapshotSelectors [buttonElement "save" "primary large", formElement "login" "user"] =
        some ["button#save.primary.large", "form#login"] ∧
      Selected (List.map Char.toLower) (fun _ => none) (buttonElement "save" "primary large") ∧
      Selected (List.map Char.toLower) (fun _ => none) (formElement "login" "user") := by
  have hclasses : PlainClasses ("primary".toList ++ ' ' :: ("large".toList ++ [])) :=
    .cons (by decide) (.last (by decide) (List.forall_mem_nil _))
  have hbutton : Unescaped (List.map Char.toLower) (buttonElement "save" "primary large") :=
    ⟨⟨rfl, rfl, rfl, fun _ => rfl, rfl⟩, rfl, by decide, by decide, by decide, by decide,
      .inr hclasses⟩
  have hform : Unescaped (List.map Char.toLower) (formElement "login" "user") :=
    ⟨⟨rfl, rfl, rfl, fun _ => rfl, rfl⟩, rfl, by decide, by decide, by decide, by decide, .inl rfl⟩
  exact ⟨by decide +kernel, (snapshot_selector_selects_iff _ _ _).1 hbutton,
    (snapshot_selector_selects_iff _ _ _).1 hform⟩

/-- A utility class, a double space, an id that starts with a digit, and a form with a
control named `id`; a control named `className` leaves no snapshot at all. -/
theorem unescaped_selectors_fail :
    snapshotSelectors
        [buttonElement "" "w-1/2", buttonElement "" "a  b", buttonElement "1a" "",
          formElement "login" "id"] =
      some ["button.w-1/2", "button.a..b", "button#1a", "form#[object HTMLInputElement]"] ∧
    snapshotSelectors [buttonElement "save" "", formElement "login" "className"] = none ∧
    ∀ el ∈ [buttonElement "" "w-1/2", buttonElement "" "a  b", buttonElement "1a" "",
      formElement "login" "id"], ¬ Selected (List.map Char.toLower) (fun _ => none) el := by
  refine ⟨by decide +kernel, by decide +kernel, ?_⟩
  have hnone : ∀ el ∈ [buttonElement "" "w-1/2", buttonElement "" "a  b", buttonElement "1a" "",
      formElement "login" "id"],
      Css.parseCompound (fun _ => none) (selectorText (List.map Char.toLower) el) = none := by
    decide +kernel
  intro el hel h
  obtain ⟨simples, hparse, -⟩ := (selected_iff.mp h).2
  rw [hnone el hel] at hparse
  cases hparse

-- Classes with a special character can be selected by accident: `.a.b.a.b` asks for the
-- classes `a` and `b`, and the element has these besides `a.b`.
example : Selects (fun _ => none)
    (selectorText (List.map Char.toLower) (buttonElement "" "a.b a b"))
    (buttonElement "" "a.b a b") :=
  ⟨.type "button".toList :: ["a", "b", "a", "b"].map (.class ·.toList), by decide +kernel,
    by decide +kernel⟩

end AutoQa.TestExecutor
