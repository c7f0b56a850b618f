import AutoQa.Base.JsonText
import AutoQa.LlmAgents.Structured

/-!
# Fences around a document

A model may put its document between Markdown fences. The agents take them off with
tests on the ends of the text, one after the other; none of the tests can hit the
document itself, which neither begins nor ends with a backtick.
-/

namespace AutoQa.LlmAgents

open AutoQa.Base AutoQa.Base.Text AutoQa.Base.Json

/-- White space, as `trim` knows it. -/
def AllSpace (s : String) : Prop := ∀ c ∈ s.toList, isSpace c = true

instance (s : String) : Decidable (AllSpace s) :=
  decidable_of_iff (s.toList.all isSpace = true) List.all_eq_true

/-- What a model may make of the document `j`: itself, or a fence around it, whose
closing half may be missing. -/
inductive Wrapping (j : String) : String → Prop where
  | bare : Wrapping j j
  | fenced {opening closing a b : String} (hopening : opening = "```json" ∨ opening = "```")
      (hclosing : closing = "```" ∨ closing = "") (ha : AllSpace a) (hb : AllSpace b) :
      Wrapping j (opening ++ a ++ j ++ b ++ closing)

/-! ## The tests on the ends -/

/-- The tests on the beginning of the text. -/
def openFence (t : String) : String :=
  let t := if startsWith t "```json" then substring t 7 else t
  if startsWith t "```" then substring t 3 else t

/-- The test on its end. -/
def closeFence (t : String) : String := if endsWith t "```" then dropRight t 3 else t

theorem cleanAnalysis_eq (s : String) :
    cleanAnalysis s = trim (closeFence (openFence (trim s))) := rfl

theorem startsWith_other {c d : Char} {cs ds : List Char} {p : String} (hp : p.toList = d :: ds)
    (h : c ≠ d) : startsWith (String.ofList (c :: cs)) p = false := by
  simp [startsWith, hp, List.isPrefixOf, Ne.symm h]

/-- A text that begins with another character than a backtick is left as it is. -/
theorem openFence_plain {cs : List Char} (h : ∃ c tail, cs = c :: tail ∧ c ≠ '`') :
    openFence (String.ofList cs) = String.ofList cs := by
  obtain ⟨c, tail, rfl, hc⟩ := h
  have hjson : startsWith (String.ofList (c :: tail)) "```json" = false := startsWith_other rfl hc
  have hfence : startsWith (String.ofList (c :: tail)) "```" = false := startsWith_other rfl hc
  simp only [openFence, hjson, hfence, Bool.false_eq_true, if_false]

/-- An opening fence is taken off once. -/
theorem openFence_fence {opening : String} {cs : List Char}
    (hopening : opening = "```json" ∨ opening = "```") (h : ∃ c tail, cs = c :: tail ∧ c ≠ '`' ∧ c ≠ 'j') :
    openFence (String.ofList (opening.toList ++ cs)) = String.ofList cs := by
  obtain ⟨c, tail, rfl, hc, hj⟩ := h
  have hfence : startsWith (String.ofList (c :: tail)) "```" = false := startsWith_other rfl hc
  rcases hopening with rfl | rfl
  · have hjson : startsWith (String.ofList ("```json".toList ++ c :: tail)) "```json" = true := by
      simp [startsWith, List.isPrefixOf]
    have hdrop : substring (String.ofList ("```json".toList ++ c :: tail)) 7 = String.ofList (c :: tail) := by
      simp [substring]
    simp only [openFence, hjson, if_true, hdrop, hfence]
    rfl
  · -- the document does not begin with the letters of `json`
    have hjson : startsWith (String.ofList ("```".toList ++ c :: tail)) "```json" = false := by
      simp [startsWith, List.isPrefixOf, Ne.symm hj]
    have hopen : startsWith (String.ofList ("```".toList ++ c :: tail)) "```" = true := by
      simp [startsWith, List.isPrefixOf]
    have hdrop : substring (String.ofList ("```".toList ++ c :: tail)) 3 = String.ofList (c :: tail) := by
      simp [substring]
    simp only [openFence, hjson, Bool.false_eq_true, if_false, hopen, if_true, hdrop]

theorem closeFence_plain {cs : List Char} (h : ∃ init c, cs = init ++ [c] ∧ c ≠ '`') :
    closeFence (String.ofList cs) = String.ofList cs := by
  obtain ⟨init, c, rfl, hc⟩ := h
  have hends : endsWith (String.ofList (init ++ [c])) "```" = false := by
    simp [endsWith, List.isSuffixOf, List.isPrefixOf, Ne.symm hc]
  simp only [closeFence, hends, Bool.false_eq_true, if_false]

theorem closeFence_fence (cs : List Char) :
    closeFence (String.ofList (cs ++ "```".toList)) = String.ofList cs := by
  have hends : endsWith (String.ofList (cs ++ "```".toList)) "```" = true := by
    simp [endsWith, List.isSuffixOf, List.isPrefixOf]
  have hdrop : dropRight (String.ofList (cs ++ "```".toList)) 3 = String.ofList cs := by
    simp [dropRight, List.rdrop_eq_reverse_drop_reverse]
  simp only [closeFence, hends, if_true, hdrop]

/-! ## Documents -/

theorem startsValue_ne_fence {c : Char} (h : StartsValue c) : c ≠ '`' ∧ c ≠ 'j' := by
  constructor <;> (rintro rfl; exact absurd h (by simp [StartsValue]))

theorem endsValue_ne_fence {c : Char} (h : EndsValue c) : c ≠ '`' := by
  rintro rfl
  exact absurd h (by simp [EndsValue])

theorem isSpace_ne_fence {c : Char} (h : isSpace c = true) : c ≠ '`' ∧ c ≠ 'j' := by
  constructor <;> (rintro rfl; exact absurd h (by decide))

/-- White space and a document behind it begin with no character of a fence. -/
theorem framed_starts {used before : List Char} (h : Framed used)
    (hbefore : ∀ c ∈ before, isSpace c = true) (after : List Char) :
    ∃ c tail, before ++ (used ++ after) = c :: tail ∧ c ≠ '`' ∧ c ≠ 'j' := by
  cases before with
  | nil =>
    obtain ⟨c, tail, rfl, hc⟩ := h.starts
    exact ⟨c, tail ++ after, rfl, startsValue_ne_fence hc⟩
  | cons c before => exact ⟨c, _, rfl, isSpace_ne_fence (hbefore c (by simp))⟩

theorem framed_ends {used : List Char} (h : Framed used) (before : List Char) :
    ∃ init c, before ++ used = init ++ [c] ∧ c ≠ '`' := by
  obtain ⟨init, c, rfl, hc⟩ := h.ends
  exact ⟨before ++ init, c, by simp, endsValue_ne_fence hc⟩

/-- A text that is fenced begins with a backtick and ends with one or with the document. -/
theorem solid_fenced {opening : String} (hopening : opening = "```json" ∨ opening = "```")
    {body : List Char} (h : ∃ init c, body = init ++ [c] ∧ isSpace c = false) :
    Solid (opening.toList ++ body) := by
  obtain ⟨init, c, rfl, hc⟩ := h
  refine ⟨?_, opening.toList ++ init, c, by simp, hc⟩
  rcases hopening with rfl | rfl
  · exact ⟨'`', _, rfl, by decide⟩
  · exact ⟨'`', _, rfl, by decide⟩

section

variable {used : List Char} (hused : Framed used)

include hused

theorem clean_bare {before after : List Char} (hbefore : ∀ x ∈ before, isSpace x = true)
    (hafter : ∀ x ∈ after, isSpace x = true) :
    cleanAnalysis (String.ofList (before ++ (used ++ after))) = String.ofList used := by
  obtain ⟨c, tail, hc, hne, -⟩ := framed_starts hused (List.forall_mem_nil _) []
  have hstart : ∃ c tail, used = c :: tail ∧ c ≠ '`' := ⟨c, tail, by simpa using hc, hne⟩
  rw [cleanAnalysis_eq, trim_solid hused.solid hbefore hafter, openFence_plain hstart,
    closeFence_plain (by simpa using framed_ends hused [])]
  simpa using (trim_append_iff hused.solid).mpr (List.forall_mem_nil _)

theorem clean_fenced {opening : String} (hopening : opening = "```json" ∨ opening = "```")
    {c a b d : List Char} (hc : ∀ x ∈ c, isSpace x = true) (ha : ∀ x ∈ a, isSpace x = true)
    (hb : ∀ x ∈ b, isSpace x = true) (hd : ∀ x ∈ d, isSpace x = true) :
    cleanAnalysis (String.ofList (c ++ ((opening.toList ++ (a ++ (used ++ (b ++ "```".toList)))) ++ d)))
      = String.ofList used := by
  have hsolid : Solid (opening.toList ++ (a ++ (used ++ (b ++ "```".toList)))) :=
    solid_fenced hopening ⟨a ++ (used ++ (b ++ ['`', '`'])), '`', by simp, by decide⟩
  have hassoc : a ++ (used ++ (b ++ "```".toList)) = a ++ (used ++ b) ++ "```".toList := by simp
  rw [cleanAnalysis_eq, trim_solid hsolid hc hd, openFence_fence hopening (framed_starts hused ha _),
    hassoc, closeFence_fence]
  exact trim_solid hused.solid ha hb

/-- Without its closing half the fence ends with the document and white space. -/
theorem clean_unclosed {opening : String} (hopening : opening = "```json" ∨ opening = "```")
    {c a d : List Char} (hc : ∀ x ∈ c, isSpace x = true) (ha : ∀ x ∈ a, isSpace x = true)
    (hd : ∀ x ∈ d, isSpace x = true) :
    cleanAnalysis (String.ofList (c ++ ((opening.toList ++ (a ++ used)) ++ d)))
      = String.ofList used := by
  obtain ⟨init, x, hx, hspace⟩ := hused.solid.ends
  have hsolid : Solid (opening.toList ++ (a ++ used)) :=
    solid_fenced hopening ⟨a ++ init, x, by simp [hx], hspace⟩
  have hstart : ∃ c tail, a ++ used = c :: tail ∧ c ≠ '`' ∧ c ≠ 'j' := by
    simpa using framed_starts hused ha []
  rw [cleanAnalysis_eq, trim_solid hsolid hc hd, openFence_fence hopening hstart,
    closeFence_plain (framed_ends hused a)]
  simpa using trim_solid hused.solid ha (List.forall_mem_nil _)

end

/-- **Fence stripping inverts fencing.** A document is read alike by itself and in any
wrapping, whatever is in its strings; and by itself it is only trimmed. -/
theorem parse_cleanAnalysis {j w c d : String} {v : Json} (h : Json.parse j = some v)
    (hw : Wrapping j w) (hc : AllSpace c) (hd : AllSpace d) :
    Json.parse (cleanAnalysis (c ++ w ++ d)) = some v ∧ cleanAnalysis j = trim j := by
  obtain ⟨ws, used, ws', hj, hws, hws', hvalue⟩ := parse_text h
  have hused := hvalue.framed
  have happend : ∀ {xs ys : List Char}, (∀ x ∈ xs, isSpace x = true) → (∀ x ∈ ys, isSpace x = true) →
      ∀ x ∈ xs ++ ys, isSpace x = true := fun hx hy => List.forall_mem_append.mpr ⟨hx, hy⟩
  have hclean : cleanAnalysis (c ++ w ++ d) = String.ofList used := by
    cases hw with
    | bare =>
      have htext : c ++ j ++ d = String.ofList ((c.toList ++ ws) ++ (used ++ (ws' ++ d.toList))) := by
        apply String.ext
        simp [hj]
      rw [htext]
      exact clean_bare hused (happend hc hws.isSpace) (happend hws'.isSpace hd)
    | @fenced opening closing a b hopening hclosing ha hb =>
      rcases hclosing with rfl | rfl
      · have htext : c ++ (opening ++ a ++ j ++ b ++ "```") ++ d
            = String.ofList (c.toList ++ ((opening.toList ++ ((a.toList ++ ws) ++ (used ++
              ((ws' ++ b.toList) ++ "```".toList)))) ++ d.toList)) := by
          apply String.ext
          simp [hj]
        rw [htext]
        exact clean_fenced hused hopening hc (happend ha hws.isSpace) (happend hws'.isSpace hb) hd
      · have htext : c ++ (opening ++ a ++ j ++ b ++ "") ++ d
            = String.ofList (c.toList ++ ((opening.toList ++ ((a.toList ++ ws) ++ used)) ++
              (ws' ++ b.toList ++ d.toList))) := by
          apply String.ext
          simp [hj]
        rw [htext]
        exact clean_unclosed hused hopening hc (happend ha hws.isSpace)
          (happend (happend hws'.isSpace hb) hd)
  refine ⟨?_, ?_⟩
  · have hparse := hvalue.parse (List.forall_mem_nil _) (List.forall_mem_nil _)
    rw [hclean]
    simpa using hparse
  · have htext : j = String.ofList (ws ++ (used ++ ws')) := by
      apply String.ext
      simp [hj]
    rw [htext, clean_bare hused hws.isSpace hws'.isSpace, trim_solid hused.solid hws.isSpace hws'.isSpace]

def quotingDocument : Json := .obj [("code", .str "```json```")]

/-- A document that quotes a fence, in a fence. -/
theorem quoted_fence_kept :
    Json.parse (cleanAnalysis (" " ++ ("```json" ++ "\n" ++ quotingDocument.stringify 2 ++ "\n" ++ "```")
      ++ "\n")) = some quotingDocument :=
  (parse_cleanAnalysis (Json.parse_stringify quotingDocument 2)
    (.fenced (.inl rfl) (.inl rfl) (by decide) (by decide)) (by decide) (by decide)).1

end AutoQa.LlmAgents
