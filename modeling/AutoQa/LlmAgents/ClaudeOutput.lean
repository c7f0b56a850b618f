import AutoQa.Base.JsonText
import AutoQa.LlmAgents.Providers

/-!
# Structured output of Claude

With a response schema and no tools, Claude is made to call `output_json`, and the
adapter replaces the text by the input of that call. Text blocks behind the call are
appended to it again.
-/

namespace AutoQa.LlmAgents

open AutoQa.Base AutoQa.Base.Text

namespace ClaudeAnswerBlock

/-- A call of the forced tool. -/
def isOutput : ClaudeAnswerBlock → Bool
  | .toolUse _ name _ => name == "output_json"
  | _ => false

/-- What the block adds to the text. -/
def chars : ClaudeAnswerBlock → List Char
  | .text t => t.toList
  | _ => []

end ClaudeAnswerBlock

/-- Blocks that are no structured output append their texts. -/
theorem claudeRead_texts (structured : Bool) (blocks : List ClaudeAnswerBlock)
    (h : ∀ b ∈ blocks, b.isOutput = false) : ∀ acc : String × List ToolCall,
    (blocks.foldl (claudeRead structured) acc).1.toList
      = acc.1.toList ++ blocks.flatMap ClaudeAnswerBlock.chars := by
  induction blocks with
  | nil => simp
  | cons b blocks ih =>
    intro acc
    rw [List.foldl_cons, ih (fun x hx => h x (List.mem_cons_of_mem b hx))]
    have hb := h b (by simp)
    cases b with
    | text t => simp [claudeRead, ClaudeAnswerBlock.chars]
    | toolUse id name input =>
      have hname : (name == "output_json") = false := hb
      simp [claudeRead, hname, ClaudeAnswerBlock.chars]
    | other => simp [claudeRead, ClaudeAnswerBlock.chars]

/-- The text after the blocks, from the last structured output on. -/
theorem claudeRead_output {pre post : List ClaudeAnswerBlock} {id : String} {json : Json}
    (hpost : ∀ b ∈ post, b.isOutput = false) (acc : String × List ToolCall) :
    ((pre ++ .toolUse id "output_json" json :: post).foldl (claudeRead true) acc).1
      = String.ofList (json.print 0 0 ++ post.flatMap ClaudeAnswerBlock.chars) := by
  apply String.ext
  rw [List.foldl_append, List.foldl_cons, claudeRead_texts true post hpost]
  simp [claudeRead, Json.stringify]

/-- The text survives `trim() || undefined` as it is if nothing but white space follows
the document. -/
theorem orUndefined_trim_iff (json : Json) (rest : List Char) :
    orUndefined (trim (String.ofList (json.print 0 0 ++ rest))) = some (json.stringify 0) ↔
      ∀ c ∈ rest, isSpace c = true := by
  have hsolid := (Json.print_framed 0 0 json).solid
  rw [← trim_append_iff hsolid]
  have hne : String.ofList (json.print 0 0) ≠ "" := by
    obtain ⟨c, tail, hc, -⟩ := hsolid.starts
    simp [hc]
  unfold orUndefined
  constructor
  · intro h
    split at h
    · cases h
    · exact Option.some.inj h
  · intro h
    rw [h, if_neg hne]
    rfl

section

variable (w : World) (p : SingleProvider) (input : GenerateInput) (tr : Trace)

/-- Claude's adapter returns what it decodes. -/
theorem generate_claude {answer : ClaudeAnswer} (hclaude : p.vendor = .claude)
    (hanswer : w.anthropic (elapsed tr) (claudePayload p.model input) = .ok answer) :
    (p.generate w input tr).1
      = .ok (claudeDecode input (p.usage answer.inputTokens answer.outputTokens) answer) := by
  simp [SingleProvider.generate, hclaude, SingleProvider.request, hanswer, Prog.bind_apply]

/-- **Structured output survives the text around it** exactly when the text blocks behind
the last call of `output_json` are white space. -/
theorem claude_output_iff {answer : ClaudeAnswer} (hclaude : p.vendor = .claude)
    (hschema : input.responseSchema.isSome = true) (htools : input.tools = none)
    (hanswer : w.anthropic (elapsed tr) (claudePayload p.model input) = .ok answer)
    {pre post : List ClaudeAnswerBlock} {id : String} {json : Json}
    (hcontent : answer.content = pre ++ .toolUse id "output_json" json :: post)
    (hlast : ∀ b ∈ post, b.isOutput = false) :
    (∃ res text, (p.generate w input tr).1 = .ok res ∧ res.text = some text ∧
        text = json.stringify 0 ∧ Json.parse text = some json) ↔
      ∀ t, .text t ∈ post → ∀ c ∈ t.toList, isSpace c = true := by
  have hstructured : (input.responseSchema.isSome && input.tools.isNone) = true := by
    simp [hschema, htools]
  have htext : (claudeDecode input (p.usage answer.inputTokens answer.outputTokens) answer).text
      = orUndefined (trim (String.ofList (json.print 0 0 ++ post.flatMap ClaudeAnswerBlock.chars))) := by
    simp only [claudeDecode, hstructured, hcontent, claudeRead_output hlast]
  have hchars : (∀ c ∈ post.flatMap ClaudeAnswerBlock.chars, isSpace c = true) ↔
      ∀ t, .text t ∈ post → ∀ c ∈ t.toList, isSpace c = true := by
    simp only [List.mem_flatMap]
    constructor
    · intro h t ht c hc
      exact h c ⟨.text t, ht, hc⟩
    · rintro h c ⟨b, hb, hc⟩
      cases b with
      | text t => exact h t hb c hc
      | _ => cases hc
  rw [generate_claude w p input tr hclaude hanswer, ← hchars, ← orUndefined_trim_iff json, ← htext]
  constructor
  · rintro ⟨res, text, hres, hsome, rfl, -⟩
    rw [Except.ok.inj hres]
    exact hsome
  · exact fun h => ⟨_, _, rfl, h, rfl, Json.parse_stringify json 0⟩

end

/-- Claude with one fixed answer. -/
def answeringClaude (blocks : List ClaudeAnswerBlock) : World :=
  { World.calm with anthropic := fun _ _ => .ok ⟨blocks, 10, 5⟩ }

/-- A request for a document, without tools. -/
def documentRequest : GenerateInput :=
  { messages := [{ role := .user, content := "Classify." }], responseSchema := some (.obj []) }

def sonnet : SingleProvider := ⟨.claude, "claude-sonnet-4", some "sk", none⟩

def okDocument : Json := .obj [("ok", .bool true)]

/-- Text in front of the call, an earlier call and a blank line behind it are no harm. -/
theorem text_before_output_dropped :
    ∃ res text,
      (sonnet.generate
        (answeringClaude ([.text "Here it is: ", .toolUse "t1" "output_json" .null] ++
          .toolUse "t2" "output_json" okDocument :: [.text "\n"])) documentRequest []).1 = .ok res ∧
        res.text = some text ∧ text = okDocument.stringify 0 ∧ Json.parse text = some okDocument :=
  (claude_output_iff (answeringClaude _) sonnet documentRequest [] rfl rfl rfl rfl rfl
    (by simp [ClaudeAnswerBlock.isOutput])).mpr (by simp; decide)

/-- A closing remark behind the call becomes part of the text, which is no document then. -/
theorem closing_remark_kept :
    ∃ res, (sonnet.generate
        (answeringClaude [.toolUse "t1" "output_json" okDocument, .text "Done."])
        documentRequest []).1 = .ok res ∧
      res.text ≠ some (okDocument.stringify 0) ∧ res.text.bind Json.parse = none := by
  refine ⟨_, rfl, ?_, ?_⟩
  · decide +kernel
  · decide +kernel

end AutoQa.LlmAgents
