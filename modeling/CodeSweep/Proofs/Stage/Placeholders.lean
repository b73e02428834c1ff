import CodeSweep.Proofs.Template.Filling
import CodeSweep.Stage

/-! # Placeholders in replacement texts

A stage with one text for all nodes puts that text in the place of each node it finds, with the
placeholders of the rule's pattern filled in. What it writes is known for every node
(`edits_fill_captured`): a placeholder that stands for something in the node's text is replaced by it, and
one that stands for nothing is written as it is, in particular where the text does not match the
pattern. So a stage may write placeholders into the text (`edits_write_tokens`).

Where no placeholder stands for nothing, filling in undoes what matching took apart: a stage whose text is
its own pattern changes nothing there (`filled_extract_self`). -/

namespace CodeSweep

open Template

/-- The edits that put a new text in the place of a node: none where it stands there already. -/
def Node.changes (n : Node) (new : String) : List Edit := if new = n.text then [] else [n.replace new]

namespace Stage

variable {rule : Rule} {pattern template : String}

/-- A replacement text has its placeholders filled in, whether there are variables or not. -/
theorem filled_eq (vars : Bindings) (text : String) :
    filled vars text = String.ofList ((ofString text).substitute vars) := by
  rw [filled]
  split
  next h =>
    have hfill : fill [] = Placeholder.token := rfl
    rw [List.isEmpty_iff.mp h, substitute_eq_put, hfill, ← text_eq_put, text_ofString,
      String.ofList_toList]
  next => rfl

/-- A template is the only replacement at a node, and it is text. -/
theorem nodeEdits_of_template (rule : Rule) (template : String) (node : Node) :
    nodeEdits ⟨rule, .literal template⟩ node = node.changes (filled (bindings rule node) template) := by
  rw [nodeEdits, Node.changes]
  show List.filterMap (textEdit? node _) [Replacement.text template] ++ [] = _
  rw [List.append_nil, List.filterMap_cons, textEdit?]
  by_cases hsame : filled (bindings rule node) template = node.text
  · rw [if_pos hsame, if_pos hsame]
    rfl
  · rw [if_neg hsame, if_neg hsame]
    rfl

theorem nodeEdits_literal (hpattern : rule.pattern = some pattern) (node : Node) :
    nodeEdits ⟨rule, .literal template⟩ node =
      node.changes (filled ((ofString pattern).extract node.text.toList) template) := by
  have hbindings : bindings rule node = (ofString pattern).extract node.text.toList := by
    rw [bindings, hpattern]
  rw [nodeEdits_of_template, hbindings]

theorem edits_eq_map (engine : Engine) (st : Stage) (source : Source) :
    st.edits engine source = (source.find engine st.rule).map (·.flatMap st.nodeEdits) := by
  rw [edits]
  cases source.find engine st.rule <;> rfl

/-- A template with each placeholder replaced by what the pattern's placeholder stands for in a text. -/
def replaced (pattern template text : String) : String :=
  String.ofList ((ofString template).put ((ofString pattern).capture text.toList))

/-- A template with each placeholder replaced by what the pattern's placeholder stands for in a text, and
left as it is written where that is nothing. -/
def inserted (pattern template text : String) : String :=
  String.ofList ((ofString template).put ((ofString pattern).written text.toList))

theorem filled_of_declared (hnames : ((ofString pattern).placeholders.map (·.name)).Nodup)
    (hdeclared : ∀ p ∈ (ofString template).placeholders, p ∈ (ofString pattern).placeholders)
    (text : String) :
    filled ((ofString pattern).extract text.toList) template = inserted pattern template text := by
  rw [filled_eq, substitute_eq_put, inserted]
  congr 1
  exact put_congr fun p hp => fill_of_mem hnames (hdeclared p hp)

theorem inserted_of_none {text : String} (h : (ofString pattern).match? text.toList = none) :
    inserted pattern template text = template := by
  have hwritten : (ofString pattern).written text.toList = Placeholder.token := by
    funext p
    rw [written, capture, captured_of_none h]
    rfl
  rw [inserted, hwritten, ← text_eq_put, text_ofString, String.ofList_toList]

theorem inserted_of_captured {text : String}
    (h : ∀ p ∈ (ofString template).placeholders, (ofString pattern).capture text.toList p ≠ []) :
    inserted pattern template text = replaced pattern template text := by
  rw [inserted, replaced]
  congr 1
  exact put_congr fun p hp => if_neg (h p hp)

/-- **What a stage writes.** The names of the pattern are distinct, and the template has placeholders of
the pattern only. Then the stage puts the template in the place of each node that it finds, with each
placeholder replaced that stands for something in the node's text, and all others as they are written:
all of them where the text does not match, and none where each stands for something. -/
theorem edits_fill_captured (engine : Engine) (source : Source) (rule : Rule) (pattern template : String)
    (hpattern : rule.pattern = some pattern)
    (hnames : ((ofString pattern).placeholders.map (·.name)).Nodup)
    (hdeclared : ∀ p ∈ (ofString template).placeholders, p ∈ (ofString pattern).placeholders) :
    Stage.edits engine ⟨rule, .literal template⟩ source =
      (source.find engine rule).map (fun nodes =>
        nodes.flatMap fun node => node.changes (inserted pattern template node.text)) ∧
    ∀ text : String,
      ((ofString pattern).match? text.toList = none → inserted pattern template text = template) ∧
      ∀ values, (ofString pattern).match? text.toList = some values →
        (ofString pattern).placeholders.map ((ofString pattern).capture text.toList) = values ∧
        ((∀ p ∈ (ofString template).placeholders, (ofString pattern).capture text.toList p ≠ []) →
          inserted pattern template text = replaced pattern template text) := by
  have hnode : nodeEdits ⟨rule, .literal template⟩ =
      fun node => node.changes (inserted pattern template node.text) := by
    funext node
    rw [nodeEdits_literal hpattern, filled_of_declared hnames hdeclared]
  refine ⟨by rw [edits_eq_map, hnode], fun text => ⟨inserted_of_none, fun values hmatch => ?_⟩⟩
  exact ⟨map_capture hnames hmatch, inserted_of_captured⟩

/-- An engine that finds three calls by any query. -/
def callEngine : Engine where
  compile _ _ := .ok ["call"]
  captures _ _ _ := [(0, 12), (14, 22), (24, 31)].map fun (start, stop) =>
    { name := "call", node := { kind := "call_expression", start, stop, named := true } }

/-- Three calls: one with arguments, one without, and one of another function. -/
def calls : Source := { language := default, text := "oldLog(a, b); oldLog(); warn(1);" }

/-- The calls as nodes. -/
def callNodes : List Node :=
  [⟨⟨⟨"call_expression", 0, 12, true⟩, "oldLog(a, b)", 0, 0⟩, []⟩,
    ⟨⟨⟨"call_expression", 14, 22, true⟩, "oldLog()", 0, 14⟩, []⟩,
    ⟨⟨⟨"call_expression", 24, 31, true⟩, "warn(1)", 0, 24⟩, []⟩]

/-- A rule for calls of one function. -/
def callRule : Rule := { query := "(call_expression) @call", pattern := some "oldLog($$$ARGS)" }

theorem find_calls : calls.find callEngine callRule = .ok callNodes := rfl

theorem nodup_oldLog : ((ofString "oldLog($$$ARGS)").placeholders.map (·.name)).Nodup := by
  decide +kernel

theorem declared_newLog : ∀ p ∈ (ofString "newLog($$$ARGS)").placeholders,
    p ∈ (ofString "oldLog($$$ARGS)").placeholders := by
  decide +kernel

theorem edits_fill_captured_calls :
    Stage.edits callEngine ⟨callRule, .literal "newLog($$$ARGS)"⟩ calls =
        .ok [⟨0, 12, "newLog(a, b)"⟩, ⟨14, 8, "newLog($$$ARGS)"⟩, ⟨24, 7, "newLog($$$ARGS)"⟩] ∧
      (ofString "oldLog($$$ARGS)").match? "oldLog(a, b)".toList = some ["a, b".toList] ∧
      inserted "oldLog($$$ARGS)" "newLog($$$ARGS)" "oldLog(a, b)" =
        replaced "oldLog($$$ARGS)" "newLog($$$ARGS)" "oldLog(a, b)" := by
  obtain ⟨hedits, htexts⟩ := edits_fill_captured callEngine calls callRule "oldLog($$$ARGS)"
    "newLog($$$ARGS)" rfl nodup_oldLog declared_newLog
  have hmatch : (ofString "oldLog($$$ARGS)").match? "oldLog(a, b)".toList = some ["a, b".toList] := by
    decide +kernel
  refine ⟨?_, hmatch, ((htexts "oldLog(a, b)").2 _ hmatch).2 (by decide +kernel)⟩
  rw [hedits, find_calls]
  exact congrArg Except.ok (by decide +kernel)

/-- **A stage that writes placeholders into the text.** The names of the pattern are distinct, and the
template has no other placeholder. It stands for nothing in the second call, and the third call does not
match; the edits of both hold the placeholder, and so they are not what each node's captures make of the
template. -/
theorem edits_write_tokens :
    ((ofString "oldLog($$$ARGS)").placeholders.map (·.name)).Nodup ∧
      (∀ p ∈ (ofString "newLog($$$ARGS)").placeholders, p ∈ (ofString "oldLog($$$ARGS)").placeholders) ∧
      calls.find callEngine callRule = .ok callNodes ∧
      (ofString "oldLog($$$ARGS)").match? "oldLog()".toList = some [[]] ∧
      (ofString "oldLog($$$ARGS)").match? "warn(1)".toList = none ∧
      replaced "oldLog($$$ARGS)" "newLog($$$ARGS)" "oldLog()" = "newLog()" ∧
      Stage.edits callEngine ⟨callRule, .literal "newLog($$$ARGS)"⟩ calls =
        .ok [⟨0, 12, "newLog(a, b)"⟩, ⟨14, 8, "newLog($$$ARGS)"⟩, ⟨24, 7, "newLog($$$ARGS)"⟩] ∧
      ¬ ∀ e ∈ [⟨0, 12, "newLog(a, b)"⟩, ⟨14, 8, "newLog($$$ARGS)"⟩, ⟨24, 7, "newLog($$$ARGS)"⟩],
        ∃ node ∈ callNodes,
          e = node.replace (replaced "oldLog($$$ARGS)" "newLog($$$ARGS)" node.text) := by
  refine ⟨nodup_oldLog, declared_newLog, find_calls, ?_, ?_, ?_, ?_, ?_⟩
  · decide +kernel
  · decide +kernel
  · decide +kernel
  · rw [edits_eq_map, find_calls]
    exact congrArg Except.ok (by decide +kernel)
  · decide +kernel

/-! ## A text that is its own pattern -/

/-- Nodes at which no edit is made may be left out. -/
theorem flatMap_filter_text {give : Node → List Edit} {text : String}
    (h : ∀ node : Node, node.text = text → give node = []) (nodes : List Node) :
    (nodes.filter (·.text ≠ text)).flatMap give = nodes.flatMap give := by
  induction nodes with
  | nil => rfl
  | cons node more ih =>
      by_cases htext : node.text = text
      · rw [List.filter_cons_of_neg (by simp [htext]), List.flatMap_cons, h node htext, ih]
        rfl
      · rw [List.filter_cons_of_pos (by simp [htext]), List.flatMap_cons, List.flatMap_cons, ih]

/-- **Filling in undoes matching.** Where the names of a pattern are distinct and a text matches it with no
empty value, the pattern with the variables of the text filled in is the text. So a stage whose text is
its own pattern makes no edit at a node of that text, whichever others it finds. -/
theorem filled_extract_self (pattern text : String) (values : List (List Char))
    (hnames : ((ofString pattern).placeholders.map (·.name)).Nodup)
    (hmatch : (ofString pattern).match? text.toList = some values)
    (hvalues : ∀ value ∈ values, value ≠ []) :
    filled ((ofString pattern).extract text.toList) pattern = text ∧
    ∀ rule : Rule, rule.pattern = some pattern →
      (∀ node : Node, node.text = text → nodeEdits ⟨rule, .literal pattern⟩ node = []) ∧
      ∀ (engine : Engine) (source : Source),
        Stage.edits engine ⟨rule, .literal pattern⟩ source =
          (source.find engine rule).map fun nodes =>
            (nodes.filter (·.text ≠ text)).flatMap (nodeEdits ⟨rule, .literal pattern⟩) := by
  have hfilled : filled ((ofString pattern).extract text.toList) pattern = text := by
    rw [filled_eq, substitute_eq_put, put_captured hmatch, String.ofList_toList]
    intro p value hmem
    have hvalue : value ≠ [] := by
      rw [captured_of_some hmatch] at hmem
      exact hvalues value (List.of_mem_zip hmem).2
    rw [fill_extract hnames hmem, if_neg hvalue]
  refine ⟨hfilled, fun rule hpattern => ?_⟩
  have hnode : ∀ node : Node, node.text = text → nodeEdits ⟨rule, .literal pattern⟩ node = [] := by
    rintro node rfl
    rw [nodeEdits_literal hpattern, hfilled]
    exact if_pos rfl
  refine ⟨hnode, fun engine source => ?_⟩
  rw [edits_eq_map]
  congr 1
  funext nodes
  exact (flatMap_filter_text hnode nodes).symm

/-- Both values look like placeholders, and a piece of the pattern occurs in the second one. -/
theorem filled_extract_self_sum :
    (ofString "$A + $$$B").match? "$B + $A + x".toList = some ["$B".toList, "$A + x".toList] ∧
      filled ((ofString "$A + $$$B").extract "$B + $A + x".toList) "$A + $$$B" = "$B + $A + x" ∧
      nodeEdits ⟨{ query := "(sum) @s", pattern := some "$A + $$$B" }, .literal "$A + $$$B"⟩
        ⟨⟨⟨"sum", 0, 11, true⟩, "$B + $A + x", 0, 0⟩, []⟩ = [] := by
  have hmatch : (ofString "$A + $$$B").match? "$B + $A + x".toList =
      some ["$B".toList, "$A + x".toList] := by
    decide +kernel
  obtain ⟨hfilled, hstage⟩ :=
    filled_extract_self "$A + $$$B" "$B + $A + x" _ (by decide +kernel) hmatch (by decide +kernel)
  exact ⟨hmatch, hfilled, (hstage _ rfl).1 _ rfl⟩

end Stage

end CodeSweep
