import CodeSweep.Proofs.Edit.Batches
import CodeSweep.Proofs.Stage.Placeholders
import Mathlib.Data.List.Dedup

/-! # A pass with one text is parallel replacement

A stage with one text for all nodes collects an edit for each node it finds, leaves out those that would
change nothing, and commits the rest as a batch: sorted, and taken from the left. Where the nodes hold
something and share nothing, none of this shows (`apply_replaces`). Every node's text is replaced by what
the template makes of it, all else stays byte for byte, and it makes no difference in which order the
engine listed the nodes and whether it listed one of them several times.

    nodes ──changes───▶ edits ────commit───▶ text
      │                                       ║
      └──in order──▶ ordered ──patched──▶    text -/

namespace CodeSweep

open Template

/-! ## Nodes of a text -/

namespace NodeShape

/-- A node holds something of the text: it ends after it begins, both are offsets, and neither splits a
character. -/
@[mk_iff]
structure Spans (text : String) (n : NodeShape) : Prop where
  filled : n.start < n.stop
  word : n.stop < Edit.offsetLimit
  start_valid : String.Pos.Raw.IsValid text ⟨n.start⟩
  stop_valid : String.Pos.Raw.IsValid text ⟨n.stop⟩

instance (text : String) (n : NodeShape) : Decidable (n.Spans text) :=
  decidable_of_iff _ (spans_iff text n).symm

/-- Two nodes share nothing: one ends before the other begins. -/
def Apart (a b : NodeShape) : Prop := a.stop ≤ b.start ∨ b.stop ≤ a.start

instance (a b : NodeShape) : Decidable (a.Apart b) := inferInstanceAs (Decidable (_ ∨ _))

end NodeShape

namespace Source

variable {source : Source} {engine : Engine} {rule : Rule} {nodes : List Node}

/-- The text of a node is what stands between its ends. -/
theorem bytes_textOf {n : NodeShape} (h : n.Spans source.text) :
    (source.textOf n).toByteArray = source.text.toByteArray.extract n.start n.stop := by
  have hstart := Edit.remains_start source.text
  obtain ⟨before, rest, hbefore⟩ := hstart.exists_cut (Nat.zero_le n.start) h.start_valid
  have hrest : Edit.Remains source.text n.start rest := by
    have := (hstart.of_cut hbefore).1
    rwa [Nat.zero_add] at this
  obtain ⟨span, after, hspan⟩ := hrest.exists_cut (Nat.le_of_lt h.filled) h.stop_valid
  have hbytes := (hrest.of_cut hspan).2
  rw [Nat.add_sub_cancel' (Nat.le_of_lt h.filled)] at hbytes
  have hbetween : Text.between? n.start n.stop source.text.toList = some span := by
    rw [Nat.sub_zero] at hbefore
    rw [Text.between?, if_neg (Nat.lt_asymm h.filled), hbefore]
    simp only [Option.bind_some, hspan, Option.map_some]
  rw [textOf, hbetween, ← hbytes]
  exact String.toByteArray_ofList

theorem text_of_find (h : source.find engine rule = .ok nodes) :
    ∀ n ∈ nodes, n.text = source.textOf n.shape := by
  have hnode : ∀ (found : List Capture), ∀ n ∈ found.map source.node, n.text = source.textOf n.shape := by
    intro found n hn
    obtain ⟨c, -, rfl⟩ := List.mem_map.mp hn
    rfl
  unfold find at h
  split at h
  next => cases h
  next =>
    dsimp only at h
    split at h
    next =>
      cases h
      exact hnode _
    next =>
      split at h
      · cases h
        exact hnode _
      · cases h

end Source

/-! ## From left to right -/

namespace Node

variable {text : String} {n : Node} {nodes ordered : List Node} {new : Node → String}

theorem stop_replace (h : n.shape.Spans text) (given : String) : (n.replace given).stop = n.shape.stop :=
  Nat.add_sub_cancel' (Nat.le_of_lt h.filled)

/-- Nodes that share nothing can be put from left to right, each once. -/
theorem exists_ordered (hspans : ∀ n ∈ nodes, n.shape.Spans text)
    (hapart : ∀ a ∈ nodes, ∀ b ∈ nodes, a ≠ b → a.shape.Apart b.shape) :
    ∃ ordered : List Node, (∀ n, n ∈ ordered ↔ n ∈ nodes) ∧
      ordered.Pairwise fun a b => a.shape.stop ≤ b.shape.start := by
  let ordered := nodes.dedup.mergeSort fun a b => decide (a.shape.start ≤ b.shape.start)
  have hperm : ordered.Perm nodes.dedup := List.mergeSort_perm _ _
  have hmem : ∀ n, n ∈ ordered ↔ n ∈ nodes := fun n => hperm.mem_iff.trans List.mem_dedup
  have hnodup : ordered.Nodup := hperm.nodup_iff.mpr nodes.nodup_dedup
  have hsorted : ordered.Pairwise fun a b => decide (a.shape.start ≤ b.shape.start) = true := by
    apply List.pairwise_mergeSort
    · intro a b c hab hbc
      simp only [decide_eq_true_eq] at hab hbc ⊢
      omega
    · intro a b
      simp only [Bool.or_eq_true, decide_eq_true_eq]
      omega
  refine ⟨ordered, hmem, (hsorted.and hnodup).imp_of_mem ?_⟩
  rintro a b ha hb ⟨hle, hne⟩
  have hfilled := (hspans b ((hmem b).mp hb)).filled
  rw [decide_eq_true_eq] at hle
  -- the other way round, the later node would end before it begins
  rcases hapart a ((hmem a).mp ha) b ((hmem b).mp hb) hne with hab | hba
  · exact hab
  · omega

/-- The edits of nodes from left to right are edits from left to right. -/
theorem leftToRight_map_replace (hspans : ∀ n ∈ ordered, n.shape.Spans text)
    (hordered : ordered.Pairwise fun a b => a.shape.stop ≤ b.shape.start) :
    Edit.LeftToRight text (ordered.map fun n => n.replace (new n)) where
  fits := by
    rw [List.forall_mem_map]
    intro n hn
    have hstop := stop_replace (hspans n hn) (new n)
    exact ⟨hstop ▸ (hspans n hn).word, (hspans n hn).start_valid, hstop ▸ (hspans n hn).stop_valid⟩
  filled := by
    rw [List.forall_mem_map]
    intro n hn
    rw [stop_replace (hspans n hn)]
    exact (hspans n hn).filled
  apart := by
    rw [List.pairwise_map]
    apply hordered.imp_of_mem
    intro a b ha _ hab
    rw [stop_replace (hspans a ha)]
    exact hab

/-- The edits that put new texts in the place of nodes, where these are other ones. -/
def replacements (new : Node → String) (nodes : List Node) : List Edit :=
  (nodes.filter fun n => new n ≠ n.text).map fun n => n.replace (new n)

theorem flatMap_changes (new : Node → String) (nodes : List Node) :
    (nodes.flatMap fun n => n.changes (new n)) = replacements new nodes := by
  unfold replacements
  induction nodes with
  | nil => rfl
  | cons n more ih =>
      rw [List.flatMap_cons, ih, changes]
      by_cases hsame : new n = n.text
      · rw [if_pos hsame, List.filter_cons_of_neg (by simp [hsame]), List.nil_append]
      · rw [if_neg hsame, List.filter_cons_of_pos (by simp [hsame]), List.map_cons, List.singleton_append]

section Ordered

variable {source : Source} (hspans : ∀ n ∈ ordered, n.shape.Spans source.text)
  (hordered : ordered.Pairwise fun a b => a.shape.stop ≤ b.shape.start)

include hspans hordered

theorem leftToRight_replacements (new : Node → String) :
    Edit.LeftToRight source.text (replacements new ordered) :=
  (leftToRight_map_replace hspans hordered).sublist (List.filter_sublist.map _)

/-- However nodes are listed, their edits are committed as from left to right. -/
theorem commit_replacements (new : Node → String) {listed : List Node}
    (hlisted : ∀ n, n ∈ listed ↔ n ∈ ordered) :
    Edit.commit source.text (replacements new listed) =
      Edit.commit source.text (replacements new ordered) := by
  have hleft := leftToRight_replacements hspans hordered new
  have hmem : ∀ e, e ∈ replacements new listed ↔ e ∈ replacements new ordered := by
    intro e
    simp only [replacements, List.mem_map, List.mem_filter, hlisted]
  rw [Edit.commit, Edit.commit, hleft.ofList_eq hmem, hleft.ofList_eq fun _ => Iff.rfl]

/-- The edits of all nodes are applied that get another text; the other nodes have theirs already. -/
theorem commit_ordered (htext : ∀ n ∈ ordered, n.text = source.textOf n.shape) (new : Node → String) :
    (Edit.commit source.text (replacements new ordered)).applied =
        ordered.countP (fun n => new n ≠ n.text) ∧
      (Edit.commit source.text (replacements new ordered)).text.toByteArray =
        Edit.patched source.text.toByteArray 0 (ordered.map fun n => n.replace (new n)) := by
  obtain ⟨happlied, hbytes⟩ :=
    Edit.commit_of_leftToRight (leftToRight_replacements hspans hordered new)
  refine ⟨?_, hbytes.trans ?_⟩
  · rw [happlied, replacements, List.length_map, List.countP_eq_length_filter]
  · apply Edit.patched_filter (leftToRight_map_replace hspans hordered)
    · exact fun n _ => Nat.zero_le _
    · intro n hn hsame
      have hnew : new n = n.text := by simpa using hsame
      rw [stop_replace (hspans n hn)]
      show (new n).toByteArray = source.text.toByteArray.extract n.shape.start n.shape.stop
      rw [hnew, htext n hn, Source.bytes_textOf (hspans n hn)]

end Ordered

end Node

/-! ## A pass -/

/-- What a template makes of a node's text: without a pattern the template itself, and with one the
template with the variables that the pattern has in the text. -/
def Rule.rewritten (rule : Rule) (template text : String) : String :=
  match rule.pattern with
  | none => template
  | some pattern =>
    String.ofList ((ofString template).substitute ((ofString pattern).extract text.toList))

namespace Stage

theorem filled_bindings (rule : Rule) (template : String) (node : Node) :
    filled (bindings rule node) template = rule.rewritten template node.text := by
  rw [Rule.rewritten, bindings]
  cases rule.pattern with
  | none => rfl
  | some pattern => rw [filled_eq]

theorem edits_of_template {engine : Engine} {source : Source} {rule : Rule} {nodes : List Node}
    (template : String) (hfind : source.find engine rule = .ok nodes) :
    Stage.edits engine ⟨rule, .literal template⟩ source =
      .ok (Node.replacements (fun n => rule.rewritten template n.text) nodes) := by
  have hnode : nodeEdits ⟨rule, .literal template⟩ =
      fun node => node.changes (rule.rewritten template node.text) := by
    funext node
    rw [nodeEdits_of_template, filled_bindings]
  rw [edits_eq_map, hfind, hnode, ← Node.flatMap_changes]
  rfl

theorem apply_eq_map (engine : Engine) (st : Stage) (source : Source) : st.apply engine source =
    ((st.edits engine source).map (Edit.commit source.text)).map (·.text) := by
  rw [Stage.apply]
  cases st.edits engine source <;> rfl

/-- The nodes of a text are replaced side by side: from left to right each makes way for its new text, and
all other bytes are kept. What counts as applied are the nodes that get another text. -/
structure Replaces (source : Source) (nodes : List Node) (new : Node → String) (ordered : List Node)
    (committed : Committed) : Prop where
  members : ∀ n, n ∈ ordered ↔ n ∈ nodes
  /-- In this order each node is there once, however often it was listed. -/
  leftToRight : ordered.Pairwise fun a b => a.shape.stop ≤ b.shape.start
  /-- What stands in the place of a node is its text. -/
  texts : ∀ n ∈ ordered, source.text.toByteArray.extract n.shape.start n.shape.stop = n.text.toByteArray
  bytes : committed.text.toByteArray =
    Edit.patched source.text.toByteArray 0 (ordered.map fun n => n.replace (new n))
  applied : committed.applied = ordered.countP fun n => new n ≠ n.text

/-- **A pass with one text is parallel replacement.** Where the nodes that a rule matches hold something
and share nothing, each is replaced by what the template makes of its text, and nothing else changes. An
engine that lists the same nodes in another way gives the same text, with as many edits applied. -/
theorem apply_replaces (engine : Engine) (source : Source) (rule : Rule) (template : String)
    (nodes : List Node) (hfind : source.find engine rule = .ok nodes)
    (hspans : ∀ n ∈ nodes, n.shape.Spans source.text)
    (hapart : ∀ a ∈ nodes, ∀ b ∈ nodes, a ≠ b → a.shape.Apart b.shape) :
    ∃ committed ordered,
      Replaces source nodes (fun n => rule.rewritten template n.text) ordered committed ∧
      Stage.apply engine ⟨rule, .literal template⟩ source = .ok committed.text ∧
      ∀ (other : Engine) (listed : List Node), source.find other rule = .ok listed →
        (∀ n, n ∈ listed ↔ n ∈ nodes) →
        (Stage.edits other ⟨rule, .literal template⟩ source).map (Edit.commit source.text) =
          .ok committed := by
  obtain ⟨ordered, hmem, hordered⟩ := Node.exists_ordered hspans hapart
  have hspans' : ∀ n ∈ ordered, n.shape.Spans source.text := fun n hn => hspans n ((hmem n).mp hn)
  have htext : ∀ n ∈ ordered, n.text = source.textOf n.shape :=
    fun n hn => Source.text_of_find hfind n ((hmem n).mp hn)
  have hcommit : ∀ (other : Engine) (listed : List Node), source.find other rule = .ok listed →
      (∀ n, n ∈ listed ↔ n ∈ nodes) →
      (Stage.edits other ⟨rule, .literal template⟩ source).map (Edit.commit source.text) =
        .ok (Edit.commit source.text
          (Node.replacements (fun n => rule.rewritten template n.text) ordered)) := by
    intro other listed hother hlisted
    rw [edits_of_template template hother,
      ← Node.commit_replacements hspans' hordered _ fun n => (hlisted n).trans (hmem n).symm]
    rfl
  obtain ⟨happlied, hbytes⟩ :=
    Node.commit_ordered hspans' hordered htext fun n => rule.rewritten template n.text
  refine ⟨_, ordered, ⟨hmem, hordered, ?_, hbytes, happlied⟩, ?_, hcommit⟩
  · intro n hn
    rw [htext n hn, Source.bytes_textOf (hspans' n hn)]
  · rw [apply_eq_map, hcommit engine nodes hfind fun _ => Iff.rfl]
    rfl

/-- Three calls side by side. -/
def siblings : Source := { language := default, text := "f(é)f(b)g(c)" }

/-- The calls as an engine may list them: the last one first, and the first one twice. -/
def siblingCaptures : List Capture := [(9, 13), (0, 5), (5, 9), (0, 5)].map fun (start, stop) =>
  { name := "call", node := { kind := "call_expression", start, stop, named := true } }

/-- An engine that finds these calls by any query. -/
def siblingEngine : Engine where
  compile _ _ := .ok ["call"]
  captures _ _ _ := siblingCaptures

/-- A rule for calls with an argument. -/
def siblingRule : Rule :=
  { query := "(call_expression) @call", capture := some "call", pattern := some "$F($X)" }

/-- The second call has the argument already that all are to have. -/
theorem apply_replaces_siblings :
    siblings.find siblingEngine siblingRule = .ok (siblingCaptures.map siblings.node) ∧
      (∀ n ∈ siblingCaptures.map siblings.node, n.shape.Spans siblings.text) ∧
      (∀ a ∈ siblingCaptures.map siblings.node, ∀ b ∈ siblingCaptures.map siblings.node,
        a ≠ b → a.shape.Apart b.shape) ∧
      ∃ committed ordered,
        Replaces siblings (siblingCaptures.map siblings.node)
          (fun n => siblingRule.rewritten "$F(b)" n.text) ordered committed ∧
        Stage.apply siblingEngine ⟨siblingRule, .literal "$F(b)"⟩ siblings = .ok committed.text ∧
        committed = ⟨"f(b)f(b)g(b)", 2⟩ := by
  have hfind : siblings.find siblingEngine siblingRule = .ok (siblingCaptures.map siblings.node) := rfl
  have hspans : ∀ n ∈ siblingCaptures.map siblings.node, n.shape.Spans siblings.text := by
    decide +kernel
  have hapart : ∀ a ∈ siblingCaptures.map siblings.node, ∀ b ∈ siblingCaptures.map siblings.node,
      a ≠ b → a.shape.Apart b.shape := by
    decide +kernel
  obtain ⟨committed, ordered, hreplaces, happly, hany⟩ :=
    apply_replaces siblingEngine siblings siblingRule "$F(b)" _ hfind hspans hapart
  have hcommitted := hany siblingEngine _ hfind fun _ => Iff.rfl
  rw [edits_of_template "$F(b)" hfind] at hcommitted
  refine ⟨hfind, hspans, hapart, committed, ordered, hreplaces, happly, ?_⟩
  rw [← Except.ok.inj hcommitted]
  decide +kernel

end Stage

end CodeSweep
