import GuidedChart.Proofs.Exclusion
import GuidedChart.Tree

/-!
# The leaves of a tree

A syntax tree has no positions of its own. A leaf is put at the start of the span of its rule if it
belongs to the first symbol and at the last token of the span otherwise, and the trees of the
children are handed to the categories one after the other. That this reads back the tokens is owed
to the steps: the symbols of an anchored rule stand in a row on its span, each on tokens of its own
(`Derivation.Row`), there are two of them at most, and floating rules have no tokens
(`Derivation.Grounded`). Main statement: every derivation of a chart has a tree, whose leaves are
the tokens of its anchored parts (`Task.readsBack_build`).
-/

namespace GuidedChart

/-! ## Leaves -/

namespace Tree

mutual

/-- The tokens of a tree with their positions, from left to right. -/
def leaves : Tree → List (Nat × String)
  | .leaf word position => [(position, word)]
  | .branch _ _ children => leavesAll children

def leavesAll : List Tree → List (Nat × String)
  | [] => []
  | t :: ts => leaves t ++ leavesAll ts

end

theorem leaves_branch (label : String) (span : Span) (children : List Tree) :
    (branch label span children).leaves = children.flatMap leaves := by
  rw [leaves]
  induction children with
  | nil => rfl
  | cons t ts ih => rw [leavesAll, ih, List.flatMap_cons]

/-- The leaves, with their words as they would be looked up. -/
def lookups (tree : Tree) : List (Nat × Option String) :=
  tree.leaves.map fun leaf => (leaf.1, some leaf.2)

theorem lookups_leaf (word : String) (position : Nat) :
    (leaf word position).lookups = [(position, some word)] := by
  simp [lookups, leaves]

theorem lookups_branch (label : String) (span : Span) (children : List Tree) :
    (branch label span children).lookups = children.flatMap lookups := by
  rw [lookups, leaves_branch, List.map_flatMap]
  rfl

end Tree

/-- Positions, each with what stands there. -/
def lookUp (tokens : List String) (positions : List Nat) : List (Nat × Option String) :=
  positions.map fun p => (p, tokens[p]?)

namespace Derivation

/-- What the leaves of a derivation should be: the tokens of its anchored parts, one part after the
other. -/
def partLookups (tokens : List String) (d : Derivation) : List (Nat × Option String) :=
  d.anchoredParts.flatMap fun part => lookUp tokens part.span.positions

/-- The tree of a derivation and what it says of the tokens. -/
structure ReadsBack (tokens : List String) (d : Derivation) (tree : Tree) : Prop where
  tree? : d.tree? = some tree
  lookups : tree.lookups = d.partLookups tokens
  /-- The leaves of an anchored derivation are the tokens of its span, each once. -/
  anchored : ∀ start stop, d.span = .anchored start stop → start < stop ∧ stop ≤ tokens.length ∧
    tree.leaves.map (·.1) = List.range' start (stop - start)
  anchors : ∀ p, p ∈ tree.leaves.map (·.1) ↔ p ∈ d.anchors

/-! ## Symbols in a row -/

/-- Symbols stand on the tokens from one position up to another, next to each other: a token on
itself, a category on the span of the next child. -/
inductive Row (tokens : List String) (stop : Nat) : Nat → List Symbol → List Derivation → Prop
  | nil : Row tokens stop stop [] []
  | terminal {start : Nat} {token : String} {symbols : List Symbol} {ds : List Derivation} :
    tokens[start]? = some token → Row tokens stop (start + 1) symbols ds →
    Row tokens stop start (.terminal token :: symbols) ds
  | nonterminal {start mid : Nat} {category : Category} {symbols : List Symbol} {d : Derivation}
    {ds : List Derivation} : d.span = .anchored start mid → start < mid →
    Row tokens stop mid symbols ds →
    Row tokens stop start (.nonterminal category :: symbols) (d :: ds)

/-- How a node stands on the tokens. -/
structure Grounded (tokens : List String) (d : Derivation) : Prop where
  anchors : d.anchors = anchorsOn d.span d.children
  anchored : ∀ start stop, d.span = .anchored start stop →
    d.rule.rhs ≠ [] ∧ d.rule.rhs.length ≤ 2 ∧ Row tokens stop start d.rule.rhs d.children
  /-- A floating rule has categories only, and a child for each of them. -/
  floating : d.span.isAnchored = false →
    List.Forall₂ (fun symbol _ => symbol.category?.isSome = true) d.rule.rhs d.children

section Rows

variable {tokens : List String} {start stop : Nat} {symbols : List Symbol} {ds : List Derivation}

theorem Row.le (h : Row tokens stop start symbols ds) : start ≤ stop := by
  induction h with
  | nil => exact Nat.le_refl _
  | terminal _ _ ih => omega
  | nonterminal _ _ _ ih => omega

theorem Row.lt (h : Row tokens stop start symbols ds) (hne : symbols ≠ []) : start < stop := by
  cases h with
  | nil => exact absurd rfl hne
  | terminal _ hrest => exact hrest.le
  | nonterminal _ hlt hrest => exact Nat.lt_of_lt_of_le hlt hrest.le

theorem lookUp_append {mid : Nat} (hstart : start ≤ mid) (hstop : mid ≤ stop) :
    lookUp tokens (List.range' start (mid - start)) ++
        lookUp tokens (List.range' mid (stop - mid)) =
      lookUp tokens (List.range' start (stop - start)) := by
  have hrange : List.range' start (mid - start) ++ List.range' mid (stop - mid) =
      List.range' start (stop - start) := by
    have h := List.range'_append_1 (s := start) (m := mid - start) (n := stop - mid)
    rwa [Nat.add_sub_cancel' hstart, show mid - start + (stop - mid) = stop - start by omega] at h
  rw [← hrange, lookUp, lookUp, lookUp, List.map_append]

theorem lookUp_succ {token : String} (h : tokens[start]? = some token) :
    lookUp tokens (List.range' start (start + 1 - start)) = [(start, some token)] := by
  rw [Nat.add_sub_cancel_left]
  simp [lookUp, h]

theorem partLookups_of_anchored {d : Derivation} (h : d.span = .anchored start stop) :
    d.partLookups tokens = lookUp tokens (List.range' start (stop - start)) := by
  rw [partLookups, anchoredParts_of_anchored (by rw [h]; rfl), List.flatMap_singleton, h]
  rfl

/-- The tree has the tokens of the anchored parts for leaves. -/
def HasTree (tokens : List String) (d : Derivation) : Prop :=
  ∃ tree, d.tree? = some tree ∧ tree.lookups = d.partLookups tokens

/-- The trees below a rule that has at most two symbols in a row on its span. Only the first symbol
is looked for at the start of the span; a token that comes later is the last one. -/
theorem Row.exists_subtrees {p : Nat} (h : Row tokens stop p symbols ds) (isFirst : Bool)
    (hfirst : isFirst = true → p = start) (hlength : symbols.length ≤ if isFirst then 2 else 1)
    (hds : ∀ d ∈ ds, d.HasTree tokens) :
    ∃ ts, subtrees? (.anchored start stop) isFirst symbols (trees ds) = some ts ∧
      ts.flatMap Tree.lookups = lookUp tokens (List.range' p (stop - p)) := by
  induction h generalizing isFirst with
  | nil => exact ⟨[], rfl, by simp [lookUp]⟩
  | @terminal p token symbols ds htoken hrest ih =>
    have hposition : tokenPosition? (.anchored start stop) isFirst = some p := by
      cases isFirst with
      | true => rw [hfirst rfl, tokenPosition?, if_pos rfl]
      | false =>
        obtain rfl : symbols = [] := List.length_eq_zero_iff.1 (by simpa using hlength)
        cases hrest with
        | nil => simp [tokenPosition?]
    obtain ⟨ts, hts, hleaves⟩ := ih false nofun (by cases isFirst <;> simp_all) hds
    refine ⟨.leaf token p :: ts, ?_, ?_⟩
    · simp [subtrees?, hposition, hts]
    · rw [List.flatMap_cons, Tree.lookups_leaf, hleaves, ← lookUp_succ htoken,
        lookUp_append (Nat.le_succ p) hrest.le]
  | @nonterminal p mid category symbols d ds hspan hlt hrest ih =>
    obtain ⟨tree, htree, hlookups⟩ := hds d List.mem_cons_self
    obtain ⟨ts, hts, hleaves⟩ := ih false nofun (by cases isFirst <;> simp_all)
      fun e he => hds e (List.mem_cons_of_mem _ he)
    refine ⟨tree :: ts, ?_, ?_⟩
    · simp [trees, subtrees?, htree, hts]
    · rw [List.flatMap_cons, hlookups, hleaves, partLookups_of_anchored hspan,
        lookUp_append hlt.le hrest.le]

/-- The trees below a floating rule are those of its children. -/
theorem exists_subtrees_of_categories (span : Span) (isFirst : Bool)
    (h : List.Forall₂ (fun symbol _ => symbol.category?.isSome = true) symbols ds)
    (hds : ∀ d ∈ ds, d.HasTree tokens) :
    ∃ ts, subtrees? span isFirst symbols (trees ds) = some ts ∧
      ts.flatMap Tree.lookups = ds.flatMap (partLookups tokens) := by
  induction h generalizing isFirst with
  | nil => exact ⟨[], rfl, rfl⟩
  | @cons symbol d symbols ds hsymbol _ ih =>
    obtain ⟨tree, htree, hlookups⟩ := hds d List.mem_cons_self
    obtain ⟨ts, hts, hleaves⟩ := ih false fun e he => hds e (List.mem_cons_of_mem _ he)
    cases symbol with
    | terminal token => cases hsymbol
    | nonterminal category =>
      refine ⟨tree :: ts, ?_, ?_⟩
      · simp [trees, subtrees?, htree, hts]
      · rw [List.flatMap_cons, List.flatMap_cons, hlookups, hleaves]

end Rows

/-! ## Trees of grounded derivations -/

theorem hasTree_of_subtrees {tokens : List String} {d : Derivation} {ts : List Tree}
    (h : subtrees? d.span true d.rule.rhs (trees d.children) = some ts)
    (hts : ts.flatMap Tree.lookups = d.partLookups tokens) : d.HasTree tokens := by
  obtain ⟨rule, span, formula, children, anchors, outcome, score⟩ := d
  simp only [HasTree, tree?, h]
  exact ⟨_, rfl, (Tree.lookups_branch ..).trans hts⟩

theorem Grounded.hasTree {tokens : List String} {d : Derivation} (h : d.Grounded tokens)
    (hchildren : ∀ child ∈ d.children, child.HasTree tokens) : d.HasTree tokens := by
  cases hspan : d.span with
  | anchored start stop =>
    obtain ⟨-, hlength, hrow⟩ := h.anchored start stop hspan
    obtain ⟨ts, hts, hlookups⟩ :=
      hrow.exists_subtrees true (fun _ => rfl) hlength hchildren
    exact hasTree_of_subtrees (hspan ▸ hts) (hlookups.trans (partLookups_of_anchored hspan).symm)
  | floating depth =>
    have hfloating : d.span.isAnchored = false := by rw [hspan]; rfl
    obtain ⟨ts, hts, hlookups⟩ := exists_subtrees_of_categories d.span true
      (h.floating hfloating) hchildren
    refine hasTree_of_subtrees hts (hlookups.trans ?_)
    rw [partLookups, anchoredParts_of_floating hfloating, List.flatMap_assoc]
    rfl

theorem Everywhere.hasTree {tokens : List String} {d : Derivation}
    (h : d.Everywhere (Grounded tokens)) : d.HasTree tokens := by
  induction h with
  | intro here below ih => exact here.hasTree ih

theorem Everywhere.mem_anchors_iff {tokens : List String} {d : Derivation}
    (h : d.Everywhere (Grounded tokens)) :
    ∀ p, p ∈ d.anchors ↔ ∃ part ∈ d.anchoredParts, p ∈ part.span.positions := by
  induction h with
  | intro here below ih => exact mem_anchors_iff_of_children here.anchors ih

/-- A derivation all of whose nodes stand on the tokens has a tree, and that reads them back. -/
theorem Everywhere.exists_readsBack {tokens : List String} {d : Derivation}
    (h : d.Everywhere (Grounded tokens)) : ∃ tree, d.ReadsBack tokens tree := by
  obtain ⟨tree, htree, hlookups⟩ := h.hasTree
  have hpositions : tree.leaves.map (·.1) = d.anchoredParts.flatMap (·.span.positions) := by
    have hfirst := congrArg (List.map (·.1)) hlookups
    simpa [Tree.lookups, partLookups, lookUp, List.map_flatMap, Function.comp_def] using hfirst
  refine ⟨tree, htree, hlookups, fun start stop hspan => ?_, fun p => ?_⟩
  · obtain ⟨hne, -, hrow⟩ := h.here.anchored start stop hspan
    have hlt := hrow.lt hne
    refine ⟨hlt, ?_, ?_⟩
    · -- the last leaf has a word, so there is a token at the last position
      rw [partLookups_of_anchored hspan] at hlookups
      have hlast : (stop - 1, tokens[stop - 1]?) ∈ tree.lookups := by
        rw [hlookups]
        exact List.mem_map.2 ⟨stop - 1, List.mem_range'_1.2 (by omega), rfl⟩
      obtain ⟨leaf, -, he⟩ := List.mem_map.1 hlast
      obtain ⟨hbound, -⟩ := List.getElem?_eq_some_iff.1 (Prod.mk.inj he).2.symm
      omega
    · rw [hpositions, anchoredParts_of_anchored (by rw [hspan]; rfl), List.flatMap_singleton, hspan]
      rfl
  · rw [hpositions, h.mem_anchors_iff, List.mem_flatMap]

end Derivation

/-! ## What steps put together -/

/-- A symbol that stands on a span, with what was read for it, goes before a row. -/
theorem Symbol.row_of_sources? {tokens : List String} {start mid stop : Nat} {symbol : Symbol}
    {cells : List Cell} (h : symbol.sources? tokens start mid = some cells) (hlt : start < mid)
    {children : List Child} (hreads : List.Forall₂ Child.StandsIn children cells)
    {symbols : List Symbol} {ds : List Derivation}
    (hrest : Derivation.Row tokens stop mid symbols ds) :
    Derivation.Row tokens stop start (symbol :: symbols) (children.map (·.derivation) ++ ds) := by
  cases symbol with
  | terminal token =>
    simp only [Symbol.sources?] at h
    split at h
    · rename_i hthere
      obtain ⟨rfl, htoken⟩ := hthere
      cases h
      cases hreads
      exact .terminal htoken hrest
    · cases h
  | nonterminal category =>
    cases h
    cases hreads with
    | cons hchild hnone =>
      cases hnone
      exact .nonterminal (hchild rfl) hlt hrest

namespace Grammar

variable {grammar : Grammar} {step : Step} {children : List Child}

theorem SpanStep.row {tokens : List String} {start stop : Nat} {within : Bool}
    (hs : grammar.SpanStep tokens start stop within step) (h : grammar.Accepted)
    (hlt : start < stop) (hreads : List.Forall₂ Child.StandsIn children step.sources) :
    step.rule.rhs ≠ [] ∧ step.rule.rhs.length ≤ 2 ∧
      Derivation.Row tokens stop start step.rule.rhs (children.map (·.derivation)) := by
  cases hs with
  | lexical hrule htoken hstop =>
    obtain ⟨-, hrhs⟩ := Rule.shape_of_phase? (mem_rulesOf.1 hrule).2
    cases hreads
    rw [hrhs]
    exact ⟨List.cons_ne_nil _ _, by simp, .terminal htoken (hstop ▸ .nil)⟩
  | split hrule hrhs hstart hstop hls hrs =>
    have hleft := List.forall₂_take_append _ _ _ hreads
    have hright := List.forall₂_drop_append _ _ _ hreads
    have hrow := Symbol.row_of_sources? hls hstart hleft
      (Symbol.row_of_sources? hrs hstop hright .nil)
    rw [List.append_nil, ← List.map_append, List.take_append_drop] at hrow
    rw [hrhs]
    exact ⟨List.cons_ne_nil _ _, Nat.le_refl 2, hrow⟩
  | promotion hrule hchild =>
    obtain ⟨-, category, hrhs⟩ :=
      Rule.shape_of_phase? (mem_rulesOf.1 (h.promotions_perm.subset hrule)).2
    rw [Rule.childCategories, hrhs] at hchild
    cases hchild
    rw [hrhs]
    have hsources : (Symbol.nonterminal category).sources? tokens start stop =
        some [.anchored category.id start stop] := rfl
    have hrow := Symbol.row_of_sources? hsources hlt hreads .nil
    rw [List.append_nil] at hrow
    exact ⟨List.cons_ne_nil _ _, Nat.le_succ 1, hrow⟩

theorem DepthStep.categories {bySize : Bool} {useful : CategoryId → Nat → Bool} {depth : Nat}
    (hs : grammar.DepthStep bySize useful depth step)
    (hlength : children.length = step.sources.length) :
    List.Forall₂ (fun symbol _ => symbol.category?.isSome = true) step.rule.rhs
      (children.map (·.derivation)) := by
  cases hs with
  | nullary hrule =>
    obtain ⟨-, hrhs⟩ := Rule.shape_of_phase? (mem_rulesOf.1 hrule).2
    rw [hrhs, List.length_eq_zero_iff.1 hlength]
    exact .nil
  | unary hrule _ hchild =>
    obtain ⟨-, symbol, hrhs⟩ := Rule.shape_of_phase? (mem_rulesOf.1 hrule).2
    obtain ⟨child, rfl⟩ := List.length_eq_one_iff.1 hlength
    rw [Rule.childCategories, hrhs] at hchild
    rw [hrhs]
    cases symbol with
    | terminal token => cases hchild
    | nonterminal category => exact .cons rfl .nil
  | binary hrule _ hchildren =>
    obtain ⟨-, left, right, hrhs⟩ := Rule.shape_of_phase? (mem_rulesOf.1 hrule).2
    obtain ⟨c, d, rfl⟩ := List.length_eq_two.1 hlength
    rw [Rule.childCategories, hrhs] at hchildren
    rw [hrhs]
    cases left <;> cases right <;> first
      | exact .cons rfl (.cons rfl .nil)
      | cases hchildren

end Grammar

/-- Whatever a step finds stands on the tokens. -/
theorem Task.Finds.grounded {task : Task} {useful : CategoryId → Nat → Bool}
    (h : task.parser.grammar.Accepted) {steps : List Step} (hsteps : steps ∈ task.plan useful)
    {step : Step} (hstep : step ∈ steps) {children : List Child}
    (hreads : List.Forall₂ Child.StandsIn children step.sources) {single : Bool} {g : Finding}
    (hfinds : task.Finds step.rule step.target children single g) :
    g.derivation.Grounded task.tokens := by
  have hanchors : g.derivation.anchors =
      Derivation.anchorsOn g.derivation.span g.derivation.children := by
    rw [hfinds.anchors_eq, hfinds.span_eq, hfinds.children_eq]
  obtain ⟨start, stop, within, hlt, hspan⟩ | ⟨depth, hdepth⟩ :=
    task.spanStep_or_depthStep_of_mem_plan hsteps hstep
  · have htarget : g.derivation.span = .anchored start stop := by
      rw [hfinds.span_eq, hspan.target_eq]
      rfl
    refine ⟨hanchors, fun i j hij => ?_, fun hfloating => ?_⟩
    · obtain ⟨rfl, rfl⟩ := Span.anchored.inj (htarget.symm.trans hij)
      rw [hfinds.rule_eq, hfinds.children_eq]
      exact hspan.row h hlt hreads
    · rw [htarget] at hfloating
      cases hfloating
  · have htarget : g.derivation.span = .floating depth := by
      rw [hfinds.span_eq, hdepth.target_eq]
      rfl
    refine ⟨hanchors, fun i j hij => ?_, fun _ => ?_⟩
    · rw [htarget] at hij
      cases hij
    · rw [hfinds.rule_eq, hfinds.children_eq]
      exact hdepth.categories hreads.length_eq

/-- The trees of a chart read back the tokens: every derivation has a tree, whose leaves are the
tokens of its anchored parts, in any pass, whatever it is allowed to use and whenever it is
cancelled. -/
theorem Task.readsBack_build (task : Task) (h : task.parser.grammar.Accepted)
    (table : MeaningTable) (cancelAt : Option Nat) :
    ∀ record ∈ (task.build table cancelAt).chart.records, ∀ d ∈ record.derivations.toList,
      ∃ tree, d.ReadsBack task.tokens tree := by
  intro record hr d hd
  have hgrounded : d.Everywhere (Derivation.Grounded task.tokens) :=
    everywhere_build (fun _ hsteps _ hstep _ hreads _ _ hfinds =>
      hfinds.grounded h hsteps hstep hreads) record hr d hd
  exact hgrounded.exists_readsBack

/-- A negated number and a number are multiplied at depth one: the leaves of the product are those
of its two anchored parts, the first of which has a token of its own. -/
theorem Task.readsBack_build_terms :
    let task := Parser.terms.secondTask .difference none
    task.parser.grammar.Accepted ∧
      ∃ record ∈ (task.build .empty none).chart.records, ∃ d ∈ record.derivations.toList,
        d.span = .floating 1 ∧
          d.anchoredParts.map (·.span) = [.anchored 0 2, .anchored 2 3] ∧
          ∃ tree, d.ReadsBack task.tokens tree ∧
            tree.lookups = [(0, some "minus"), (1, some "three"), (2, some "three")] := by
  intro task
  have hsome : ((task.build .empty none).chart.records.any fun record =>
      record.derivations.toList.any fun d => d.span = .floating 1 ∧
        d.anchoredParts.map (·.span) = [.anchored 0 2, .anchored 2 3]) = true := by
    decide +kernel
  obtain ⟨record, hrecord, hany⟩ := List.any_eq_true.1 hsome
  obtain ⟨d, hd, hboth⟩ := List.any_eq_true.1 hany
  obtain ⟨hspan, hparts⟩ := of_decide_eq_true hboth
  obtain ⟨tree, htree⟩ :=
    Task.readsBack_build task Grammar.accepted_terms .empty none record hrecord d hd
  refine ⟨Grammar.accepted_terms, record, hrecord, d, hd, hspan, hparts, tree, htree, ?_⟩
  have hlookups : d.partLookups task.tokens = (d.anchoredParts.map (·.span)).flatMap fun span =>
      lookUp task.tokens span.positions := by
    rw [List.flatMap_map]
    rfl
  rw [htree.lookups, hlookups, hparts]
  rfl

end GuidedChart
