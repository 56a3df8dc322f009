import GuidedChart.Proofs.Grammar.Chains
import GuidedChart.Proofs.Licensing
import Mathlib.Data.Multiset.Bind

/-!
# What floating cells hold

A pass that is permitted everything, drops nothing and is not stopped by the ceiling has in a
floating cell, at every depth at which its category is useful, what the floating rules come to over
the cells below; at depth zero it also has everything that anchored cells of a category hold that is
lifted (`Parser.derivations_floating`). No derivation is in cells of two depths, because the depth
can be read off the derivation (`Derivation.depth`).
-/

namespace GuidedChart

/-! ## Depths of construction -/

/-- The level below a floating rule over children of these depths. -/
def depthOver (bySize : Bool) (depths : List Nat) : Nat :=
  if bySize then depths.sum else depths.foldr max 0

/-- The depth to which a derivation is built on what stands on tokens: a floating rule over children
leads one level up from all of them together, or from the deepest of them. -/
def Derivation.depth (bySize : Bool) (d : Derivation) : Nat :=
  if d.rule.floating && !d.children.isEmpty then
    depthOver bySize (d.children.attach.map fun child => child.1.depth bySize) + 1
  else 0
termination_by sizeOf d
decreasing_by exact sizeOf_lt_of_mem_children child.2

theorem Derivation.depth_eq (bySize : Bool) (d : Derivation) :
    d.depth bySize = if d.rule.floating && !d.children.isEmpty then
      depthOver bySize (d.children.map (depth bySize)) + 1 else 0 := by
  rw [depth, List.attach_map_val]

/-- The pairs of depths of the children of a binary floating rule are all those that lead to the
level below it. -/
theorem mem_childDepths {below : Nat} {bySize : Bool} {p : Nat × Nat} :
    p ∈ childDepths (below + 1) bySize ↔ depthOver bySize [p.1, p.2] = below := by
  obtain ⟨l, r⟩ := p
  cases bySize with
  | false =>
    simp only [childDepths, depthOver, List.mem_append, List.mem_map, List.mem_range, Prod.mk.injEq,
      Bool.false_eq_true, if_false, List.foldr_cons, List.foldr_nil]
    constructor
    · rintro (⟨right, hr, rfl, rfl⟩ | ⟨left, hl, rfl, rfl⟩) <;> omega
    · intro h
      by_cases hl : l = below
      · exact Or.inl ⟨r, by omega, hl.symm, rfl⟩
      · exact Or.inr ⟨l, by omega, rfl, by omega⟩
  | true =>
    simp only [childDepths, depthOver, List.mem_map, List.mem_range, Prod.mk.injEq, if_true,
      List.sum_cons, List.sum_nil]
    constructor
    · rintro ⟨left, hl, rfl, rfl⟩
      omega
    · intro h
      exact ⟨l, by omega, rfl, by omega⟩

theorem lt_of_depthOver_eq {below : Nat} {bySize : Bool} {l r : Nat}
    (h : depthOver bySize [l, r] = below) : l < below + 1 ∧ r < below + 1 := by
  cases bySize <;> simp [depthOver] at h <;> omega

theorem nodup_childDepths (depth : Nat) (bySize : Bool) : (childDepths depth bySize).Nodup := by
  cases depth with
  | zero => exact List.nodup_nil
  | succ below =>
    simp only [childDepths]
    split
    · exact List.nodup_range.map fun l l' he => (Prod.mk.inj he).1
    · refine List.nodup_append.2 ⟨List.nodup_range.map fun r r' he => (Prod.mk.inj he).2,
        List.nodup_range.map fun l l' he => (Prod.mk.inj he).1, ?_⟩
      intro p hp q hq he
      obtain ⟨r, -, rfl⟩ := List.mem_map.1 hp
      obtain ⟨l, hl, rfl⟩ := List.mem_map.1 hq
      obtain ⟨rfl, -⟩ := Prod.mk.inj he
      exact absurd (List.mem_range.1 hl) (Nat.lt_irrefl _)

theorem val_filter_range (below : Nat) (bySize : Bool) :
    ({p ∈ Finset.range (below + 1) ×ˢ Finset.range (below + 1) |
        depthOver bySize [p.1, p.2] = below} : Finset (Nat × Nat)).val =
      (childDepths (below + 1) bySize : Multiset (Nat × Nat)) := by
  refine (Multiset.Nodup.ext (Finset.nodup _)
    (Multiset.coe_nodup.2 (nodup_childDepths _ _))).2 fun p => ?_
  rw [Finset.mem_val, Multiset.mem_coe, mem_childDepths, Finset.mem_filter, Finset.mem_product,
    Finset.mem_range, Finset.mem_range]
  exact and_iff_right_of_imp lt_of_depthOver_eq

/-! ## What floating rules come to -/

/-- The rules of a phase for a category. -/
def Grammar.rulesFor (grammar : Grammar) (phase : Phase) (category : CategoryId) : List Rule :=
  (grammar.rulesOf phase).filter (·.lhs.id = category)

theorem Grammar.mem_rulesFor {grammar : Grammar} {phase : Phase} {category : CategoryId}
    {rule : Rule} : rule ∈ grammar.rulesFor phase category ↔
      (rule ∈ grammar.rules ∧ rule.phase? = some phase) ∧ rule.lhs.id = category := by
  rw [rulesFor, List.mem_filter, mem_rulesOf, decide_eq_true_iff]

theorem Rule.length_childCategories_le (rule : Rule) :
    rule.childCategories.length ≤ rule.rhs.length :=
  List.length_filterMap_le ..

namespace Parser

/-- Do two derivations share no more tokens than two children may? -/
def mayPair (parser : Parser) (d e : Derivation) : Bool :=
  match parser.config.maxAnchorOverlap with
  | some limit => d.overlap e ≤ limit
  | none => true

variable (parser : Parser) (tokens : List String) (held : Cell → Multiset Derivation)

/-- What a floating rule over one child comes to, over what is held one level below. -/
def madeOverOne (below : Nat) (rule : Rule) : Multiset Derivation :=
  match rule.childCategories with
  | [child] => (held (.floating child below)).bind fun d =>
    parser.made tokens ⟨rule, .floating (below + 1), [d]⟩
  | _ => 0

/-- What a floating rule over two children comes to, over what is held at any two depths that lead
to the level below. -/
def madeOverTwo (below : Nat) (rule : Rule) : Multiset Derivation :=
  match rule.childCategories with
  | [left, right] =>
    ∑ p ∈ Finset.range (below + 1) ×ˢ Finset.range (below + 1) with
        depthOver parser.config.bySize [p.1, p.2] = below,
      (held (.floating left p.1)).bind fun d => (held (.floating right p.2)).bind fun e =>
        if parser.mayPair d e then parser.made tokens ⟨rule, .floating (below + 1), [d, e]⟩ else 0
  | _ => 0

/-- What a floating cell is to hold at a depth: at depth zero what the floating rules without
children come to and, if the category is lifted, all that is held over any tokens; at each further
depth what the floating rules come to over the depths below. -/
def floatingMade (category depth : Nat) : Multiset Derivation :=
  let rulesFor (phase : Phase) : Multiset Rule := parser.grammar.rulesFor phase category
  match depth with
  | 0 =>
    (rulesFor .floatingNullary).bind (fun rule => parser.made tokens ⟨rule, .floating 0, []⟩) +
      if parser.lifts category then
        ∑ p ∈ Finset.range tokens.length ×ˢ Finset.range (tokens.length + 1) with p.1 < p.2,
          held (.anchored category p.1 p.2)
      else 0
  | below + 1 =>
    (rulesFor .floatingUnary).bind (parser.madeOverOne tokens held below) +
      (rulesFor .floatingBinary).bind (parser.madeOverTwo tokens held below)

end Parser

/-! ## The steps of one depth -/

namespace Task

variable {task : Task} {held : Cell → List Derivation} {category depth below : Nat}
  {useful : CategoryId → Nat → Bool} {rule : Rule}

/-- What comes of a floating rule over derivations at a depth. -/
def combined (task : Task) (rule : Rule) (depth : Nat) (ds : List Derivation) : List Derivation :=
  if task.overlapping ds = false then task.parser.made task.tokens ⟨rule, .floating depth, ds⟩
  else []

theorem combined_pair (rule : Rule) (depth : Nat) (d e : Derivation) :
    task.combined rule depth [d, e] = if task.parser.mayPair d e then
      task.parser.made task.tokens ⟨rule, .floating depth, [d, e]⟩ else [] := by
  unfold combined overlapping Parser.mayPair
  cases task.parser.config.maxAnchorOverlap with
  | none => rfl
  | some limit => simp

theorem combined_of_length_lt {ds : List Derivation} (h : ds.length < 2) (rule : Rule)
    (depth : Nat) :
    task.combined rule depth ds = task.parser.made task.tokens ⟨rule, .floating depth, ds⟩ := by
  refine if_pos ?_
  unfold overlapping
  split
  · simp at h
  · rfl

theorem fills_floating (hl : task.pass ≠ .first) (hc : rule.lhs.id = category)
    (sources : List Cell) :
    task.fills held (.floating category depth) ⟨rule, .floating rule.lhs.id depth, sources⟩ =
      (combinations (sources.map held)).flatMap (task.combined rule depth) := by
  subst hc
  refine List.flatMap_congr fun ds _ => ?_
  rw [comesTo_eq hl]
  simp [combined, Cell.span]

/-- Of the steps of several rules at a depth, those of the rules for a category come to something
for it. -/
theorem coe_flatMap_fills (hu : useful category depth = true) {phase : Phase}
    {stepsOf : Rule → List Step} {comesTo : Rule → Multiset Derivation}
    (htarget : ∀ rule : Rule, ∀ step ∈ stepsOf rule, step.target = .floating rule.lhs.id depth)
    (h : ∀ rule ∈ task.parser.grammar.rulesFor phase category,
      ((stepsOf rule).flatMap (task.fills held (.floating category depth)) :
        Multiset Derivation) = comesTo rule) :
    (((((task.parser.grammar.rulesOf phase).filter (useful ·.lhs.id depth)).flatMap stepsOf).flatMap
      (task.fills held (.floating category depth)) : List Derivation) : Multiset Derivation) =
      (task.parser.grammar.rulesFor phase category : Multiset Rule).bind comesTo := by
  have hother : ∀ rule : Rule, rule.lhs.id ≠ category →
      (stepsOf rule).flatMap (task.fills held (.floating category depth)) = [] := by
    intro rule hc
    refine List.flatMap_eq_nil_iff.2 fun step hstep => fills_eq_nil fun hw => hc ?_
    rw [writes_floating, htarget rule step hstep] at hw
    rcases hw with he | ⟨-, hanchored, -⟩
    · exact (Cell.floating.inj he).1
    · cases hanchored
  have hrules : ((task.parser.grammar.rulesOf phase).filter (useful ·.lhs.id depth)).filter
      (·.lhs.id = category) = task.parser.grammar.rulesFor phase category := by
    rw [List.filter_filter, Grammar.rulesFor]
    refine List.filter_congr fun rule _ => ?_
    by_cases hc : rule.lhs.id = category
    · simp [hc, hu]
    · simp [hc]
  have hfilter : (((task.parser.grammar.rulesOf phase).filter (useful ·.lhs.id depth)).flatMap
      fun rule => (stepsOf rule).flatMap (task.fills held (.floating category depth))) =
      (task.parser.grammar.rulesFor phase category).flatMap
        fun rule => (stepsOf rule).flatMap (task.fills held (.floating category depth)) := by
    rw [← hrules]
    refine flatMap_eq_flatMap_filter (fun _ _ _ => rfl) fun rule _ hne => hother rule ?_
    simpa using hne
  rw [List.flatMap_assoc, hfilter, ← Multiset.coe_bind]
  exact Multiset.bind_congr h

theorem flatMap_fills_unaryStep? (hl : task.pass ≠ .first)
    (hr : rule ∈ task.parser.grammar.rulesFor .floatingUnary category) :
    ((Grammar.unaryStep? below rule).toList.flatMap
        (task.fills held (.floating category (below + 1))) : Multiset Derivation) =
      task.parser.madeOverOne task.tokens (fun cell => held cell) below rule := by
  obtain ⟨⟨-, hphase⟩, hc⟩ := Grammar.mem_rulesFor.1 hr
  obtain ⟨-, symbol, hrhs⟩ := Rule.shape_of_phase? hphase
  have hlength := rule.length_childCategories_le
  unfold Grammar.unaryStep? Parser.madeOverOne
  match hchildren : rule.childCategories with
  | [] => rfl
  | [child] =>
    simp only [List.head?_cons, Option.map_some, Option.toList_some, List.flatMap_singleton]
    rw [fills_floating hl hc, List.map_singleton, flatMap_combinations_singleton,
      ← Multiset.coe_bind]
    exact Multiset.bind_congr fun d _ => by rw [combined_of_length_lt (by simp)]
  | _ :: _ :: _ =>
    rw [hchildren, hrhs] at hlength
    simp at hlength

theorem fills_pair (hl : task.pass ≠ .first) (hc : rule.lhs.id = category) (x y : Cell) :
    (task.fills held (.floating category depth) ⟨rule, .floating rule.lhs.id depth, [x, y]⟩ :
      Multiset Derivation) =
      (held x : Multiset Derivation).bind fun d => (held y : Multiset Derivation).bind fun e =>
        if task.parser.mayPair d e then
          task.parser.made task.tokens ⟨rule, .floating depth, [d, e]⟩ else 0 := by
  rw [fills_floating hl hc, List.map_cons, List.map_singleton, flatMap_combinations_pair,
    ← Multiset.coe_bind]
  refine Multiset.bind_congr fun d _ => ?_
  rw [← Multiset.coe_bind]
  refine Multiset.bind_congr fun e _ => ?_
  rw [combined_pair]
  split <;> rfl

theorem flatMap_fills_pairSteps (hl : task.pass ≠ .first)
    (hr : rule ∈ task.parser.grammar.rulesFor .floatingBinary category) :
    ((Grammar.pairSteps task.parser.config.bySize below rule).flatMap
        (task.fills held (.floating category (below + 1))) : Multiset Derivation) =
      task.parser.madeOverTwo task.tokens (fun cell => held cell) below rule := by
  obtain ⟨⟨-, hphase⟩, hc⟩ := Grammar.mem_rulesFor.1 hr
  obtain ⟨-, first, second, hrhs⟩ := Rule.shape_of_phase? hphase
  have hlength := rule.length_childCategories_le
  unfold Grammar.pairSteps Parser.madeOverTwo
  match hchildren : rule.childCategories with
  | [] => rfl
  | [_] => rfl
  | [left, right] =>
    simp only [List.flatMap_map]
    rw [← Multiset.coe_bind]
    simp only [fills_pair hl hc, ← val_filter_range]
    rfl
  | _ :: _ :: _ :: _ =>
    rw [hchildren, hrhs] at hlength
    simp at hlength

/-- At depth zero the floating rules without children apply. -/
theorem flatMap_fills_depth_zero (hl : task.pass ≠ .first) (hu : useful category 0 = true) :
    (((task.depthSteps useful 0).flatMap (task.fills held (.floating category 0)) :
      List Derivation) : Multiset Derivation) =
      (task.parser.grammar.rulesFor .floatingNullary category : Multiset Rule).bind fun rule =>
        task.parser.made task.tokens ⟨rule, .floating 0, []⟩ := by
  rw [depthSteps, Grammar.depthSteps, ← List.flatMap_pure_eq_map]
  refine coe_flatMap_fills hu ?_ ?_
  · intro rule step hstep
    rw [List.mem_singleton.1 hstep]
  · intro rule hr
    obtain ⟨-, hc⟩ := Grammar.mem_rulesFor.1 hr
    simp only [Function.comp_apply, List.pure_def, List.flatMap_singleton]
    rw [fills_floating hl hc]
    simp [combinations, combined_of_length_lt]

/-- At a further depth the floating rules over one child and over two apply. -/
theorem flatMap_fills_depth_succ (hl : task.pass ≠ .first)
    (hu : useful category (below + 1) = true) :
    (((task.depthSteps useful (below + 1)).flatMap
        (task.fills held (.floating category (below + 1))) : List Derivation) :
      Multiset Derivation) =
      (task.parser.grammar.rulesFor .floatingUnary category : Multiset Rule).bind
          (task.parser.madeOverOne task.tokens (fun cell => held cell) below) +
        (task.parser.grammar.rulesFor .floatingBinary category : Multiset Rule).bind
          (task.parser.madeOverTwo task.tokens (fun cell => held cell) below) := by
  rw [depthSteps, Grammar.depthSteps_succ, List.filterMap_eq_flatMap_toList, List.flatMap_append,
    ← Multiset.coe_add]
  congr 1
  · refine coe_flatMap_fills hu ?_ fun rule hr => flatMap_fills_unaryStep? hl hr
    intro rule step hstep
    obtain ⟨child, -, rfl⟩ := Option.map_eq_some_iff.1 (Option.mem_toList.1 hstep)
    rfl
  · refine coe_flatMap_fills hu ?_ fun rule hr => flatMap_fills_pairSteps hl hr
    intro rule step hstep
    unfold Grammar.pairSteps at hstep
    split at hstep
    · obtain ⟨p, -, rfl⟩ := List.mem_map.1 hstep
      rfl
    · cases hstep

end Task

/-! ## The depth of what a floating cell holds -/

namespace Grammar

variable {grammar : Grammar} {step : Step}

theorem SpanStep.floating_eq {tokens : List String} {start stop : Nat} {within : Bool}
    (hs : grammar.SpanStep tokens start stop within step) (h : grammar.Accepted) :
    step.rule.floating = false := by
  cases hs with
  | lexical hrule => exact (Rule.shape_of_phase? (mem_rulesOf.1 hrule).2).1
  | split hrule => exact (Rule.shape_of_phase? (mem_rulesOf.1 hrule).2).1
  | promotion hrule =>
    have hmem := mem_rulesOf.1 (h.promotions_perm.subset hrule)
    exact (Rule.shape_of_phase? hmem.2).1

/-- A step at a depth reads nothing if the depth is zero, and otherwise cells whose depths lead to
the level below. -/
theorem DepthStep.exists_children {bySize : Bool} {useful : CategoryId → Nat → Bool} {depth : Nat}
    (hs : grammar.DepthStep bySize useful depth step) :
    step.rule.floating = true ∧ ∃ children : List (CategoryId × Nat),
      step.sources = children.map (fun child => .floating child.1 child.2) ∧
      depth = if children = [] then 0 else depthOver bySize (children.map (·.2)) + 1 := by
  cases hs with
  | nullary hrule =>
    obtain ⟨-, hphase⟩ := mem_rulesOf.1 hrule
    exact ⟨(Rule.shape_of_phase? hphase).1, [], rfl, rfl⟩
  | @unary rule below child hrule =>
    obtain ⟨-, hphase⟩ := mem_rulesOf.1 hrule
    refine ⟨(Rule.shape_of_phase? hphase).1, [(child, below)], rfl, ?_⟩
    cases bySize <;> simp [depthOver]
  | @binary rule below left right others depths hrule _ _ hdepths =>
    obtain ⟨-, hphase⟩ := mem_rulesOf.1 hrule
    refine ⟨(Rule.shape_of_phase? hphase).1, [(left, depths.1), (right, depths.2)], rfl, ?_⟩
    rw [if_neg (List.cons_ne_nil _ _)]
    exact congrArg (· + 1) (mem_childDepths.1 hdepths).symm

end Grammar

namespace Task

variable {task : Task} {useful : CategoryId → Nat → Bool} {table : MeaningTable}

/-- In a finished chart, a floating cell holds derivations of its own depth only. -/
theorem depth_of_mem_floating (h : task.parser.grammar.Accepted) (hl : task.pass ≠ .first)
    (ha : task.allowed = none) (hb : (task.runWith useful table none).report.beamDropped = 0)
    {category depth : Nat} {d : Derivation}
    (hd : d ∈ (task.runWith useful table none).chart.derivations (.floating category depth)) :
    d.depth task.parser.config.bySize = depth := by
  obtain ⟨depths, -, -, hperm⟩ := exists_derivations_perm h hl ha hb
  induction d using Derivation.induction_children generalizing category depth with
  | h d ih =>
    obtain ⟨step, hstep, hfills⟩ := List.mem_flatMap.1 ((hperm _).subset hd)
    obtain ⟨hwrites, ds, hds, hmade⟩ := exists_made_of_mem_fills hl hfills
    rw [writes_floating] at hwrites
    rw [Parser.children_of_mem_made hmade] at ih
    rw [Derivation.depth_eq, Parser.rule_of_mem_made hmade, Parser.children_of_mem_made hmade]
    rcases List.mem_append.1 hstep with hstep | hstep
    · -- lifted from an anchored cell
      rw [flatten_anchoredSchedule] at hstep
      obtain ⟨span, -, hstep⟩ := List.mem_flatMap.1 hstep
      obtain ⟨within, hspan⟩ := Grammar.exists_spanStep_of_mem hstep
      rw [hspan.target_eq] at hwrites
      rw [hspan.floating_eq h]
      rcases hwrites with hcell | ⟨rfl, -⟩
      · cases hcell
      · rfl
    · -- made at its depth, of children from the depths below
      obtain ⟨k, -, hstep⟩ := List.mem_flatMap.1 hstep
      have hdepth := Grammar.depthStep_of_mem hstep
      rw [hdepth.target_eq] at hwrites
      rcases hwrites with hcell | ⟨-, hanchored, -⟩
      · obtain ⟨-, rfl⟩ := Cell.floating.inj hcell
        obtain ⟨hfloating, children, hsources, hover⟩ := hdepth.exists_children
        rw [hsources, List.forall₂_map_right_iff] at hds
        have hdepths : ds.map (Derivation.depth task.parser.config.bySize) =
            children.map (·.2) := by
          refine Work.map_eq_map_of_forall₂ ((List.forall₂_and_left _ _).2 ⟨ih, hds⟩) ?_
          rintro e child - ⟨he, hin⟩
          exact he hin
        rw [hfloating, hdepths, hover]
        cases hds with
        | nil => rfl
        | cons => simp
      · cases hanchored

theorem val_filter_product (numTokens : Nat) :
    ({p ∈ Finset.range numTokens ×ˢ Finset.range (numTokens + 1) | p.1 < p.2} :
      Finset (Nat × Nat)).val = (spans numTokens : Multiset (Nat × Nat)) := by
  refine (Multiset.Nodup.ext (Finset.nodup _) (Multiset.coe_nodup.2 (nodup_spans _))).2 ?_
  rintro ⟨start, stop⟩
  rw [Finset.mem_val, Multiset.mem_coe, mem_spans, Finset.mem_filter, Finset.mem_product,
    Finset.mem_range, Finset.mem_range]
  omega

/-- In a finished chart, a floating cell holds what it is to hold wherever its category is
useful. -/
theorem derivations_floating_run (h : task.parser.grammar.Accepted) (hl : task.pass ≠ .first)
    (ha : task.allowed = none) (hb : (task.runWith useful table none).report.beamDropped = 0)
    (hc : (task.runWith useful table none).report.hitCeiling = false) {category depth : Nat}
    (hu : useful category depth = true) (hle : depth ≤ task.parser.config.maxDepth) :
    ((task.runWith useful table none).chart.derivations (.floating category depth) :
      Multiset Derivation) =
      task.parser.floatingMade task.tokens
        (fun cell => (task.runWith useful table none).chart.derivations cell) category depth := by
  rw [Multiset.coe_eq_coe.2 (derivations_floating_perm h hl ha hb hc hle), ← Multiset.coe_add]
  cases depth with
  | zero =>
    rw [flatMap_fills_depth_zero hl hu, add_comm]
    simp only [Parser.floatingMade, true_and]
    congr 1
    split
    · rw [← Multiset.coe_bind, Finset.sum_eq_multiset_sum, val_filter_product]
      rfl
    · rfl
  | succ below =>
    rw [flatMap_fills_depth_succ hl hu]
    simp [Parser.floatingMade]

end Task

namespace Parser

/-- A second pass that may use everything, drops nothing and is not stopped by the ceiling, from
whatever table it starts, has in a floating cell whose category is useful at its depth exactly what
the cell is to hold. Every floating cell holds derivations of its own depth only. -/
theorem derivations_floating {parser : Parser} (h : parser.grammar.Accepted) (ex : Example)
    (table : MeaningTable)
    (hb : ((parser.secondTask ex none).build table none).report.beamDropped = 0)
    (hc : ((parser.secondTask ex none).build table none).report.hitCeiling = false) :
    let held (cell : Cell) : Multiset Derivation :=
      ((parser.secondTask ex none).build table none).chart.derivations cell
    (∀ category bound, parser.depthBounds.bound? category = some bound → ∀ depth ≤ bound,
      held (.floating category depth) =
        parser.floatingMade ex.tokens held category depth) ∧
    ∀ category depth, ∀ d ∈ held (.floating category depth),
      d.depth parser.config.bySize = depth := by
  have haccepted : (parser.secondTask ex none).parser.grammar.Accepted := h
  have hlater : (parser.secondTask ex none).pass ≠ .first := nofun
  refine ⟨fun category bound hbound depth hdepth => ?_, fun category depth d hd => ?_⟩
  · have hu : parser.depthBounds.admits category depth = true := by
      simpa [DepthBounds.admits, hbound] using hdepth
    have hle : depth ≤ parser.config.maxDepth :=
      Nat.le_trans hdepth (Grammar.le_of_bound?_depthBounds hbound)
    exact Task.derivations_floating_run haccepted hlater rfl hb hc hu hle
  · exact Task.depth_of_mem_floating haccepted hlater rfl hb hd

/-- Over what the second pass holds, the floating rules make a term of depth one. -/
theorem exists_mem_floatingMade_terms :
    let chart := ((Parser.terms.secondTask .difference none).build .empty none).chart
    ∃ d ∈ Parser.terms.floatingMade Example.difference.tokens (fun cell => chart.derivations cell)
        1 1,
      d.depth Parser.terms.config.bySize = 1 := by
  intro chart
  have haccepted : Parser.terms.grammar.Accepted := Grammar.accepted_terms
  obtain ⟨hheld, hdepth⟩ := derivations_floating haccepted .difference .empty (by decide +kernel)
    (by decide +kernel)
  have hbound : Parser.terms.depthBounds.bound? 1 = some 1 := by decide +kernel
  have hsome : (chart.derivations (.floating 1 1)).isEmpty = false := by decide +kernel
  obtain ⟨d, hd⟩ := List.exists_mem_of_ne_nil _ (List.isEmpty_eq_false_iff.1 hsome)
  refine ⟨d, ?_, hdepth 1 1 d hd⟩
  rw [← hheld 1 1 hbound 1 (Nat.le_refl 1)]
  exact hd

end Parser

end GuidedChart
