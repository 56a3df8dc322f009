import GuidedChart.Proofs.Construction.Contributions
import GuidedChart.Proofs.Construction.Order
import GuidedChart.Proofs.Nodes
import GuidedChart.Proofs.Parsing

/-!
# No token is used twice

A later pass looks at the two children of one application: they may not share more tokens than the
configuration says. What a derivation stands on was worked out when it was made, and its children
may come from cells that many others read. Still the positions that it bears are those of the spans
at which its tree ends when it is cut at anchored nodes (`Derivation.anchoredParts`), and if no
token may be shared, these spans are disjoint. Both follow from what holds of every node by itself
(`Derivation.Placed`), and that holds because every node was found by some step
(`Task.everywhere_build`). Main statement: `Parser.exclusive`.
-/

namespace GuidedChart

/-- The token positions of a span. -/
def Span.positions : Span → List Nat
  | .anchored start stop => List.range' start (stop - start)
  | .floating _ => []

namespace Derivation

/-! ## Positions -/

theorem mem_insertPosition {p q : Nat} {ps : List Nat} :
    q ∈ insertPosition p ps ↔ q = p ∨ q ∈ ps := by
  induction ps with
  | nil => simp [insertPosition]
  | cons r rs ih =>
    unfold insertPosition
    split
    · simp
    · split
      · rename_i he
        simp [he]
      · rw [List.mem_cons, ih, List.mem_cons, or_left_comm]

theorem sorted_insertPosition {p : Nat} {ps : List Nat} (h : ps.Pairwise (· < ·)) :
    (insertPosition p ps).Pairwise (· < ·) := by
  induction ps with
  | nil => exact List.pairwise_singleton _ _
  | cons q qs ih =>
    obtain ⟨hq, hqs⟩ := List.pairwise_cons.1 h
    unfold insertPosition
    split
    · rename_i hlt
      refine List.pairwise_cons.2 ⟨fun r hr => ?_, h⟩
      rcases List.mem_cons.1 hr with rfl | hr
      · exact hlt
      · exact Nat.lt_trans hlt (hq r hr)
    · split
      · exact h
      · rename_i hle hne
        refine List.pairwise_cons.2 ⟨fun r hr => ?_, ih hqs⟩
        rcases mem_insertPosition.1 hr with rfl | hr
        · omega
        · exact hq r hr

theorem mem_anchorsOfAll {p : Nat} {ds : List Derivation} :
    p ∈ anchorsOfAll ds ↔ ∃ d ∈ ds, p ∈ d.anchors := by
  have hfold : ∀ ps qs : List Nat, p ∈ ps.foldr insertPosition qs ↔ p ∈ ps ∨ p ∈ qs := by
    intro ps qs
    induction ps with
    | nil => simp
    | cons q ps ih => rw [List.foldr_cons, mem_insertPosition, ih, List.mem_cons, or_assoc]
  induction ds with
  | nil => simp [anchorsOfAll]
  | cons d ds ih => simp [anchorsOfAll, hfold, ih]

theorem sorted_anchorsOfAll (ds : List Derivation) : (anchorsOfAll ds).Pairwise (· < ·) := by
  induction ds with
  | nil => exact .nil
  | cons d ds ih => exact List.foldrRecOn d.anchors _ ih fun _ h _ _ => sorted_insertPosition h

theorem sorted_anchorsOn (span : Span) (children : List Derivation) :
    (anchorsOn span children).Pairwise (· < ·) := by
  cases span with
  | anchored start stop =>
    rw [anchorsOn]
    exact List.pairwise_lt_range' 1
  | floating depth => exact sorted_anchorsOfAll children

theorem overlap_eq_card {d e : Derivation} (h : d.anchors.Nodup) :
    d.overlap e = (d.anchors.toFinset ∩ e.anchors.toFinset).card := by
  rw [overlap, ← List.toFinset_card_of_nodup (h.filter _)]
  congr 1
  ext p
  simp

/-! ## Cutting a tree at anchored nodes -/

mutual

/-- The anchored nodes of a derivation below which no other one is looked for, from left to
right. -/
def anchoredParts : Derivation → List Derivation
  | ⟨rule, .anchored start stop, formula, children, anchors, outcome, score⟩ =>
    [⟨rule, .anchored start stop, formula, children, anchors, outcome, score⟩]
  | ⟨_, .floating _, _, children, _, _, _⟩ => anchoredPartsAll children

def anchoredPartsAll : List Derivation → List Derivation
  | [] => []
  | d :: ds => anchoredParts d ++ anchoredPartsAll ds

end

theorem anchoredParts_of_anchored {d : Derivation} (h : d.span.isAnchored = true) :
    d.anchoredParts = [d] := by
  obtain ⟨rule, span, formula, children, anchors, outcome, score⟩ := d
  cases span with
  | anchored start stop => rw [anchoredParts]
  | floating depth => cases h

theorem anchoredParts_of_floating {d : Derivation} (h : d.span.isAnchored = false) :
    d.anchoredParts = d.children.flatMap anchoredParts := by
  have hall : ∀ ds : List Derivation, anchoredPartsAll ds = ds.flatMap anchoredParts := by
    intro ds
    induction ds with
    | nil => rw [anchoredPartsAll, List.flatMap_nil]
    | cons d ds ih => rw [anchoredPartsAll, ih, List.flatMap_cons]
  obtain ⟨rule, span, formula, children, anchors, outcome, score⟩ := d
  cases span with
  | anchored start stop => cases h
  | floating depth => rw [anchoredParts, hall]

/-- If the children bear the positions of their anchored parts, so does a derivation that bears
those of its span or of its children. -/
theorem mem_anchors_iff_of_children {d : Derivation} (h : d.anchors = anchorsOn d.span d.children)
    (hchildren : ∀ child ∈ d.children, ∀ p, p ∈ child.anchors ↔
      ∃ part ∈ child.anchoredParts, p ∈ part.span.positions) (p : Nat) :
    p ∈ d.anchors ↔ ∃ part ∈ d.anchoredParts, p ∈ part.span.positions := by
  cases hspan : d.span with
  | anchored start stop =>
    rw [h, anchoredParts_of_anchored (by rw [hspan]; rfl), hspan]
    simp [anchorsOn, hspan, Span.positions]
  | floating depth =>
    rw [h, anchoredParts_of_floating (by rw [hspan]; rfl), hspan, anchorsOn, mem_anchorsOfAll]
    simp only [List.mem_flatMap]
    constructor
    · rintro ⟨child, hchild, hp⟩
      obtain ⟨part, hpart, hp⟩ := (hchildren child hchild p).1 hp
      exact ⟨part, ⟨child, hchild, hpart⟩, hp⟩
    · rintro ⟨part, ⟨child, hchild, hpart⟩, hp⟩
      exact ⟨child, hchild, (hchildren child hchild p).2 ⟨part, hpart, hp⟩⟩

/-! ## What the single nodes say of a tree -/

/-- What holds of a node that was made by a pass with a limit: its positions are those of its span
or of its children, and of two children the limit holds. -/
structure Placed (limit : Nat) (node : Derivation) : Prop where
  anchors : node.anchors = anchorsOn node.span node.children
  length : node.children.length ≤ 2
  overlap : ∀ a b, node.children = [a, b] → a.overlap b ≤ limit

/-- What holds of a derivation of a pass with a limit on the tokens that children may share. -/
structure Exclusive (limit : Nat) (d : Derivation) : Prop where
  sorted : d.anchors.Pairwise (· < ·)
  mem_anchors : ∀ p, p ∈ d.anchors ↔ ∃ part ∈ d.anchoredParts, p ∈ part.span.positions
  shared : ∀ a b, d.children = [a, b] →
    (a.anchors.toFinset ∩ b.anchors.toFinset).card ≤ limit
  disjoint : limit = 0 → d.anchoredParts.Pairwise fun part other =>
    part.span.positions.Disjoint other.span.positions

theorem Placed.sorted {limit : Nat} {d : Derivation} (h : d.Placed limit) :
    d.anchors.Pairwise (· < ·) := by
  rw [h.anchors]
  exact sorted_anchorsOn _ _

/-- Children that share nothing have disjoint parts, one of them and the other. -/
theorem Exclusive.disjoint_of_overlap {limit : Nat} {a b : Derivation} (ha : a.Exclusive limit)
    (hb : b.Exclusive limit) (h : a.overlap b = 0) {part other : Derivation}
    (hpart : part ∈ a.anchoredParts) (hother : other ∈ b.anchoredParts) :
    part.span.positions.Disjoint other.span.positions := by
  intro p hp hq
  have hmem : p ∈ a.anchors.filter (b.anchors.contains ·) :=
    List.mem_filter.2 ⟨(ha.mem_anchors p).2 ⟨part, hpart, hp⟩,
      List.contains_iff_mem.2 ((hb.mem_anchors p).2 ⟨other, hother, hq⟩)⟩
  rw [List.length_eq_zero_iff.1 h] at hmem
  cases hmem

theorem Placed.exclusive_of_children {limit : Nat} {d : Derivation} (h : d.Placed limit)
    (hchildren : ∀ child ∈ d.children, child.Placed limit ∧ child.Exclusive limit) :
    d.Exclusive limit := by
  have hshared : ∀ a b, d.children = [a, b] →
      (a.anchors.toFinset ∩ b.anchors.toFinset).card ≤ limit := fun a b hab => by
    have hnodup : a.anchors.Nodup :=
      (hchildren a (hab ▸ List.mem_cons_self)).2.sorted.imp fun hlt => Nat.ne_of_lt hlt
    rw [← overlap_eq_card hnodup]
    exact h.overlap a b hab
  refine ⟨h.sorted, mem_anchors_iff_of_children h.anchors fun child hchild =>
    (hchildren child hchild).2.mem_anchors, hshared, fun hzero => ?_⟩
  cases hspan : d.span with
  | anchored start stop =>
    rw [anchoredParts_of_anchored (by rw [hspan]; rfl)]
    exact List.pairwise_singleton _ _
  | floating depth =>
    rw [anchoredParts_of_floating (by rw [hspan]; rfl)]
    have hwithin : ∀ child ∈ d.children, child.anchoredParts.Pairwise _ := fun child hchild =>
      (hchildren child hchild).2.disjoint hzero
    have hlength := h.length
    rcases hd : d.children with _ | ⟨a, _ | ⟨b, _ | ⟨c, rest⟩⟩⟩
    · exact .nil
    · rw [List.flatMap_singleton]
      exact hwithin a (hd ▸ List.mem_cons_self)
    · have ha : a ∈ d.children := hd ▸ List.mem_cons_self
      have hb : b ∈ d.children := hd ▸ List.mem_cons_of_mem _ List.mem_cons_self
      have hnone : a.overlap b = 0 := Nat.le_zero.1 (hzero ▸ h.overlap a b hd)
      rw [List.flatMap_cons, List.flatMap_singleton]
      exact List.pairwise_append.2 ⟨hwithin a ha, hwithin b hb, fun part hpart other hother =>
        (hchildren a ha).2.disjoint_of_overlap (hchildren b hb).2 hnone hpart hother⟩
    · -- there are no more than two children
      rw [hd, List.length_cons, List.length_cons, List.length_cons] at hlength
      omega

theorem Everywhere.exclusive_of_placed {limit : Nat} {d : Derivation}
    (h : d.Everywhere (Placed limit)) : d.Exclusive limit := by
  induction h with
  | intro here below ih =>
    exact here.exclusive_of_children fun child hc => ⟨(below child hc).here, ih child hc⟩

end Derivation

/-! ## What a pass finds -/

namespace Grammar

variable {grammar : Grammar} {step : Step}

theorem SpanStep.length_le {tokens : List String} {start stop : Nat} {within : Bool}
    (h : grammar.SpanStep tokens start stop within step) : step.sources.length ≤ 2 := by
  cases h with
  | lexical => exact Nat.zero_le 2
  | @split mid rule left right ls rs hrule hrhs hstart hstop hls hrs =>
    rw [Symbol.sources?_eq hls, Symbol.sources?_eq hrs]
    cases left.category? <;> cases right.category? <;> simp
  | promotion => exact Nat.le_succ 1

theorem DepthStep.length_le {bySize : Bool} {useful : CategoryId → Nat → Bool} {depth : Nat}
    (h : grammar.DepthStep bySize useful depth step) : step.sources.length ≤ 2 := by
  cases h with
  | nullary => exact Nat.zero_le 2
  | unary => exact Nat.le_succ 1
  | binary => exact Nat.le_refl 2

end Grammar

/-- A child that was read from an anchored cell stands on the span of the cell. -/
def Child.StandsIn (child : Child) (cell : Cell) : Prop :=
  cell.isAnchored = true → child.derivation.span = cell.span

namespace Task

variable {task : Task} {useful : CategoryId → Nat → Bool} {table : MeaningTable}
  {cancelAt : Option Nat}

theorem length_le_of_mem_plan {steps : List Step} (hsteps : steps ∈ task.plan useful) {step : Step}
    (hstep : step ∈ steps) : step.sources.length ≤ 2 := by
  obtain ⟨start, stop, within, -, hspan⟩ | ⟨depth, hdepth⟩ :=
    task.spanStep_or_depthStep_of_mem_plan hsteps hstep
  · exact hspan.length_le
  · exact hdepth.length_le

/-- What holds of all that a step finds holds of every node of every derivation. The children that
a step reads from anchored cells stand on the spans of these. -/
theorem everywhere_workAfter {P : Derivation → Prop}
    (h : ∀ steps ∈ task.plan useful, ∀ step ∈ steps, ∀ children : List Child,
      List.Forall₂ Child.StandsIn children step.sources → ∀ single g,
        task.Finds step.rule step.target children single g → P g.derivation) (n : Nat) :
    ∀ key, ∀ d ∈ (task.workAfter useful table cancelAt n).chart.derivationsOf key,
      d.Everywhere P := by
  have hboth : ∀ key, ∀ d ∈ (task.workAfter useful table cancelAt n).chart.derivationsOf key,
      (key.cell.isAnchored = true → d.span = key.cell.span) ∧ d.Everywhere P := by
    apply workAfter_induction_of_wellKept (P := fun w => ∀ key, ∀ d ∈ w.chart.derivationsOf key,
      (key.cell.isAnchored = true → d.span = key.cell.span) ∧ d.Everywhere P)
    · intro steps hsteps step hstep w hw hall key d hd
      obtain ⟨groups, hgroups, hadds⟩ := task.exists_attempts_runStep step hw.keyed
      rw [hadds.chart] at hd
      rcases Chart.mem_derivationsOf_addAll hd with hd | ⟨f, hf, rfl, rfl⟩
      · exact hall key d hd
      obtain ⟨children, hc, single, -, -, g, -, hfinds, hlift⟩ := exists_finds_of_mem hgroups hf
      have hreads : List.Forall₂ Child.StandsIn children step.sources :=
        (Work.mem_readings.1 hc).imp fun child cell hm => by
          have hcell := ((Work.mem_children hw.keyed).1 hm).1
          rw [Child.StandsIn, ← hcell]
          exact (hall _ _ (Work.mem_derivationsOf_of_mem_children hw.keyed hm)).1
      have heverywhere : g.derivation.Everywhere P := by
        refine .intro (h steps hsteps step hstep children hreads single g hfinds) fun d hd => ?_
        rw [hfinds.children_eq] at hd
        obtain ⟨child, hchild, rfl⟩ := List.mem_map.1 hd
        obtain ⟨cell, -, hm⟩ := Work.exists_cell_of_mem_readings hc hchild
        exact (hall _ _ (Work.mem_derivationsOf_of_mem_children hw.keyed hm)).2
      rcases hlift with rfl | ⟨hl, hlifted, -⟩
      · exact ⟨fun _ => hfinds.cell ▸ hfinds.span_eq, heverywhere⟩
      · rw [hl.derivation]
        refine ⟨fun hanchored => ?_, heverywhere⟩
        rw [(eq_of_mem_lift? hlifted).2.2] at hanchored
        cases hanchored
    · intro w hall key d hd
      exact hall key d ((task.settles_settle w).chart.derivationsOf hd)
    · intro key d hd
      exact absurd hd (Work.not_mem_derivationsOf_start table cancelAt key d)
  exact fun key d hd => (hboth key d hd).2

theorem everywhere_build {P : Derivation → Prop}
    (h : ∀ steps ∈ task.plan task.parser.depthBounds.admits, ∀ step ∈ steps,
      ∀ children : List Child, List.Forall₂ Child.StandsIn children step.sources → ∀ single g,
        task.Finds step.rule step.target children single g → P g.derivation) :
    ∀ record ∈ (task.build table cancelAt).chart.records, ∀ d ∈ record.derivations.toList,
      d.Everywhere P := by
  obtain ⟨n, hn⟩ := task.exists_endsAt_run task.parser.depthBounds.admits table cancelAt
  have hchart : (task.build table cancelAt).chart =
      (task.workAfter task.parser.depthBounds.admits table cancelAt n).chart := hn.chart
  intro record hr d hd
  rw [hchart, Chart.mem_records] at hr
  obtain ⟨key, hl⟩ := hr
  rw [← Chart.derivationsOf_of_lookup? hl] at hd
  exact everywhere_workAfter h n key d hd

theorem Finds.placed {step : Step} {children : List Child} {single : Bool} {g : Finding}
    (h : task.Finds step.rule step.target children single g) (hlater : task.pass ≠ .first)
    {limit : Nat} (hlimit : task.parser.config.maxAnchorOverlap = some limit)
    (hlength : children.length ≤ 2) : g.derivation.Placed limit := by
  refine ⟨?_, ?_, fun a b hab => ?_⟩
  · rw [h.span_eq, h.children_eq, h.anchors_eq]
  · rwa [h.children_eq, List.length_map]
  · rw [h.children_eq] at hab
    have hadmits : task.admits step.rule step.target children = true := h.admits
    rw [Task.admits, Bool.and_eq_true, Bool.not_eq_true', overlaps_of_later hlater, hab] at hadmits
    simpa [overlapping, hlimit] using hadmits.2

end Task

/-- In a second pass that lets children share so many tokens, every derivation bears the positions
of its anchored parts, and no two children share more. If they may share none, no token is used
twice. -/
theorem Parser.exclusive (parser : Parser) (ex : Example) (allowed : Option (Numbering Ingredient))
    (table : MeaningTable) (cancelAt : Option Nat) {limit : Nat}
    (hlimit : parser.config.maxAnchorOverlap = some limit) :
    ∀ record ∈ ((parser.secondTask ex allowed).build table cancelAt).chart.records,
      ∀ d ∈ record.derivations.toList, ∀ source node, d.Node record.key.cell source node →
        node.Exclusive limit := by
  intro record hr d hd source node hnode
  have hlater : (parser.secondTask ex allowed).pass ≠ .first := nofun
  have hplaced : d.Everywhere (Derivation.Placed limit) :=
    Task.everywhere_build (fun steps hsteps step hstep children hreads single g hfinds =>
      hfinds.placed hlater hlimit
        (hreads.length_eq ▸ Task.length_le_of_mem_plan hsteps hstep)) record hr d hd
  exact (hplaced.node hnode).exclusive_of_placed

/-- Where no token may be used twice, a number that is said twice is added to itself as it stands in
two places. -/
theorem Parser.exclusive_arithmetic :
    let parser := { Parser.arithmetic with config := { maxDepth := 1, maxAnchorOverlap := some 0 } }
    let output := (parser.secondTask ⟨["three", "three"], none⟩ none).build .empty none
    parser.config.maxAnchorOverlap = some 0 ∧
      ∃ record ∈ output.chart.records, ∃ d ∈ record.derivations.toList,
        d.anchors = [0, 1] ∧ d.anchoredParts.map (·.span) = [.anchored 0 1, .anchored 1 2] ∧
          d.Exclusive 0 := by
  intro parser output
  have hsome : (output.chart.records.flatMap fun record => record.derivations.toList.filter fun d =>
      d.anchors = [0, 1] ∧ d.anchoredParts.map (·.span) =
        [.anchored 0 1, .anchored 1 2]).isEmpty = false := by decide +kernel
  obtain ⟨d, hmem⟩ := List.exists_mem_of_ne_nil _ (List.isEmpty_eq_false_iff.1 hsome)
  obtain ⟨record, hrecord, hmem⟩ := List.mem_flatMap.1 hmem
  obtain ⟨hd, htwo⟩ := List.mem_filter.1 hmem
  obtain ⟨hanchors, hparts⟩ := of_decide_eq_true htwo
  exact ⟨rfl, record, hrecord, d, hd, hanchors, hparts,
    Parser.exclusive parser ⟨["three", "three"], none⟩ none .empty none rfl record hrecord d hd _ d
      (.root _ d)⟩

end GuidedChart
