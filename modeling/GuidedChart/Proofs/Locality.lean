import GuidedChart.Proofs.Construction.Mirror

/-!
# What a span means depends on its own tokens

A pass over some tokens is compared with a pass over a part of them, which begins further on. A
derivation of the part is one of the whole, moved (`Derivation.move`): the same rules and formulas,
on spans that begin later. Of each block of the whole, the steps on spans within the part are those
of the part, moved, in the same order (`Task.filterMap_block`); all others file nothing there. So
the works hold the same within the part after each length of span, before and after the beam, and
from then on its cells are left alone. Main statement: no token outside a span has an influence on
its cells (`Parser.local_entries`).
-/

namespace GuidedChart

/-! ## Moving -/

def Span.move (i : Nat) : Span → Span
  | .anchored start stop => .anchored (i + start) (i + stop)
  | .floating depth => .floating depth

def Cell.move (i : Nat) : Cell → Cell
  | .anchored category start stop => .anchored category (i + start) (i + stop)
  | .floating category depth => .floating category depth

/-- The cell from which another one is moved there. -/
def Cell.moveBack (i : Nat) : Cell → Cell
  | .anchored category start stop => .anchored category (start - i) (stop - i)
  | .floating category depth => .floating category depth

theorem Cell.moveBack_move (i : Nat) (cell : Cell) : (cell.move i).moveBack i = cell := by
  cases cell <;> simp [move, moveBack]

namespace Step

def move (i : Nat) (step : Step) : Step :=
  ⟨step.rule, step.target.move i, step.sources.map (Cell.move i)⟩

def moveBack (i : Nat) (step : Step) : Step :=
  ⟨step.rule, step.target.moveBack i, step.sources.map (Cell.moveBack i)⟩

theorem moveBack_move (i : Nat) (step : Step) : (step.move i).moveBack i = step := by
  simp only [move, moveBack, Cell.moveBack_move, List.map_map, Function.comp_def, List.map_id']

end Step

namespace Derivation

mutual

/-- The derivation with all its spans moved by so many tokens. -/
def move (i : Nat) : Derivation → Derivation
  | ⟨rule, span, formula, children, anchors, outcome, score⟩ =>
    ⟨rule, span.move i, formula, moveAll i children, anchors.map (i + ·), outcome, score⟩

def moveAll (i : Nat) : List Derivation → List Derivation
  | [] => []
  | d :: ds => move i d :: moveAll i ds

end

section Move

variable (i : Nat) (d e : Derivation)

theorem moveAll_eq_map (ds : List Derivation) : moveAll i ds = ds.map (move i) := by
  induction ds with
  | nil => rw [moveAll, List.map_nil]
  | cons d ds ih => rw [moveAll, ih, List.map_cons]

theorem move_eq : d.move i = { d with
    span := d.span.move i
    children := d.children.map (move i)
    anchors := d.anchors.map (i + ·) } := by
  obtain ⟨rule, span, formula, children, anchors, outcome, score⟩ := d
  rw [move, moveAll_eq_map]

@[simp]
theorem formula_move : (d.move i).formula = d.formula := by
  rw [move_eq]

@[simp]
theorem score_move : (d.move i).score = d.score := by
  rw [move_eq]

@[simp]
theorem anchors_move : (d.move i).anchors = d.anchors.map (i + ·) := by
  rw [move_eq]

theorem overlap_move : (d.move i).overlap (e.move i) = d.overlap e := by
  have hmem : ∀ p, (e.anchors.map (i + ·)).contains (i + p) = e.anchors.contains p := by
    intro p
    rw [Bool.eq_iff_iff, List.contains_iff_mem, List.contains_iff_mem]
    exact List.mem_map_of_injective (add_right_injective i)
  simp only [overlap, anchors_move, List.filter_map, List.length_map, Function.comp_def, hmem]

end Move

end Derivation

/-- Does a scorer look at what a derivation is, and not at where it stands? -/
def Scorer.PlaceBlind (scorer : Scorer) : Prop :=
  ∀ i d, scorer (d.move i) = scorer d

/-- A linear model looks at the rules alone. -/
theorem Weights.placeBlind_scorer (weights : Weights) : weights.scorer.PlaceBlind := by
  intro i d
  simp only [Weights.scorer, Derivation.feature, Derivation.move_eq, List.foldl_map]

/-! ## A part of the tokens -/

section Part

variable {tokens : List String} {i j : Nat}

theorem getElem?_part {k : Nat} (hk : i + k < j) :
    ((tokens.take j).drop i)[k]? = tokens[i + k]? := by
  rw [List.getElem?_drop, List.getElem?_take_of_lt hk]

theorem phrase?_part (hj : j ≤ tokens.length) {start stop : Nat} (hstop : i + stop ≤ j) :
    phrase? ((tokens.take j).drop i) start stop = phrase? tokens (i + start) (i + stop) := by
  have hlength : ((tokens.take j).drop i).length = j - i := by
    rw [List.length_drop, List.length_take_of_le hj]
  have htokens : (((tokens.take j).drop i).take stop).drop start =
      (tokens.take (i + stop)).drop (i + start) := by
    rw [List.take_drop, List.take_take, Nat.min_eq_left hstop, List.drop_drop]
  have hbounds : start ≤ stop ∧ stop ≤ j - i ↔ i + start ≤ i + stop ∧ i + stop ≤ tokens.length := by
    omega
  rw [phrase?, phrase?, hlength, htokens]
  simp only [hbounds]

/-! ### Steps -/

theorem Symbol.sources?_part {start stop : Nat} (hstop : i + stop ≤ j) (symbol : Symbol) :
    symbol.sources? tokens (i + start) (i + stop) =
      (symbol.sources? ((tokens.take j).drop i) start stop).map (List.map (Cell.move i)) := by
  cases symbol with
  | terminal token =>
    have hiff : (i + stop = i + start + 1 ∧ tokens[i + start]? = some token) ↔
        (stop = start + 1 ∧ ((tokens.take j).drop i)[start]? = some token) := by
      constructor
      · rintro ⟨hnext, htoken⟩
        exact ⟨by omega, by rwa [getElem?_part (by omega)]⟩
      · rintro ⟨hnext, htoken⟩
        exact ⟨by omega, by rwa [getElem?_part (by omega)] at htoken⟩
    simp only [sources?, hiff]
    split <;> rfl
  | nonterminal category => rfl

namespace Grammar

variable (grammar : Grammar)

theorem splitStep?_part {start mid stop : Nat} (hmid : mid ≤ stop) (hstop : i + stop ≤ j)
    (rule : Rule) :
    splitStep? tokens (i + start) (i + mid) (i + stop) rule =
      (splitStep? ((tokens.take j).drop i) start mid stop rule).map (Step.move i) := by
  unfold splitStep?
  split
  · rename_i left right hrhs
    rw [Symbol.sources?_part (j := j) (by omega), Symbol.sources?_part hstop]
    cases left.sources? ((tokens.take j).drop i) start mid with
    | none => rfl
    | some ls =>
      cases right.sources? ((tokens.take j).drop i) mid stop with
      | none => rfl
      | some rs => simp [Step.move, Cell.move]
  · rfl

/-- The steps on a span within the part are those of the part, moved. -/
theorem spanSteps_part {start length : Nat} (hstop : i + (start + length) ≤ j) :
    grammar.spanSteps tokens (i + start) length =
      (grammar.spanSteps ((tokens.take j).drop i) start length).map (Step.move i) := by
  have hlexical : grammar.lexicalSteps tokens (i + start) length =
      (grammar.lexicalSteps ((tokens.take j).drop i) start length).map (Step.move i) := by
    unfold lexicalSteps
    split
    · rw [getElem?_part (by omega)]
      cases tokens[i + start]? with
      | none => rfl
      | some token => simp [Step.move, Cell.move, Nat.add_assoc]
    · rfl
  have hsplit : grammar.splitSteps tokens (i + start) length =
      (grammar.splitSteps ((tokens.take j).drop i) start length).map (Step.move i) := by
    have hrange : List.range' (i + start + 1) (length - 1) =
        (List.range' (start + 1) (length - 1)).map (i + ·) := by
      rw [List.map_add_range', Nat.add_assoc]
    unfold splitSteps
    rw [hrange, List.flatMap_map, List.map_flatMap]
    refine List.flatMap_congr fun mid hmid => ?_
    rw [List.mem_range'_1] at hmid
    rw [List.map_filterMap]
    refine List.filterMap_congr fun rule _ => ?_
    rw [Nat.add_assoc, splitStep?_part (by omega) hstop]
  have hpromotion : grammar.promotionSteps (i + start) length =
      (grammar.promotionSteps start length).map (Step.move i) := by
    unfold promotionSteps
    rw [List.map_filterMap]
    refine List.filterMap_congr fun rule _ => ?_
    cases rule.childCategories.head? with
    | none => rfl
    | some child => simp [Step.move, Cell.move, Nat.add_assoc]
  rw [spanSteps_eq, spanSteps_eq, hlexical, hsplit, hpromotion, List.map_append, List.map_append]

/-- A step on a span reads spans within it. -/
theorem SpanStep.exists_within {grammar : Grammar} {start stop : Nat} {within : Bool} {step : Step}
    (h : grammar.SpanStep tokens start stop within step) {source : Cell}
    (hs : source ∈ step.sources) :
    ∃ category a b, source = .anchored category a b ∧ start ≤ a ∧ b ≤ stop := by
  cases h with
  | lexical => cases hs
  | @split mid rule left right ls rs hrule hrhs hstart hstop hls hrs =>
    rw [Symbol.sources?_eq hls, Symbol.sources?_eq hrs] at hs
    rcases List.mem_append.1 hs with hs | hs
    · obtain ⟨category, -, rfl⟩ := List.mem_map.1 hs
      exact ⟨category, start, mid, rfl, Nat.le_refl _, Nat.le_of_lt hstop⟩
    · obtain ⟨category, -, rfl⟩ := List.mem_map.1 hs
      exact ⟨category, mid, stop, rfl, Nat.le_of_lt hstart, Nat.le_refl _⟩
  | @promotion rule child =>
    exact ⟨child, start, stop, List.mem_singleton.1 hs, Nat.le_refl _, Nat.le_refl _⟩

end Grammar

end Part

/-! ## Two passes -/

/-- Does the cell stand within the tokens from `i` up to `j`? -/
def Cell.isWithin (i j : Nat) : Cell → Bool
  | .anchored _ start stop => i ≤ start && stop ≤ j
  | .floating _ _ => false

/-- A cell within the part is compared with the one of the part from which it is moved. -/
def Pairing.part (i j : Nat) : Pairing where
  cell x y := x = y.move i ∧ x.isWithin i j = true
  derivation d e := d = e.move i
  biUnique := by
    refine ⟨fun _ _ _ h k => h.1.trans k.1.symm, fun x y z h k => ?_⟩
    have hyz := congrArg (Cell.moveBack i) (h.1.symm.trans k.1)
    rwa [Cell.moveBack_move, Cell.moveBack_move] at hyz
  category {x y} h := by
    rw [h.1]
    cases y <;> rfl
  isAnchored {x y} h := by
    rw [h.1]
    cases y <;> rfl
  floating {x y} h hx := by
    cases x with
    | anchored => cases hx
    | floating => cases h.2
  formula {d e} h := by rw [h, Derivation.formula_move]
  score {d e} h := by rw [h, Derivation.score_move]
  overlap {d d' e e'} h k := by rw [h, k, Derivation.overlap_move]

/-- The step of the part from which a step is moved, if it is on a span within the part. -/
def Step.ofPart? (i j : Nat) (step : Step) : Option Step :=
  if step.target.isWithin i j then some (step.moveBack i) else none

/-- The same task, for a part of the tokens. -/
def Task.part (task : Task) (i j : Nat) : Task :=
  { task with tokens := (task.tokens.take j).drop i }

namespace Task

variable {task : Task} {i j : Nat}

theorem length_tokens_part (hj : j ≤ task.tokens.length) :
    (task.part i j).tokens.length = j - i := by
  rw [part, List.length_drop, List.length_take_of_le hj]

theorem resembles_part (hallows : ∀ ingredient, task.allows ingredient = true) :
    task.Resembles (task.part i j) :=
  ⟨rfl, rfl, hallows, hallows⟩

/-! ### Blocks -/

/-- The block of the spans of one length. -/
def lengthBlock (task : Task) (length : Nat) : List Step :=
  (List.range (task.tokens.length - length + 1)).flatMap fun start =>
    task.parser.grammar.spanSteps task.tokens start length

theorem isWithin_of_mem_spanSteps {start length : Nat} {step : Step}
    (h : step ∈ task.parser.grammar.spanSteps task.tokens start length) :
    step.target.isWithin i j = (decide (i ≤ start) && decide (start + length ≤ j)) := by
  obtain ⟨within, hspan⟩ := Grammar.exists_spanStep_of_mem h
  rw [hspan.target_eq]
  rfl

theorem filterMap_spanSteps_part {start length : Nat} (hstop : i + (start + length) ≤ j) :
    (task.parser.grammar.spanSteps task.tokens (i + start) length).filterMap (Step.ofPart? i j) =
      task.parser.grammar.spanSteps (task.part i j).tokens start length := by
  have hkeep : ∀ step ∈ task.parser.grammar.spanSteps (task.part i j).tokens start length,
      (Step.ofPart? i j ∘ Step.move i) step = some step := by
    intro step hstep
    have hmem : step.move i ∈ task.parser.grammar.spanSteps task.tokens (i + start) length := by
      rw [Grammar.spanSteps_part task.parser.grammar hstop]
      exact List.mem_map_of_mem hstep
    have hwithin : (step.move i).target.isWithin i j = true := by
      rw [isWithin_of_mem_spanSteps hmem, Bool.and_eq_true, decide_eq_true_iff, decide_eq_true_iff]
      omega
    rw [Function.comp_apply, Step.ofPart?, if_pos hwithin, Step.moveBack_move]
  rw [Grammar.spanSteps_part task.parser.grammar hstop, List.filterMap_map]
  exact (List.filterMap_congr hkeep).trans List.filterMap_some

theorem filterMap_spanSteps_apart {start length : Nat} (h : ¬ (i ≤ start ∧ start + length ≤ j)) :
    (task.parser.grammar.spanSteps task.tokens start length).filterMap (Step.ofPart? i j) = [] := by
  refine List.filterMap_eq_nil_iff.2 fun step hstep => ?_
  rw [Step.ofPart?, isWithin_of_mem_spanSteps hstep, if_neg]
  rwa [Bool.and_eq_true, decide_eq_true_iff, decide_eq_true_iff]

/-- Of the steps on the spans of one length, those within the part are the steps of the part. -/
theorem filterMap_lengthBlock {length : Nat} (hlength : i + length ≤ j)
    (hj : j ≤ task.tokens.length) :
    (task.lengthBlock length).filterMap (Step.ofPart? i j) =
      (task.part i j).lengthBlock length := by
  -- the spans that begin before the part, within it, and so late that they end behind it
  have hstarts : task.tokens.length - length + 1 =
      i + (j - i - length + 1) + (task.tokens.length - j) := by omega
  rw [lengthBlock, lengthBlock, List.filterMap_flatMap, length_tokens_part hj, hstarts,
    List.range_add, List.range_add, List.flatMap_append, List.flatMap_append]
  have hbefore : (List.range i).flatMap (fun start => (task.parser.grammar.spanSteps task.tokens
      start length).filterMap (Step.ofPart? i j)) = [] :=
    List.flatMap_eq_nil_iff.2 fun start hstart => filterMap_spanSteps_apart fun hin =>
      absurd hin.1 (Nat.not_le_of_lt (List.mem_range.1 hstart))
  have hbehind : ((List.range (task.tokens.length - j)).map
      (i + (j - i - length + 1) + ·)).flatMap (fun start => (task.parser.grammar.spanSteps
        task.tokens start length).filterMap (Step.ofPart? i j)) = [] := by
    refine List.flatMap_eq_nil_iff.2 fun start hstart => filterMap_spanSteps_apart fun hin => ?_
    obtain ⟨k, -, rfl⟩ := List.mem_map.1 hstart
    omega
  rw [hbefore, hbehind, List.nil_append, List.append_nil, List.flatMap_map]
  refine List.flatMap_congr fun start hstart => filterMap_spanSteps_part ?_
  rw [List.mem_range] at hstart
  omega

/-! ### Steps -/

theorem finished_move (hscorer : task.pass = .first ∨ task.parser.scorer.PlaceBlind)
    (c : Derivation) : task.finished (c.move i) = (task.finished c).move i := by
  unfold finished
  split
  · simp only [Derivation.move_eq]
  · rename_i hlater
    have hblind := hscorer.resolve_left hlater i { c with outcome := some c.formula.execute }
    simp only [Derivation.move_eq] at hblind ⊢
    rw [hblind]

/-- On a span within the part, a rule makes of moved children what it makes of the children in the
part, moved. -/
theorem candidates_part (hj : j ≤ task.tokens.length)
    (hscorer : task.pass = .first ∨ task.parser.scorer.PlaceBlind) (rule : Rule)
    {category start stop : Nat} (hstop : i + stop ≤ j) {ds es : List Derivation}
    (h : List.Forall₂ (Pairing.part i j).derivation ds es) :
    List.Forall₂ (fun c e => task.finished c = ((task.part i j).finished e).move i)
      (Application.candidates ⟨rule, (Cell.anchored category (i + start) (i + stop)).span, ds⟩
        task.tokens)
      (Application.candidates ⟨rule, (Cell.anchored category start stop).span, es⟩
        (task.part i j).tokens) := by
  obtain rfl : ds = es.map (Derivation.move i) := by
    have h : List.Forall₂ (fun d e => d = e.move i) ds es := h
    rwa [← List.forall₂_map_right_iff (f := Derivation.move i) (R := Eq),
      List.forall₂_eq_eq_eq] at h
  have hformulas : (es.map (Derivation.move i)).map (·.formula) = es.map (·.formula) := by
    simp
  have hphrase : phrase? (task.part i j).tokens start stop =
      phrase? task.tokens (i + start) (i + stop) := phrase?_part hj hstop
  simp only [Application.candidates, Application.phrase?, Cell.span, hformulas, hphrase]
  rw [List.forall₂_map_left_iff, List.forall₂_map_right_iff, List.forall₂_same]
  intro formula _
  have hderive : Derivation.ofFormula rule (.anchored (i + start) (i + stop))
      (es.map (Derivation.move i)) formula =
        (Derivation.ofFormula rule (.anchored start stop) es formula).move i := by
    simp only [Derivation.ofFormula, Derivation.move_eq, Derivation.anchorsOn, Span.move,
      List.map_add_range', Nat.add_sub_add_left]
  exact (congrArg task.finished hderive).trans (finished_move hscorer _)

/-- A step on a span within the part is done in the part too; any other one files nothing there. -/
theorem keeps_of_mem_lengthBlock (hj : j ≤ task.tokens.length)
    (hscorer : task.pass = .first ∨ task.parser.scorer.PlaceBlind) {length : Nat} {step : Step}
    (hstep : step ∈ task.lengthBlock length) :
    (Pairing.part i j).Keeps task (task.part i j) step (step.ofPart? i j) := by
  obtain ⟨start, -, hstep⟩ := List.mem_flatMap.1 hstep
  have hwithin := isWithin_of_mem_spanSteps (i := i) (j := j) hstep
  by_cases hin : step.target.isWithin i j = true
  · rw [hin, eq_comm, Bool.and_eq_true, decide_eq_true_iff, decide_eq_true_iff] at hwithin
    obtain ⟨start, rfl⟩ := Nat.exists_eq_add_of_le hwithin.1
    have hstop : i + (start + length) ≤ j := by omega
    rw [Grammar.spanSteps_part task.parser.grammar hstop] at hstep
    obtain ⟨other, hother, rfl⟩ := List.mem_map.1 hstep
    obtain ⟨within, hspan⟩ := Grammar.exists_spanStep_of_mem hother
    rw [Step.ofPart?, if_pos hin, Step.moveBack_move]
    refine .done ⟨rfl, ⟨rfl, hin⟩, ?_, fun ds es hall => ?_⟩
    · refine List.forall₂_map_left_iff.2 (List.forall₂_same.2 fun source hs => ⟨rfl, ?_⟩)
      obtain ⟨category, a, b, rfl, ha, hb⟩ := hspan.exists_within hs
      simp only [Cell.move, Cell.isWithin, Bool.and_eq_true, decide_eq_true_iff]
      omega
    · have htarget : (other.move i).target =
          .anchored other.rule.lhs.id (i + start) (i + (start + length)) := by
        rw [Step.move, hspan.target_eq]
        rfl
      rw [htarget, hspan.target_eq]
      exact candidates_part hj hscorer other.rule hstop hall
  · rw [Step.ofPart?, if_neg hin]
    refine .leftOut fun x y hw hxy => hin ?_
    cases x with
    | anchored category a b =>
      rw [writes_anchored.1 hw]
      exact hxy.2
    | floating category depth => cases hxy.2

/-! ### Runs -/

section Runs

variable {useful : CategoryId → Nat → Bool} {table other : MeaningTable} {cancelAt : Option Nat}

theorem take_plan {n : Nat} (hn : n ≤ task.tokens.length) :
    (task.plan useful).take n = (List.range' 1 n).map task.lengthBlock := by
  have hanchored : task.anchoredSchedule = (List.range' 1 task.tokens.length).map
      task.lengthBlock := rfl
  rw [plan, hanchored, List.take_append_of_le_length (by simpa using hn), ← List.map_take,
    List.take_range'_of_length_ge hn]

/-- After the spans of the length of the part, the two works hold the same within the part. -/
theorem mirrors_part (hij : i ≤ j) (hj : j ≤ task.tokens.length)
    (hallows : ∀ ingredient, task.allows ingredient = true)
    (hscorer : task.pass = .first ∨ task.parser.scorer.PlaceBlind) (ht : table.RefersBack)
    (hu : other.RefersBack) :
    (task.workAfter useful table none (j - i)).Mirrors (Pairing.part i j)
      ((task.part i j).workAfter useful other none (j - i)) := by
  have hblocks : ((List.range' 1 (j - i)).map task.lengthBlock).map
      (List.filterMap (Step.ofPart? i j)) =
        (List.range' 1 (j - i)).map (task.part i j).lengthBlock := by
    rw [List.map_map]
    refine List.map_congr_left fun length hlength => filterMap_lengthBlock ?_ hj
    rw [List.mem_range'_1] at hlength
    omega
  rw [workAfter, workAfter, take_plan (by omega), take_plan (length_tokens_part hj).ge, ← hblocks]
  refine ((Work.Mirrors.start (Pairing.part i j) ht hu).foldl_runBlock (Work.sound_start ht none)
    (resembles_part hallows) fun steps hsteps step hstep => ?_).2
  obtain ⟨length, -, rfl⟩ := List.mem_map.1 hsteps
  exact keeps_of_mem_lengthBlock hj hscorer hstep

/-- Once the spans of its length are done, a cell is left alone. -/
theorem recordsOf_workAfter_of_le {m n : Nat} (hmn : m ≤ n) {category start stop : Nat}
    (h : stop - start ≤ m) :
    (task.workAfter useful table cancelAt n).chart.recordsOf (.anchored category start stop) =
      (task.workAfter useful table cancelAt m).chart.recordsOf
        (.anchored category start stop) := by
  rw [workAfter_of_le hmn]
  refine foldl_runBlock_of_not_writes (wellKept_workAfter m) ?_ fun steps hsteps step hstep hw => ?_
  · rw [touched_workAfter]
    exact List.not_mem_nil
  rw [writes_anchored] at hw
  rw [List.drop_take, plan, List.drop_append] at hsteps
  rcases List.mem_append.1 (List.mem_of_mem_take hsteps) with hs | hs
  · have hanchored : task.anchoredSchedule.drop m =
        (List.range' (1 + m) (task.tokens.length - m)).map task.lengthBlock := by
      change ((List.range' 1 task.tokens.length).map task.lengthBlock).drop m = _
      rw [← List.map_drop, List.drop_range', Nat.mul_one]
    rw [hanchored] at hs
    obtain ⟨length, hlength, rfl⟩ := List.mem_map.1 hs
    obtain ⟨start', -, hstep⟩ := List.mem_flatMap.1 hstep
    obtain ⟨within, hspan⟩ := Grammar.exists_spanStep_of_mem hstep
    rw [hspan.target_eq] at hw
    obtain ⟨-, rfl, rfl⟩ := Cell.anchored.inj hw
    rw [List.mem_range'_1] at hlength
    omega
  · obtain ⟨depth, -, rfl⟩ := List.mem_map.1 (List.mem_of_mem_drop hs)
    rw [(Grammar.depthStep_of_mem hstep).target_eq] at hw
    cases hw

/-- However a pass ends, all spans were done before. -/
theorem exists_workAfter_build (task : Task) (table : MeaningTable) (cancelAt : Option Nat) :
    ∃ n, task.tokens.length ≤ n ∧
      (task.build table cancelAt).chart =
        (task.workAfter task.parser.depthBounds.admits table cancelAt n).chart ∧
      (task.build table cancelAt).table =
        (task.workAfter task.parser.depthBounds.admits table cancelAt n).table := by
  obtain ⟨n, hn⟩ := task.exists_endsAt_run task.parser.depthBounds.admits table cancelAt
  have hlength : task.anchoredSchedule.length = task.tokens.length := by
    simp [anchoredSchedule, Grammar.anchoredSchedule]
  refine ⟨n, hlength ▸ ?_, hn.chart, hn.table_eq⟩
  by_cases hlt : n < (task.plan task.parser.depthBounds.admits).length
  · exact (hn.stops hlt).1
  · rw [plan, List.length_append] at hlt
    omega

/-- Whole passes hold the same within the part. -/
theorem charts_part (hij : i ≤ j) (hj : j ≤ task.tokens.length)
    (hallows : ∀ ingredient, task.allows ingredient = true)
    (hscorer : task.pass = .first ∨ task.parser.scorer.PlaceBlind) (ht : table.RefersBack)
    (hu : other.RefersBack) :
    (Pairing.part i j).Charts (task.build table none).table ((task.part i j).build other none).table
      (task.build table none).chart ((task.part i j).build other none).chart := by
  obtain ⟨m, hm, hchart, htable⟩ := task.exists_workAfter_build table none
  obtain ⟨n, hn, hchart', htable'⟩ := (task.part i j).exists_workAfter_build other none
  rw [length_tokens_part hj] at hn
  let useful := task.parser.depthBounds.admits
  have hmirrors : (task.workAfter useful table none (j - i)).Mirrors (Pairing.part i j)
      ((task.part i j).workAfter useful other none (j - i)) :=
    mirrors_part hij hj hallows hscorer ht hu
  rintro x y hxy
  obtain ⟨rfl, hwithin⟩ := hxy
  cases y with
  | floating category depth => cases hwithin
  | anchored category start stop =>
    have hlength : stop - start ≤ j - i := by
      simp only [Cell.move, Cell.isWithin, Bool.and_eq_true, decide_eq_true_iff] at hwithin
      omega
    have hmoved : i + stop - (i + start) ≤ j - i := by omega
    rw [htable, htable', hchart, hchart', Cell.move, recordsOf_workAfter_of_le (by omega) hmoved,
      recordsOf_workAfter_of_le hn hlength]
    exact hmirrors.charts.mono (leadsTo_workAfter ht (by omega)).senses
      (leadsTo_workAfter hu hn).senses _ _ ⟨rfl, hwithin⟩

end Runs

end Task

/-- The cells of a span depend on the tokens of the span alone. In a first pass, or in a second pass
that may use everything, a pass that is not cancelled leaves the same behind on the spans within a
part of its tokens as a pass over that part: the same records in the same order, with the same flags
and the same derivations, moved, under numbers that are renamed. -/
theorem Parser.local_entries (parser : Parser) {tokens : List String} {i j : Nat} (hij : i ≤ j)
    (hj : j ≤ tokens.length) {pass : Pass} {allowed : Option (Numbering Ingredient)}
    (hpass : pass = .first ∨ allowed = none)
    (hscorer : pass = .first ∨ parser.scorer.PlaceBlind) {table other : MeaningTable}
    (ht : table.RefersBack) (hu : other.RefersBack) :
    let whole := (⟨parser, tokens, pass, allowed⟩ : Task).build table none
    let part := (⟨parser, (tokens.take j).drop i, pass, allowed⟩ : Task).build other none
    Relator.BiUnique (whole.table.SameSense part.table) ∧
      ∀ category start stop, i ≤ start → start ≤ stop → stop ≤ j →
        List.Forall₂ ((Pairing.part i j).Twins whole.table part.table)
          (whole.chart.entries (.anchored category start stop))
          (part.chart.entries (.anchored category (start - i) (stop - i))) := by
  let task : Task := ⟨parser, tokens, pass, allowed⟩
  have hallows : ∀ ingredient, task.allows ingredient = true := by
    intro ingredient
    rcases hpass with rfl | rfl <;> simp [task, Task.allows]
  refine ⟨MeaningTable.biUnique_sameSense (Task.refersBack_build _ ht none)
    (Task.refersBack_build _ hu none), fun category start stop hstart hle hstop => ?_⟩
  have hcharts : (Pairing.part i j).Charts (task.build table none).table
      ((task.part i j).build other none).table (task.build table none).chart
      ((task.part i j).build other none).chart := Task.charts_part hij hj hallows hscorer ht hu
  refine hcharts.entries ⟨?_, ?_⟩
  · simp only [Cell.move]
    rw [Nat.add_sub_cancel' hstart, Nat.add_sub_cancel' (hstart.trans hle)]
  · simp [Cell.isWithin, hstart, hstop]

/-- A number behind a minus means the same wherever both stand. -/
theorem Parser.local_entries_terms :
    let scorer := Weights.scorer [("rule=$Num -> three => const 3", 1.0)]
    let parser := { Parser.terms with scorer }
    let tokens := ["three", "minus", "three", "three"]
    let whole := (⟨parser, tokens, .second, none⟩ : Task).build .empty none
    let part := (⟨parser, ["minus", "three"], .second, none⟩ : Task).build .empty none
    (whole.chart.entries (.anchored 1 1 3)).length = 1 ∧
      List.Forall₂ ((Pairing.part 1 3).Twins whole.table part.table)
        (whole.chart.entries (.anchored 1 1 3)) (part.chart.entries (.anchored 1 0 2)) := by
  intro scorer parser tokens whole part
  have hij : 1 ≤ 3 := by decide
  have hj : 3 ≤ tokens.length := by decide
  refine ⟨by decide +kernel, ?_⟩
  exact (Parser.local_entries parser hij hj (Or.inr rfl)
    (Or.inr (Weights.placeBlind_scorer _)) MeaningTable.refersBack_empty
    MeaningTable.refersBack_empty).2 1 1 3 (by decide) (by decide) (by decide)

end GuidedChart
