import GuidedChart.Proofs.Construction.Completion
import GuidedChart.Proofs.Nodes
import GuidedChart.Proofs.Parsing
import Mathlib.Algebra.BigOperators.Intervals
import Mathlib.Algebra.BigOperators.Ring.List

/-!
# What the grammar licenses on the tokens

A derivation is licensed for a category over some tokens if its rule is an anchored rule for the
category, the symbols of the rule stand in a row over the tokens, its children are licensed for the
categories among them, and the rule offers it as a candidate that is kept (`Parser.ways`). A pass
that is permitted everything and drops nothing has each derivation in an anchored cell exactly as
often as it is licensed there (`Parser.count_derivations_anchored`).

A derivation knows its rule and its children, so of all steps on a span only those of its rule count
for it (`Grammar.filter_spanSteps`), and of what these read only its children
(`Task.count_fills`). What remains is that the steps of a rule are the ways to lay its symbols out
(`sum_spanSteps`).
-/

namespace GuidedChart

/-! ## Licensed derivations -/

/-- In how many ways items stand for the categories in a row of symbols over the tokens from `start`
up to `stop`, when this is known of each item alone. -/
def rowWays {α : Type} (tokens : List String) (ways : CategoryId → Nat → Nat → α → Nat) :
    List Symbol → Nat → Nat → List α → Nat
  | [], start, stop, [] => if start = stop then 1 else 0
  | .terminal token :: symbols, start, stop, items =>
    if tokens[start]? = some token then rowWays tokens ways symbols (start + 1) stop items else 0
  | .nonterminal category :: symbols, start, stop, item :: items =>
    ∑ mid ∈ Finset.Ioc start stop,
      ways category.id start mid item * rowWays tokens ways symbols mid stop items
  | [], _, _, _ :: _ => 0
  | .nonterminal _ :: _, _, _, [] => 0

namespace Parser

open Classical in
/-- In how many ways the grammar licenses a derivation for a category over the tokens from `start`
up to `stop`. -/
noncomputable def ways (parser : Parser) (tokens : List String) (category : CategoryId)
    (start stop : Nat) (d : Derivation) : Nat :=
  if d.rule ∈ parser.grammar.rules ∧ d.rule.floating = false ∧ d.rule.lhs.id = category then
    (parser.made tokens ⟨d.rule, .anchored start stop, d.children⟩).count d *
      rowWays tokens
        (fun c i j (child : {child // child ∈ d.children}) => parser.ways tokens c i j child.1)
        d.rule.rhs start stop d.children.attach
  else 0
termination_by sizeOf d
decreasing_by exact Derivation.sizeOf_lt_of_mem_children child.2

end Parser

section RowWays

variable {α β : Type} {tokens : List String} {ways other : CategoryId → Nat → Nat → α → Nat}

theorem rowWays_map (f : β → α) (symbols : List Symbol) (start stop : Nat) (items : List β) :
    rowWays tokens (fun c i j item => ways c i j (f item)) symbols start stop items =
      rowWays tokens ways symbols start stop (items.map f) := by
  induction symbols generalizing start items with
  | nil => cases items <;> rfl
  | cons symbol symbols ih =>
    cases symbol with
    | terminal token => simp only [rowWays, ih]
    | nonterminal category => cases items <;> simp [rowWays, ih]

/-- The ways in a row depend only on the ways of its items over parts of the row. -/
theorem rowWays_congr {symbols : List Symbol} {start stop : Nat} {items : List α}
    (h : ∀ item ∈ items, ∀ c i j, start ≤ i → i < j → j ≤ stop →
      ways c i j item = other c i j item) :
    rowWays tokens ways symbols start stop items =
      rowWays tokens other symbols start stop items := by
  induction symbols generalizing start items with
  | nil => cases items <;> rfl
  | cons symbol symbols ih =>
    cases symbol with
    | terminal token =>
      have hrest : rowWays tokens ways symbols (start + 1) stop items =
          rowWays tokens other symbols (start + 1) stop items :=
        ih fun item hm c i j hi => h item hm c i j (Nat.le_of_succ_le hi)
      simp only [rowWays, hrest]
    | nonterminal category =>
      cases items with
      | nil => rfl
      | cons item items =>
        refine Finset.sum_congr rfl fun mid hmid => ?_
        obtain ⟨hlt, hle⟩ := Finset.mem_Ioc.1 hmid
        rw [h item List.mem_cons_self category.id start mid (Nat.le_refl start) hlt hle,
          ih fun item hm c i j hi => h item (List.mem_cons_of_mem _ hm) c i j (by omega)]

/-- Over no tokens there is no symbol. -/
theorem rowWays_singleton_of_le (symbol : Symbol) {start stop : Nat}
    (h : stop ≤ start) (items : List α) :
    rowWays tokens ways [symbol] start stop items = 0 := by
  cases symbol with
  | terminal token =>
    have hne : ¬ start + 1 = stop := by omega
    cases items <;> simp [rowWays, hne]
  | nonterminal category =>
    cases items with
    | nil => rfl
    | cons item items =>
      rw [rowWays, Finset.Ioc_eq_empty_of_le h, Finset.sum_empty]

end RowWays

namespace Parser

open Classical in
theorem ways_eq (parser : Parser) (tokens : List String) (category : CategoryId)
    (start stop : Nat) (d : Derivation) :
    parser.ways tokens category start stop d =
      if d.rule ∈ parser.grammar.rules ∧ d.rule.floating = false ∧ d.rule.lhs.id = category then
        (parser.made tokens ⟨d.rule, .anchored start stop, d.children⟩).count d *
          rowWays tokens (parser.ways tokens) d.rule.rhs start stop d.children
      else 0 := by
  have hrow : rowWays tokens
      (fun c i j (child : {child // child ∈ d.children}) => parser.ways tokens c i j child.1)
      d.rule.rhs start stop d.children.attach =
      rowWays tokens (parser.ways tokens) d.rule.rhs start stop d.children := by
    rw [rowWays_map Subtype.val, List.attach_map_subtype_val]
  rw [ways, hrow]

end Parser

/-! ## Counting -/

section Counting

variable {α β : Type} [BEq α] [LawfulBEq α] [BEq β] [LawfulBEq β]

/-- Where an element says what it comes of, it comes of nothing else. -/
theorem count_flatMap_of_forall {xs : List α} {f : α → List β} {y : β} {x : α}
    (h : ∀ a ∈ xs, y ∈ f a → a = x) : (xs.flatMap f).count y = xs.count x * (f x).count y := by
  induction xs with
  | nil => simp
  | cons a xs ih =>
    rw [List.flatMap_cons, List.count_append, ih fun b hb => h b (List.mem_cons_of_mem _ hb),
      List.count_cons]
    by_cases ha : a = x
    · subst ha
      simp [Nat.add_mul, Nat.add_comm]
    · have hnot : y ∉ f a := fun hy => ha (h a List.mem_cons_self hy)
      simp [ha, List.count_eq_zero_of_not_mem hnot]

theorem count_combinations_cons (xs : List α) (xss : List (List α)) (y : α) (ys : List α) :
    (combinations (xs :: xss)).count (y :: ys) = xs.count y * (combinations xss).count ys := by
  have hcount : ((combinations xss).map (y :: ·)).count (y :: ys) = (combinations xss).count ys :=
    List.count_map_of_injective _ _ (List.cons_injective) _
  rw [combinations, count_flatMap_of_forall (fun x _ hm => ?_), hcount]
  obtain ⟨zs, -, he⟩ := List.mem_map.1 hm
  exact (List.cons.inj he).1

theorem count_combinations_cons_nil (xs : List α) (xss : List (List α)) :
    (combinations (xs :: xss)).count [] = 0 := by
  refine List.count_eq_zero_of_not_mem fun hm => ?_
  obtain ⟨x, -, hm⟩ := List.mem_flatMap.1 hm
  obtain ⟨ys, -, he⟩ := List.mem_map.1 hm
  cases he

end Counting

/-! ## The steps of one rule on a span -/

/-- The steps of a rule on a span. -/
def Rule.spanSteps (rule : Rule) (tokens : List String) (start length : Nat) : List Step :=
  let stop := start + length
  match rule.phase? with
  | some (.lexical token) =>
    if length = 1 ∧ tokens[start]? = some token then
      [⟨rule, .anchored rule.lhs.id start stop, []⟩]
    else []
  | some .binary =>
    (List.range' (start + 1) (length - 1)).flatMap fun mid =>
      (Grammar.splitStep? tokens start mid stop rule).toList
  | some .promotion =>
    (rule.childCategories.head?.map fun child =>
      (⟨rule, .anchored rule.lhs.id start stop, [.anchored child start stop]⟩ : Step)).toList
  | _ => []

theorem Rule.spanSteps_of_floating {rule : Rule} {phase : Phase}
    (hphase : rule.phase? = some phase) (hf : rule.floating = true) (tokens : List String)
    (start length : Nat) : rule.spanSteps tokens start length = [] := by
  have hshape := Rule.shape_of_phase? hphase
  cases phase with
  | lexical | promotion | binary =>
    rw [hshape.1] at hf
    cases hf
  | floatingNullary | floatingUnary | floatingBinary => simp [Rule.spanSteps, hphase]

/-- Of the steps of several rules, those of one of them. -/
theorem filter_filterMap_rule {rules : List Rule} (hn : rules.Nodup) {step? : Rule → Option Step}
    (hs : ∀ r step, step? r = some step → step.rule = r) (rule : Rule) :
    (rules.filterMap step?).filter (·.rule = rule) =
      if rule ∈ rules then (step? rule).toList else [] := by
  have hnone : ∀ r, r ≠ rule → (step? r).toList.filter (·.rule = rule) = [] := by
    intro r hne
    refine List.filter_eq_nil_iff.2 fun step hstep he => hne ?_
    rw [← hs r step (Option.mem_toList.1 hstep)]
    exact of_decide_eq_true he
  have hself : (step? rule).toList.filter (·.rule = rule) = (step? rule).toList :=
    List.filter_eq_self.2 fun step hstep =>
      decide_eq_true (hs rule step (Option.mem_toList.1 hstep))
  rw [List.filterMap_eq_flatMap_toList, List.filter_flatMap]
  split
  · rename_i hm
    rw [flatMap_eq_of_mem hn hm fun r _ hne => hnone r hne, hself]
  · rename_i hm
    refine List.flatMap_eq_nil_iff.2 fun r hr => hnone r fun he => hm ?_
    rw [← he]
    exact hr

namespace Grammar

variable {grammar : Grammar} {tokens : List String} {start length : Nat} {rule : Rule}

theorem Accepted.nodup_rulesOf (h : grammar.Accepted) (phase : Phase) :
    (grammar.rulesOf phase).Nodup :=
  h.nodup_rules.filter _

theorem filter_lexicalSteps (h : grammar.Accepted) (hr : rule ∈ grammar.rules)
    (tokens : List String) (start length : Nat) :
    (grammar.lexicalSteps tokens start length).filter (·.rule = rule) =
      if length = 1 ∧ ∃ token, tokens[start]? = some token ∧
          rule.phase? = some (.lexical token) then
        [⟨rule, .anchored rule.lhs.id start (start + length), []⟩]
      else [] := by
  unfold lexicalSteps
  by_cases hone : length = 1
  · rw [if_pos hone]
    cases ht : tokens[start]? with
    | none => simp
    | some token =>
      simp only [← List.filterMap_eq_map]
      rw [filter_filterMap_rule (h.nodup_rulesOf _)
        (fun r step hs => by cases Option.some.inj hs; rfl)]
      simp [mem_rulesOf, hr, hone]
  · simp [hone]

theorem filter_splitSteps (h : grammar.Accepted) (hr : rule ∈ grammar.rules)
    (tokens : List String) (start length : Nat) :
    (grammar.splitSteps tokens start length).filter (·.rule = rule) =
      if rule.phase? = some .binary then
        (List.range' (start + 1) (length - 1)).flatMap fun mid =>
          (splitStep? tokens start mid (start + length) rule).toList
      else [] := by
  have hmid : ∀ mid, ((grammar.rulesOf .binary).filterMap
      (splitStep? tokens start mid (start + length))).filter (·.rule = rule) =
        if rule.phase? = some .binary then
          (splitStep? tokens start mid (start + length) rule).toList
        else [] := by
    intro mid
    rw [filter_filterMap_rule (h.nodup_rulesOf _) fun r step hs => ?_]
    · simp only [mem_rulesOf, hr, true_and]
    · obtain ⟨left, right, ls, rs, -, -, -, rfl⟩ := splitStep?_eq_some hs
      rfl
  rw [splitSteps, List.filter_flatMap]
  simp only [hmid]
  split
  · rfl
  · exact List.flatMap_eq_nil_iff.2 fun _ _ => rfl

theorem filter_promotionSteps (h : grammar.Accepted) (hr : rule ∈ grammar.rules)
    (start length : Nat) :
    (grammar.promotionSteps start length).filter (·.rule = rule) =
      if rule.phase? = some .promotion then
        (rule.childCategories.head?.map fun child => (⟨rule, .anchored rule.lhs.id start
          (start + length), [.anchored child start (start + length)]⟩ : Step)).toList
      else [] := by
  have hnodup := h.promotions_perm.nodup_iff.2 (h.nodup_rulesOf _)
  rw [promotionSteps, filter_filterMap_rule hnodup fun r step hs => ?_]
  · simp only [h.promotions_perm.mem_iff, mem_rulesOf, hr, true_and]
  · obtain ⟨child, -, rfl⟩ := Option.map_eq_some_iff.1 hs
    rfl

/-- Of the steps on a span, those of one rule. -/
theorem filter_spanSteps (h : grammar.Accepted) (hr : rule ∈ grammar.rules) (tokens : List String)
    (start length : Nat) :
    (grammar.spanSteps tokens start length).filter (·.rule = rule) =
      rule.spanSteps tokens start length := by
  rw [spanSteps_eq, List.filter_append, List.filter_append, filter_lexicalSteps h hr,
    filter_splitSteps h hr, filter_promotionSteps h hr, Rule.spanSteps]
  obtain ⟨phase, hphase⟩ := h.exists_phase hr
  cases phase <;> simp [hphase]

end Grammar

/-! ## The steps of a rule are the ways to lay its symbols out -/

section Layout

variable {α : Type} [BEq α] {tokens : List String} {start stop : Nat}

/-- The cells to be read for two symbols with a split between them. -/
def splitSources? (tokens : List String) (start mid stop : Nat) (left right : Symbol) :
    Option (List Cell) := do
  let leftSources ← left.sources? tokens start mid
  let rightSources ← right.sources? tokens mid stop
  return leftSources ++ rightSources

/-- In how many ways the cells to be read, if they can be had, offer a list of items. -/
def sourceWays (held : Cell → List α) (sources? : Option (List Cell)) (items : List α) : Nat :=
  match sources? with
  | some sources => (combinations (sources.map held)).count items
  | none => 0

variable {held : Cell → List α}

theorem sourceWays_nil (items : List α) : sourceWays held (some []) items =
    if items = [] then 1 else 0 := by
  cases items <;> rfl

variable [LawfulBEq α]

theorem sourceWays_cons (cell : Cell) (sources : List Cell) (item : α) (items : List α) :
    sourceWays held (some (cell :: sources)) (item :: items) =
      (held cell).count item * sourceWays held (some sources) items :=
  count_combinations_cons ..

theorem sourceWays_cons_nil (cell : Cell) (sources : List Cell) :
    sourceWays held (some (cell :: sources)) [] = 0 :=
  count_combinations_cons_nil ..

/-- One symbol over some tokens is read from its cell, if it has one. -/
theorem rowWays_singleton (symbol : Symbol) (h : start < stop) (items : List α) :
    rowWays tokens (fun c i j item => (held (.anchored c i j)).count item) [symbol] start stop
      items = sourceWays held (symbol.sources? tokens start stop) items := by
  cases symbol with
  | terminal token =>
    simp only [rowWays, Symbol.sources?]
    by_cases ht : tokens[start]? = some token
    · by_cases hs : start + 1 = stop
      · subst hs
        cases items <;> simp [ht, rowWays, sourceWays_nil]
      · have hs' : ¬ stop = start + 1 := fun he => hs he.symm
        cases items <;> simp [ht, rowWays, hs, hs', sourceWays]
    · simp [ht, sourceWays]
  | nonterminal category =>
    cases items with
    | nil => exact (sourceWays_cons_nil _ _).symm
    | cons item items =>
      simp only [rowWays, Symbol.sources?]
      rw [sourceWays_cons, sourceWays_nil]
      -- nothing is left over for the rest of the row, so the symbol takes it all
      rw [Finset.sum_eq_single_of_mem stop (Finset.mem_Ioc.2 ⟨h, Nat.le_refl stop⟩)]
      · cases items <;> simp [rowWays]
      · intro mid _ hne
        cases items <;> simp [rowWays, hne]

theorem rowWays_terminal_pair (token : String) (right : Symbol) (items : List α) :
    rowWays tokens (fun c i j item => (held (.anchored c i j)).count item)
      [.terminal token, right] start stop items =
      ∑ mid ∈ Finset.Ioo start stop,
        sourceWays held (splitSources? tokens start mid stop (.terminal token) right) items := by
  rw [rowWays]
  by_cases ht : tokens[start]? = some token
  · rw [if_pos ht]
    by_cases hlt : start + 1 < stop
    · rw [rowWays_singleton right hlt, Finset.sum_eq_single_of_mem (start + 1)]
      · simp [splitSources?, Symbol.sources?, ht]
      · exact Finset.mem_Ioo.2 ⟨Nat.lt_succ_self start, hlt⟩
      · intro mid _ hne
        simp [splitSources?, Symbol.sources?, hne, sourceWays]
    · rw [rowWays_singleton_of_le right (Nat.le_of_not_lt hlt)]
      refine (Finset.sum_eq_zero fun mid hmid => ?_).symm
      rw [Finset.mem_Ioo] at hmid
      omega
  · rw [if_neg ht]
    refine (Finset.sum_eq_zero fun mid _ => ?_).symm
    simp [splitSources?, Symbol.sources?, ht, sourceWays]

theorem rowWays_nonterminal_pair (category : Category) (right : Symbol) (items : List α) :
    rowWays tokens (fun c i j item => (held (.anchored c i j)).count item)
      [.nonterminal category, right] start stop items =
      ∑ mid ∈ Finset.Ioo start stop,
        sourceWays held (splitSources? tokens start mid stop (.nonterminal category) right)
          items := by
  cases items with
  | nil =>
    refine (Finset.sum_eq_zero fun mid _ => ?_).symm
    simp only [splitSources?]
    cases right.sources? tokens mid stop with
    | none => rfl
    | some sources => exact sourceWays_cons_nil _ _
  | cons item items =>
    have hterm : ∀ mid ∈ Finset.Ioo start stop,
        (held (.anchored category.id start mid)).count item *
          rowWays tokens (fun c i j item => (held (.anchored c i j)).count item) [right] mid stop
            items =
        sourceWays held (splitSources? tokens start mid stop (.nonterminal category) right)
          (item :: items) := by
      intro mid hmid
      rw [rowWays_singleton right (Finset.mem_Ioo.1 hmid).2]
      simp only [splitSources?]
      cases right.sources? tokens mid stop with
      | none => rfl
      | some sources => exact (sourceWays_cons _ _ _ _).symm
    rw [rowWays, ← Finset.sum_congr rfl hterm]
    -- the last place of the split would leave no token to the right symbol
    refine (Finset.sum_subset (fun mid hmid => ?_) fun mid hmid hnot => ?_).symm
    · rw [Finset.mem_Ioo] at hmid
      exact Finset.mem_Ioc.2 ⟨hmid.1, Nat.le_of_lt hmid.2⟩
    · rw [Finset.mem_Ioc] at hmid
      rw [Finset.mem_Ioo] at hnot
      rw [rowWays_singleton_of_le right (by omega), Nat.mul_zero]

/-- Two symbols in a row are laid out by a split between them. -/
theorem rowWays_pair (left right : Symbol) (items : List α) :
    rowWays tokens (fun c i j item => (held (.anchored c i j)).count item) [left, right] start stop
      items =
      ∑ mid ∈ Finset.Ioo start stop,
        sourceWays held (splitSources? tokens start mid stop left right) items := by
  cases left with
  | terminal token => exact rowWays_terminal_pair token right items
  | nonterminal category => exact rowWays_nonterminal_pair category right items

/-- The steps of an anchored rule on a span offer a list of items as its children as often as the
items stand for the categories among its symbols. -/
theorem sum_spanSteps {rule : Rule} {phase : Phase} (hphase : rule.phase? = some phase)
    (hanchored : rule.floating = false) (h : start < stop) (items : List α) :
    ((rule.spanSteps tokens start (stop - start)).map fun step =>
      sourceWays held (some step.sources) items).sum =
      rowWays tokens (fun c i j item => (held (.anchored c i j)).count item) rule.rhs start stop
        items := by
  have hshape := Rule.shape_of_phase? hphase
  have hstop : start + (stop - start) = stop := Nat.add_sub_cancel' (Nat.le_of_lt h)
  cases phase with
  | lexical token =>
    rw [hshape.2, rowWays_singleton _ h, Rule.spanSteps, hphase]
    have hone : stop - start = 1 ↔ stop = start + 1 := by omega
    simp only [hone, Symbol.sources?]
    split
    · simp
    · rfl
  | promotion =>
    obtain ⟨-, category, hrhs⟩ := hshape
    rw [hrhs, rowWays_singleton _ h, Rule.spanSteps, hphase]
    simp [Rule.childCategories, hrhs, Symbol.category?, Symbol.sources?, hstop]
  | binary =>
    obtain ⟨-, left, right, hrhs⟩ := hshape
    rw [hrhs, rowWays_pair, Rule.spanSteps, hphase]
    have hsplit : ∀ mid, ((Grammar.splitStep? tokens start mid stop rule).toList.map fun step =>
        sourceWays held (some step.sources) items).sum =
          sourceWays held (splitSources? tokens start mid stop left right) items := by
      intro mid
      simp only [Grammar.splitStep?, splitSources?, hrhs]
      cases left.sources? tokens start mid with
      | none => rfl
      | some ls =>
        cases right.sources? tokens mid stop with
        | none => rfl
        | some rs => simp
    simp only [hstop, List.map_flatMap]
    rw [List.flatMap_def, List.sum_flatten, List.map_map]
    simp only [Function.comp_def, hsplit]
    rfl
  | floatingNullary | floatingUnary | floatingBinary =>
    have hfloating : rule.floating = true := hshape.1
    rw [hanchored] at hfloating
    cases hfloating

end Layout

/-! ## What comes of a step, counted -/

namespace Derivation

/-- Derivations over tokens one after the other share none. -/
theorem overlap_eq_zero {d e : Derivation} {i j k l : Nat}
    (hd : d.anchors = List.range' i (j - i)) (he : e.anchors = List.range' k (l - k))
    (hjk : j ≤ k) : d.overlap e = 0 := by
  rw [overlap, List.length_eq_zero_iff, List.filter_eq_nil_iff, hd, he]
  intro p hp hq
  rw [List.contains_iff_mem, List.mem_range'_1] at hq
  rw [List.mem_range'_1] at hp
  omega

end Derivation

namespace Task

variable {task : Task} {held : Cell → List Derivation} {step : Step} {start stop : Nat}
  {category : CategoryId}

/-- What comes of a step is made by its rule over derivations that its sources hold. -/
theorem exists_made_of_mem_fills (hl : task.pass ≠ .first) {cell : Cell} {d : Derivation}
    (hd : d ∈ task.fills held cell step) :
    task.Writes step cell ∧ ∃ ds, List.Forall₂ (fun e source => e ∈ held source) ds step.sources ∧
      d ∈ task.parser.made task.tokens ⟨step.rule, step.target.span, ds⟩ := by
  obtain ⟨ds, hds, hd⟩ := List.mem_flatMap.1 hd
  rw [mem_combinations, List.forall₂_map_right_iff] at hds
  rw [comesTo_eq hl] at hd
  split at hd
  · rename_i hcell
    exact ⟨hcell.1, ds, hds, hd⟩
  · cases hd

/-- What comes of a step in an anchored cell stands on the tokens of the cell. -/
theorem anchors_of_mem_fills (hl : task.pass ≠ .first) {d : Derivation}
    (hd : d ∈ task.fills held (.anchored category start stop) step) :
    d.anchors = List.range' start (stop - start) := by
  obtain ⟨hwrites, ds, -, hmade⟩ := exists_made_of_mem_fills hl hd
  rw [Parser.anchors_of_mem_made hmade, writes_anchored.1 hwrites]
  rfl

/-- What comes of a step in an anchored cell is by its rule, which is for the category. -/
theorem rule_of_mem_fills (hl : task.pass ≠ .first)
    (htarget : step.target = .anchored step.rule.lhs.id start stop) {d : Derivation}
    (hd : d ∈ task.fills held (.anchored category start stop) step) :
    step.rule = d.rule ∧ d.rule.lhs.id = category := by
  obtain ⟨hwrites, ds, -, hmade⟩ := exists_made_of_mem_fills hl hd
  have hrule := Parser.rule_of_mem_made hmade
  rw [writes_anchored, htarget] at hwrites
  obtain ⟨hc, -, -⟩ := Cell.anchored.inj hwrites
  exact ⟨hrule.symm, by rw [hrule, hc]⟩

open Classical in
/-- Of what comes of a step in its target, a derivation by the rule of the step is found as often as
the step reads its children and the rule then makes it. -/
theorem count_fills (hl : task.pass ≠ .first)
    (htarget : step.target = .anchored step.rule.lhs.id start stop)
    (hover : ∀ ds ∈ combinations (step.sources.map held), task.overlapping ds = false)
    (d : Derivation) :
    (task.fills held (.anchored category start stop) step).count d =
      if step.rule = d.rule ∧ d.rule.lhs.id = category then
        sourceWays held (some step.sources) d.children *
          (task.parser.made task.tokens ⟨d.rule, .anchored start stop, d.children⟩).count d
      else 0 := by
  by_cases hc : step.rule.lhs.id = category
  · have hfills : task.fills held (.anchored category start stop) step =
        (combinations (step.sources.map held)).flatMap fun ds =>
          task.parser.made task.tokens ⟨step.rule, .anchored start stop, ds⟩ := by
      refine List.flatMap_congr fun ds hds => ?_
      have hwrites : task.Writes step (.anchored category start stop) := by
        rw [writes_anchored, htarget, hc]
      rw [comesTo_eq hl, if_pos ⟨hwrites, hover ds hds⟩, htarget]
      rfl
    rw [hfills, count_flatMap_of_forall fun ds _ hm => (Parser.children_of_mem_made hm).symm]
    by_cases hr : step.rule = d.rule
    · rw [if_pos ⟨hr, hr ▸ hc⟩, hr]
      rfl
    · rw [if_neg fun h => hr h.1, List.count_eq_zero_of_not_mem fun hm =>
        hr (Parser.rule_of_mem_made hm).symm, Nat.mul_zero]
  · have hno : ¬ (step.rule = d.rule ∧ d.rule.lhs.id = category) := fun ⟨hr, hlhs⟩ => hc (hr ▸ hlhs)
    rw [if_neg hno, List.count_eq_zero]
    exact fun hd => hno (rule_of_mem_fills hl htarget hd)

/-- Where anchored cells hold what stands on their tokens, the children that a step on a span reads
share none. -/
theorem overlapping_of_spanStep {within : Bool}
    (hheld : ∀ c i j, start ≤ i → i < j → j ≤ stop → ∀ d ∈ held (.anchored c i j),
      d.anchors = List.range' i (j - i))
    (hspan : task.parser.grammar.SpanStep task.tokens start stop within step)
    {ds : List Derivation} (hds : ds ∈ combinations (step.sources.map held)) :
    task.overlapping ds = false := by
  rw [mem_combinations, List.forall₂_map_right_iff] at hds
  unfold overlapping
  split
  · rename_i limit d e _
    refine decide_eq_false (Nat.not_lt.2 ?_)
    obtain ⟨x, y, hx, hy, hsources⟩ : ∃ x y, d ∈ held x ∧ e ∈ held y ∧ step.sources = [x, y] := by
      generalize step.sources = sources at hds
      obtain ⟨x, xs, hx, hrest, rfl⟩ := List.forall₂_cons_left_iff.1 hds
      obtain ⟨y, ys, hy, hend, rfl⟩ := List.forall₂_cons_left_iff.1 hrest
      rw [List.forall₂_nil_left_iff.1 hend]
      exact ⟨x, y, hx, hy, rfl⟩
    obtain ⟨c, c', mid, hmid, hmid', rfl, rfl⟩ := hspan.exists_split hsources
    have hd := hheld c start mid (Nat.le_refl start) hmid (by omega) d hx
    have he := hheld c' mid stop (by omega) hmid' (Nat.le_refl stop) e hy
    rw [Derivation.overlap_eq_zero hd he (Nat.le_refl mid)]
    exact Nat.zero_le limit
  · rfl

end Task

/-! ## Anchored cells, counted -/

theorem count_flatMap_filter {α β : Type} [BEq β] [LawfulBEq β] {xs : List α} {p : α → Bool}
    {f : α → List β} {y : β} (h : ∀ x ∈ xs, y ∈ f x → p x = true) :
    (xs.flatMap f).count y = ((xs.filter p).flatMap f).count y := by
  induction xs with
  | nil => rfl
  | cons x xs ih =>
    have hrest := ih fun z hz => h z (List.mem_cons_of_mem _ hz)
    by_cases hx : p x = true
    · rw [List.filter_cons_of_pos hx, List.flatMap_cons, List.flatMap_cons, List.count_append,
        List.count_append, hrest]
    · have hnot : y ∉ f x := fun hy => hx (h x List.mem_cons_self hy)
      rw [List.filter_cons_of_neg hx, List.flatMap_cons, List.count_append, hrest,
        List.count_eq_zero_of_not_mem hnot, Nat.zero_add]

namespace Task

variable {task : Task} {held : Cell → List Derivation} {category start stop : Nat}

open Classical in
/-- Of what the steps of its rule on a span come to in a cell, a derivation is found as often as its
children stand in the row of the rule and the rule then makes it. -/
theorem count_flatMap_fills_rule (h : task.parser.grammar.Accepted) (hl : task.pass ≠ .first)
    (hheld : ∀ c i j, start ≤ i → i < j → j ≤ stop → ∀ d ∈ held (.anchored c i j),
      d.anchors = List.range' i (j - i))
    (hlt : start < stop) {d : Derivation} (hr : d.rule ∈ task.parser.grammar.rules)
    (hc : d.rule.lhs.id = category) :
    ((d.rule.spanSteps task.tokens start (stop - start)).flatMap
        (task.fills held (.anchored category start stop))).count d =
      if d.rule.floating = false then
        (task.parser.made task.tokens ⟨d.rule, .anchored start stop, d.children⟩).count d *
          rowWays task.tokens (fun c i j child => (held (.anchored c i j)).count child) d.rule.rhs
            start stop d.children
      else 0 := by
  obtain ⟨phase, hphase⟩ := h.exists_phase hr
  cases hf : d.rule.floating with
  | true => simp [Rule.spanSteps_of_floating hphase hf]
  | false =>
    have hmade : ∀ step ∈ d.rule.spanSteps task.tokens start (stop - start),
        (task.fills held (.anchored category start stop) step).count d =
          sourceWays held (some step.sources) d.children *
            (task.parser.made task.tokens ⟨d.rule, .anchored start stop, d.children⟩).count d := by
      intro step hstep
      rw [← Grammar.filter_spanSteps h hr, List.mem_filter] at hstep
      obtain ⟨within, hspan⟩ := Grammar.exists_spanStep_of_mem_sub (Nat.le_of_lt hlt) hstep.1
      rw [count_fills hl hspan.target_eq (fun ds hds => overlapping_of_spanStep hheld hspan hds),
        if_pos ⟨of_decide_eq_true hstep.2, hc⟩]
    rw [List.count_flatMap]
    simp only [Function.comp_def]
    rw [List.map_congr_left hmade, List.sum_map_mul_right, sum_spanSteps hphase hf hlt,
      Nat.mul_comm, if_pos trivial]

open Classical in
/-- Of all that the steps on a span come to in a cell, a derivation is found only by the steps of
its rule. -/
theorem count_flatMap_fills (h : task.parser.grammar.Accepted) (hl : task.pass ≠ .first)
    (hheld : ∀ c i j, start ≤ i → i < j → j ≤ stop → ∀ d ∈ held (.anchored c i j),
      d.anchors = List.range' i (j - i))
    (hlt : start < stop) (d : Derivation) :
    ((task.parser.grammar.spanSteps task.tokens start (stop - start)).flatMap
        (task.fills held (.anchored category start stop))).count d =
      if d.rule ∈ task.parser.grammar.rules ∧ d.rule.floating = false ∧
          d.rule.lhs.id = category then
        (task.parser.made task.tokens ⟨d.rule, .anchored start stop, d.children⟩).count d *
          rowWays task.tokens (fun c i j child => (held (.anchored c i j)).count child) d.rule.rhs
            start stop d.children
      else 0 := by
  have hspan : ∀ step ∈ task.parser.grammar.spanSteps task.tokens start (stop - start),
      ∃ within, task.parser.grammar.SpanStep task.tokens start stop within step :=
    fun step hstep => Grammar.exists_spanStep_of_mem_sub (Nat.le_of_lt hlt) hstep
  have hown : ∀ step ∈ task.parser.grammar.spanSteps task.tokens start (stop - start),
      d ∈ task.fills held (.anchored category start stop) step →
        step.rule = d.rule ∧ d.rule.lhs.id = category := by
    intro step hstep hd
    obtain ⟨within, hspan⟩ := hspan step hstep
    exact rule_of_mem_fills hl hspan.target_eq hd
  by_cases hrule : d.rule ∈ task.parser.grammar.rules ∧ d.rule.lhs.id = category
  · obtain ⟨hr, hc⟩ := hrule
    rw [count_flatMap_filter fun step hstep hd => decide_eq_true (hown step hstep hd).1,
      Grammar.filter_spanSteps h hr, count_flatMap_fills_rule h hl hheld hlt hr hc]
    simp only [hr, hc, true_and, and_true]
  · rw [if_neg fun hall => hrule ⟨hall.1, hall.2.2⟩]
    refine List.count_eq_zero.2 fun hd => hrule ?_
    obtain ⟨step, hstep, hd⟩ := List.mem_flatMap.1 hd
    obtain ⟨hr, hc⟩ := hown step hstep hd
    obtain ⟨within, hspan⟩ := hspan step hstep
    exact ⟨hr ▸ (hspan.legal h).rule, hc⟩

open Classical in
/-- In a finished chart, a derivation is in an anchored cell as often as it is licensed there. -/
theorem count_derivations_run (h : task.parser.grammar.Accepted) (hl : task.pass ≠ .first)
    (ha : task.allowed = none) {useful : CategoryId → Nat → Bool} {table : MeaningTable}
    (hb : (task.runWith useful table none).report.beamDropped = 0) (hlt : start < stop)
    (hle : stop ≤ task.tokens.length) (d : Derivation) :
    ((task.runWith useful table none).chart.derivations (.anchored category start stop)).count d =
      task.parser.ways task.tokens category start stop d := by
  have hperm : ∀ c i j, i < j → j ≤ task.tokens.length →
      ((task.runWith useful table none).chart.derivations (.anchored c i j)).Perm
        ((task.parser.grammar.spanSteps task.tokens i (j - i)).flatMap
          (task.fills (task.runWith useful table none).chart.derivations (.anchored c i j))) :=
    fun c i j hij hj => derivations_anchored_perm h hl ha hb hij hj
  have hanchors : ∀ c i j, i < j → j ≤ task.tokens.length →
      ∀ d ∈ (task.runWith useful table none).chart.derivations (.anchored c i j),
        d.anchors = List.range' i (j - i) := by
    intro c i j hij hj d hd
    obtain ⟨step, -, hd⟩ := List.mem_flatMap.1 ((hperm c i j hij hj).subset hd)
    exact anchors_of_mem_fills hl hd
  induction d using Derivation.induction_children generalizing category start stop with
  | h d ih =>
    rw [(hperm category start stop hlt hle).count_eq, count_flatMap_fills h hl
      (fun c i j _ hij hj => hanchors c i j hij (Nat.le_trans hj hle)) hlt d, Parser.ways_eq,
      rowWays_congr fun child hc c i j _ hij hj => ih child hc hij (Nat.le_trans hj hle)]

end Task

namespace Parser

open Classical in
/-- A second pass that may use everything and drops nothing, from whatever table it starts, has in
the cell of a category over some tokens exactly the derivations that the grammar licenses for the
category there, each as often as it is licensed. -/
theorem count_derivations_anchored {parser : Parser} (h : parser.grammar.Accepted) (ex : Example)
    (table : MeaningTable)
    (hb : ((parser.secondTask ex none).build table none).report.beamDropped = 0)
    {category : CategoryId} {start stop : Nat} (hlt : start < stop) (hle : stop ≤ ex.tokens.length)
    (d : Derivation) :
    (((parser.secondTask ex none).build table none).chart.derivations
        (.anchored category start stop)).count d = parser.ways ex.tokens category start stop d := by
  have haccepted : (parser.secondTask ex none).parser.grammar.Accepted := h
  have hlater : (parser.secondTask ex none).pass ≠ .first := nofun
  exact Task.count_derivations_run haccepted hlater rfl hb hlt hle d

/-- Over three tokens there is a derivation that the grammar of terms licenses. -/
theorem exists_ways_terms :
    ∃ d, 0 < Parser.terms.ways Example.difference.tokens 1 0 3 d := by
  classical
  have hsome : (((Parser.terms.secondTask .difference none).build .empty none).chart.derivations
      (.anchored 1 0 3)).isEmpty = false := by decide +kernel
  obtain ⟨d, hd⟩ := List.exists_mem_of_ne_nil _ (List.isEmpty_eq_false_iff.1 hsome)
  have haccepted : Parser.terms.grammar.Accepted := Grammar.accepted_terms
  refine ⟨d, ?_⟩
  rw [← count_derivations_anchored haccepted .difference .empty (by decide +kernel) (by decide)
    (by decide)]
  exact List.count_pos_iff.2 hd

end Parser

end GuidedChart
