import GuidedChart.Proofs.Construction.Run
import GuidedChart.Proofs.Grammar.Accepted
import Mathlib.Data.Prod.Lex

/-!
# Legal steps

A step on a span is one of three (`Grammar.SpanStep`), and so is a step at a depth
(`Grammar.DepthStep`). What all of them have in common (`Step.Legal`): the rule is one of the
grammar, the sources are cells of its children, and they come before the target in an order of
cells. That order goes by the length of the span, and within a span by the promotions; floating
cells come after all anchored ones and go by their depth (`Grammar.rank`). It is the reason why no
result is built from itself.
-/

namespace GuidedChart

namespace Grammar

/-- How far into the promotions a category is produced last. -/
def level (grammar : Grammar) (category : CategoryId) : Nat :=
  (grammar.promotions.reverse.dropWhile (·.lhs.id ≠ category)).length

/-- The place of a cell in the order in which cells are built from each other. -/
def rank (grammar : Grammar) : Cell → ℕ ×ₗ ℕ ×ₗ ℕ
  | .anchored category start stop => toLex (0, toLex (stop - start, grammar.level category))
  | .floating _ depth => toLex (1, toLex (depth, 0))

variable {grammar : Grammar}

theorem rank_anchored_lt {c d : CategoryId} {start stop start' stop' : Nat}
    (h : stop - start < stop' - start') :
    grammar.rank (.anchored c start stop) < grammar.rank (.anchored d start' stop') := by
  simp [rank, Prod.Lex.toLex_lt_toLex, h]

theorem rank_promotion_lt {c d : CategoryId} {start stop : Nat}
    (h : grammar.level c < grammar.level d) :
    grammar.rank (.anchored c start stop) < grammar.rank (.anchored d start stop) := by
  simp [rank, Prod.Lex.toLex_lt_toLex, h]

theorem rank_lift_lt {c d : CategoryId} {start stop depth : Nat} :
    grammar.rank (.anchored c start stop) < grammar.rank (.floating d depth) := by
  simp [rank, Prod.Lex.toLex_lt_toLex]

theorem rank_floating_lt {c d : CategoryId} {depth depth' : Nat} (h : depth < depth') :
    grammar.rank (.floating c depth) < grammar.rank (.floating d depth') := by
  simp [rank, Prod.Lex.toLex_lt_toLex, h]

/-- A promotion leads to a category that is produced later than the one it reads. -/
theorem level_lt (h : PromotionsOrdered grammar.promotions) {rule : Rule}
    (hr : rule ∈ grammar.promotions) {child : CategoryId}
    (hc : rule.childCategories.head? = some child) :
    grammar.level child < grammar.level rule.lhs.id := by
  obtain ⟨before, after, he⟩ := List.append_of_mem hr
  have hchild : grammar.level child ≤ before.length := by
    have hdrop : ∀ producer ∈ (rule :: after).reverse, decide (producer.lhs.id ≠ child) = true := by
      intro producer hp
      have hreads := h before rule after he producer (List.mem_reverse.1 hp)
      refine decide_eq_true fun hlhs => ?_
      rw [Rule.reads, hlhs, hc] at hreads
      simp at hreads
    rw [level, he, List.reverse_append, List.dropWhile_append_of_pos hdrop]
    refine Nat.le_trans (List.dropWhile_suffix _).length_le ?_
    rw [List.length_reverse]
  have hrule : before.length < grammar.level rule.lhs.id := by
    rw [level, he, List.reverse_append, List.reverse_cons, List.append_assoc, List.dropWhile_append]
    split
    · simp
    · simp
      omega
  exact Nat.lt_of_le_of_lt hchild hrule

end Grammar

/-! ## What steps there are -/

/-- A symbol is read from one cell at most, which is a cell of its category. -/
theorem Symbol.sources?_eq {tokens : List String} {start stop : Nat} {symbol : Symbol}
    {sources : List Cell} (h : symbol.sources? tokens start stop = some sources) :
    sources = symbol.category?.toList.map fun category => .anchored category start stop := by
  cases symbol with
  | terminal token =>
    simp only [Symbol.sources?] at h
    split at h
    · cases h
      rfl
    · cases h
  | nonterminal category =>
    cases h
    rfl

namespace Grammar

section Spans

/-- The steps of the rules for a single token. -/
def lexicalSteps (grammar : Grammar) (tokens : List String) (start length : Nat) : List Step :=
  if length = 1 then
    match tokens[start]? with
    | some token => (grammar.rulesOf (.lexical token)).map fun rule =>
      ⟨rule, .anchored rule.lhs.id start (start + length), []⟩
    | none => []
  else []

/-- The steps of the rules over two symbols. -/
def splitSteps (grammar : Grammar) (tokens : List String) (start length : Nat) : List Step :=
  (List.range' (start + 1) (length - 1)).flatMap fun mid =>
    (grammar.rulesOf .binary).filterMap (splitStep? tokens start mid (start + length))

/-- The steps of the promotions within a span. -/
def promotionSteps (grammar : Grammar) (start length : Nat) : List Step :=
  grammar.promotions.filterMap fun rule =>
    rule.childCategories.head?.map fun child =>
      ⟨rule, .anchored rule.lhs.id start (start + length), [.anchored child start (start + length)]⟩

/-- A step on a span, which leads to the span from shorter ones or, as promotions do, from the span
itself. -/
inductive SpanStep (grammar : Grammar) (tokens : List String) (start stop : Nat) :
    (within : Bool) → Step → Prop
  | lexical {token : String} {rule : Rule} (hrule : rule ∈ grammar.rulesOf (.lexical token))
    (htoken : tokens[start]? = some token) (hstop : stop = start + 1) :
    SpanStep grammar tokens start stop false ⟨rule, .anchored rule.lhs.id start stop, []⟩
  | split {mid : Nat} {rule : Rule} {left right : Symbol} {ls rs : List Cell}
    (hrule : rule ∈ grammar.rulesOf .binary) (hrhs : rule.rhs = [left, right])
    (hstart : start < mid) (hstop : mid < stop) (hls : left.sources? tokens start mid = some ls)
    (hrs : right.sources? tokens mid stop = some rs) :
    SpanStep grammar tokens start stop false ⟨rule, .anchored rule.lhs.id start stop, ls ++ rs⟩
  | promotion {rule : Rule} {child : CategoryId} (hrule : rule ∈ grammar.promotions)
    (hchild : rule.childCategories.head? = some child) :
    SpanStep grammar tokens start stop true
      ⟨rule, .anchored rule.lhs.id start stop, [.anchored child start stop]⟩

variable {grammar : Grammar} {tokens : List String} {start stop length : Nat} {step : Step}

theorem spanSteps_eq (grammar : Grammar) (tokens : List String) (start length : Nat) :
    grammar.spanSteps tokens start length = grammar.lexicalSteps tokens start length ++
      grammar.splitSteps tokens start length ++ grammar.promotionSteps start length := rfl

theorem splitStep?_eq_some {mid : Nat} {rule : Rule}
    (h : splitStep? tokens start mid stop rule = some step) :
    ∃ left right ls rs, rule.rhs = [left, right] ∧ left.sources? tokens start mid = some ls ∧
      right.sources? tokens mid stop = some rs ∧
      step = ⟨rule, .anchored rule.lhs.id start stop, ls ++ rs⟩ := by
  unfold splitStep? at h
  split at h
  · rename_i left right hrhs
    simp only [Option.bind_eq_bind, Option.bind_eq_some_iff, Option.pure_def,
      Option.some.injEq] at h
    obtain ⟨ls, hls, rs, hrs, rfl⟩ := h
    exact ⟨left, right, ls, rs, hrhs, hls, hrs, rfl⟩
  · cases h

theorem spanStep_of_mem_splitSteps
    (h : step ∈ grammar.lexicalSteps tokens start length ++
      grammar.splitSteps tokens start length) :
    grammar.SpanStep tokens start (start + length) false step := by
  rcases List.mem_append.1 h with h | h
  · unfold lexicalSteps at h
    split at h
    · rename_i hone
      split at h
      · rename_i token htoken
        obtain ⟨rule, hrule, rfl⟩ := List.mem_map.1 h
        exact .lexical hrule htoken (by omega)
      · cases h
    · cases h
  · obtain ⟨mid, hmid, h⟩ := List.mem_flatMap.1 h
    obtain ⟨rule, hrule, h⟩ := List.mem_filterMap.1 h
    obtain ⟨left, right, ls, rs, hrhs, hls, hrs, rfl⟩ := splitStep?_eq_some h
    rw [List.mem_range'_1] at hmid
    exact .split hrule hrhs (by omega) (by omega) hls hrs

theorem spanStep_of_mem_promotionSteps (h : step ∈ grammar.promotionSteps start length) :
    grammar.SpanStep tokens start (start + length) true step := by
  obtain ⟨rule, hrule, h⟩ := List.mem_filterMap.1 h
  obtain ⟨child, hchild, rfl⟩ := Option.map_eq_some_iff.1 h
  exact .promotion hrule hchild

theorem exists_spanStep_of_mem (h : step ∈ grammar.spanSteps tokens start length) :
    ∃ within, grammar.SpanStep tokens start (start + length) within step := by
  rw [spanSteps_eq, List.mem_append] at h
  rcases h with h | h
  · exact ⟨false, spanStep_of_mem_splitSteps h⟩
  · exact ⟨true, spanStep_of_mem_promotionSteps h⟩

theorem exists_spanStep_of_mem_sub (hle : start ≤ stop)
    (h : step ∈ grammar.spanSteps tokens start (stop - start)) :
    ∃ within, grammar.SpanStep tokens start stop within step := by
  have hspan := exists_spanStep_of_mem h
  rw [Nat.add_sub_cancel' hle] at hspan
  exact hspan

end Spans

section Depths

/-- The step of a floating rule over one child, at the depth above `below`. -/
def unaryStep? (below : Nat) (rule : Rule) : Option Step :=
  rule.childCategories.head?.map fun child =>
    ⟨rule, .floating rule.lhs.id (below + 1), [.floating child below]⟩

/-- The steps of a floating rule over two children, at the depth above `below`. -/
def pairSteps (bySize : Bool) (below : Nat) (rule : Rule) : List Step :=
  match rule.childCategories with
  | left :: right :: _ => (childDepths (below + 1) bySize).map fun (leftDepth, rightDepth) =>
    ⟨rule, .floating rule.lhs.id (below + 1),
      [.floating left leftDepth, .floating right rightDepth]⟩
  | _ => []

/-- A step at a depth. -/
inductive DepthStep (grammar : Grammar) (bySize : Bool) (useful : CategoryId → Nat → Bool) :
    Nat → Step → Prop
  | nullary {rule : Rule} (hrule : rule ∈ grammar.rulesOf .floatingNullary)
    (huseful : useful rule.lhs.id 0 = true) :
    DepthStep grammar bySize useful 0 ⟨rule, .floating rule.lhs.id 0, []⟩
  | unary {rule : Rule} {below : Nat} {child : CategoryId}
    (hrule : rule ∈ grammar.rulesOf .floatingUnary)
    (huseful : useful rule.lhs.id (below + 1) = true)
    (hchild : rule.childCategories.head? = some child) :
    DepthStep grammar bySize useful (below + 1)
      ⟨rule, .floating rule.lhs.id (below + 1), [.floating child below]⟩
  | binary {rule : Rule} {below : Nat} {left right : CategoryId} {others : List CategoryId}
    {depths : Nat × Nat} (hrule : rule ∈ grammar.rulesOf .floatingBinary)
    (huseful : useful rule.lhs.id (below + 1) = true)
    (hchildren : rule.childCategories = left :: right :: others)
    (hdepths : depths ∈ childDepths (below + 1) bySize) :
    DepthStep grammar bySize useful (below + 1)
      ⟨rule, .floating rule.lhs.id (below + 1),
        [.floating left depths.1, .floating right depths.2]⟩

variable {grammar : Grammar} {bySize : Bool} {useful : CategoryId → Nat → Bool} {depth : Nat}
  {step : Step}

theorem depthSteps_succ (grammar : Grammar) (bySize : Bool) (useful : CategoryId → Nat → Bool)
    (below : Nat) :
    grammar.depthSteps bySize useful (below + 1) =
      ((grammar.rulesOf .floatingUnary).filter (useful ·.lhs.id (below + 1))).filterMap
        (unaryStep? below) ++
      ((grammar.rulesOf .floatingBinary).filter (useful ·.lhs.id (below + 1))).flatMap
        (pairSteps bySize below) := rfl

theorem depthStep_of_mem (h : step ∈ grammar.depthSteps bySize useful depth) :
    grammar.DepthStep bySize useful depth step := by
  cases depth with
  | zero =>
    obtain ⟨rule, hr, rfl⟩ := List.mem_map.1 h
    obtain ⟨hrule, huseful⟩ := List.mem_filter.1 hr
    exact .nullary hrule huseful
  | succ below =>
    rw [depthSteps_succ, List.mem_append] at h
    rcases h with h | h
    · obtain ⟨rule, hr, h⟩ := List.mem_filterMap.1 h
      obtain ⟨child, hchild, rfl⟩ := Option.map_eq_some_iff.1 h
      obtain ⟨hrule, huseful⟩ := List.mem_filter.1 hr
      exact .unary hrule huseful hchild
    · obtain ⟨rule, hr, h⟩ := List.mem_flatMap.1 h
      obtain ⟨hrule, huseful⟩ := List.mem_filter.1 hr
      unfold pairSteps at h
      split at h
      · rename_i left right others hchildren
        obtain ⟨depths, hdepths, rfl⟩ := List.mem_map.1 h
        exact .binary hrule huseful hchildren hdepths
      · cases h

theorem lt_of_mem_childDepths {depth : Nat} {bySize : Bool} {p : Nat × Nat}
    (h : p ∈ childDepths depth bySize) : p.1 < depth ∧ p.2 < depth := by
  cases depth with
  | zero => cases h
  | succ below =>
    simp only [childDepths] at h
    split at h
    · obtain ⟨left, hl, rfl⟩ := List.mem_map.1 h
      rw [List.mem_range] at hl
      exact ⟨hl, Nat.lt_succ_of_le (Nat.sub_le below left)⟩
    · rcases List.mem_append.1 h with h | h
      · obtain ⟨right, hr, rfl⟩ := List.mem_map.1 h
        exact ⟨Nat.lt_succ_self below, List.mem_range.1 hr⟩
      · obtain ⟨left, hl, rfl⟩ := List.mem_map.1 h
        exact ⟨Nat.lt_succ_of_lt (List.mem_range.1 hl), Nat.lt_succ_self below⟩

end Depths

end Grammar

/-! ## Legal steps -/

/-- What every step of a plan is like. -/
structure Step.Legal (grammar : Grammar) (step : Step) : Prop where
  rule : step.rule ∈ grammar.rules
  category : step.target.category = step.rule.lhs.id
  length : step.sources.length ≤ 2
  sources : ∀ source ∈ step.sources, source.category ∈ step.rule.childCategories
  rank : ∀ source ∈ step.sources, grammar.rank source < grammar.rank step.target

namespace Grammar

variable {grammar : Grammar} {step : Step}

theorem SpanStep.legal {tokens : List String} {start stop : Nat} {within : Bool}
    (hs : grammar.SpanStep tokens start stop within step) (h : grammar.Accepted) :
    step.Legal grammar := by
  cases hs with
  | lexical hrule => exact ⟨(mem_rulesOf.1 hrule).1, rfl, Nat.zero_le 2, nofun, nofun⟩
  | @split mid rule left right ls rs hrule hrhs hstart hstop hls hrs =>
    have hchildren : rule.childCategories = left.category?.toList ++ right.category?.toList := by
      rw [Rule.childCategories, hrhs]
      cases hleft : left.category? <;> cases hright : right.category? <;> simp [hleft, hright]
    rw [Symbol.sources?_eq hls, Symbol.sources?_eq hrs]
    refine ⟨(mem_rulesOf.1 hrule).1, rfl, ?_, fun source hs => ?_, fun source hs => ?_⟩
    · cases left.category? <;> cases right.category? <;> simp
    · rw [hchildren, List.mem_append]
      rcases List.mem_append.1 hs with hs | hs
      · obtain ⟨c, hc, rfl⟩ := List.mem_map.1 hs
        exact Or.inl hc
      · obtain ⟨c, hc, rfl⟩ := List.mem_map.1 hs
        exact Or.inr hc
    · rcases List.mem_append.1 hs with hs | hs
      · obtain ⟨c, -, rfl⟩ := List.mem_map.1 hs
        exact rank_anchored_lt (by omega)
      · obtain ⟨c, -, rfl⟩ := List.mem_map.1 hs
        exact rank_anchored_lt (by omega)
  | promotion hrule hchild =>
    obtain ⟨hsub, hordered⟩ := h.promotions
    refine ⟨hsub hrule, rfl, Nat.le_succ 1, fun source hs => ?_, fun source hs => ?_⟩
    · rw [List.mem_singleton.1 hs]
      exact List.mem_of_mem_head? hchild
    · rw [List.mem_singleton.1 hs]
      exact rank_promotion_lt (level_lt hordered hrule hchild)

theorem DepthStep.legal {bySize : Bool} {useful : CategoryId → Nat → Bool} {depth : Nat}
    (hs : grammar.DepthStep bySize useful depth step) : step.Legal grammar := by
  cases hs with
  | nullary hrule => exact ⟨(mem_rulesOf.1 hrule).1, rfl, Nat.zero_le 2, nofun, nofun⟩
  | unary hrule _ hchild =>
    refine ⟨(mem_rulesOf.1 hrule).1, rfl, Nat.le_succ 1, fun source hs => ?_, fun source hs => ?_⟩
    · rw [List.mem_singleton.1 hs]
      exact List.mem_of_mem_head? hchild
    · rw [List.mem_singleton.1 hs]
      exact rank_floating_lt (Nat.lt_succ_self _)
  | binary hrule _ hchildren hdepths =>
    obtain ⟨hleft, hright⟩ := lt_of_mem_childDepths hdepths
    refine ⟨(mem_rulesOf.1 hrule).1, rfl, Nat.le_refl 2, fun source hs => ?_, fun source hs => ?_⟩
    · rw [hchildren]
      rcases List.mem_pair.1 hs with rfl | rfl <;> simp [Cell.category]
    · rcases List.mem_pair.1 hs with rfl | rfl
      · exact rank_floating_lt hleft
      · exact rank_floating_lt hright

end Grammar

section Plans

variable {task : Task} {useful : CategoryId → Nat → Bool} {steps : List Step} {step : Step}

/-- A step of a plan is one on a span of tokens, or one at a depth. -/
theorem Task.spanStep_or_depthStep_of_mem_plan (hsteps : steps ∈ task.plan useful)
    (hstep : step ∈ steps) :
    (∃ start stop within, start < stop ∧
      task.parser.grammar.SpanStep task.tokens start stop within step) ∨
      ∃ depth, task.parser.grammar.DepthStep task.parser.config.bySize useful depth step := by
  rcases List.mem_append.1 hsteps with hb | hb
  · obtain ⟨length, hlength, rfl⟩ := List.mem_map.1 hb
    obtain ⟨start, -, hs⟩ := List.mem_flatMap.1 hstep
    obtain ⟨within, hspan⟩ := Grammar.exists_spanStep_of_mem hs
    rw [List.mem_range'_1] at hlength
    exact Or.inl ⟨start, start + length, within, by omega, hspan⟩
  · obtain ⟨depth, -, rfl⟩ := List.mem_map.1 hb
    exact Or.inr ⟨depth, Grammar.depthStep_of_mem hstep⟩

theorem Task.legal_of_mem_plan (h : task.parser.grammar.Accepted)
    (hsteps : steps ∈ task.plan useful) (hstep : step ∈ steps) :
    step.Legal task.parser.grammar := by
  obtain ⟨start, stop, within, -, hspan⟩ | ⟨depth, hdepth⟩ :=
    task.spanStep_or_depthStep_of_mem_plan hsteps hstep
  · exact hspan.legal h
  · exact hdepth.legal

end Plans

end GuidedChart
