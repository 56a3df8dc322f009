import GuidedChart.Proofs.Construction.Schedule

/-!
# A cell is complete before it is read

In a plan, no step files anything in a cell that it reads itself or that an earlier step has read
(`Task.pairwise_plan`, `Task.spares_self`). For two steps on spans of one length that is so because
what is read is shorter, with one exception: a promotion reads its own span, and there the order of
the promotions decides.
-/

namespace GuidedChart

/-! ## Which cells a step reads and fills -/

namespace Grammar

variable {grammar : Grammar} {step : Step}

namespace SpanStep

variable {tokens : List String} {start stop : Nat} {within : Bool}

/-- A step on a span fills a cell of the span. -/
theorem target_eq (h : grammar.SpanStep tokens start stop within step) :
    step.target = .anchored step.rule.lhs.id start stop := by
  cases h <;> rfl

/-- What a step that is no promotion reads is shorter than its span. -/
theorem exists_shorter (h : grammar.SpanStep tokens start stop false step) {source : Cell}
    (hs : source ∈ step.sources) :
    ∃ category i j, source = .anchored category i j ∧ j - i < stop - start := by
  cases h with
  | lexical => cases hs
  | @split mid rule left right ls rs hrule hrhs hstart hstop hls hrs =>
    rw [Symbol.sources?_eq hls, Symbol.sources?_eq hrs] at hs
    rcases List.mem_append.1 hs with hs | hs
    · obtain ⟨category, -, rfl⟩ := List.mem_map.1 hs
      exact ⟨category, start, mid, rfl, by omega⟩
    · obtain ⟨category, -, rfl⟩ := List.mem_map.1 hs
      exact ⟨category, mid, stop, rfl, by omega⟩

/-- A step on a span reads the span itself, or a shorter one. -/
theorem exists_source (h : grammar.SpanStep tokens start stop within step) {source : Cell}
    (hs : source ∈ step.sources) :
    ∃ category i j, source = .anchored category i j ∧
      (j - i < stop - start ∨ i = start ∧ j = stop) := by
  cases within with
  | false =>
    obtain ⟨category, i, j, rfl, hlt⟩ := h.exists_shorter hs
    exact ⟨category, i, j, rfl, Or.inl hlt⟩
  | true =>
    cases h with
    | @promotion rule child =>
      exact ⟨child, start, stop, List.mem_singleton.1 hs, Or.inr ⟨rfl, rfl⟩⟩

/-- If a step on a span reads two cells, the first ends where the second begins. -/
theorem exists_split (h : grammar.SpanStep tokens start stop within step) {x y : Cell}
    (hs : step.sources = [x, y]) :
    ∃ c d mid, start < mid ∧ mid < stop ∧ x = .anchored c start mid ∧ y = .anchored d mid stop := by
  cases h with
  | lexical => cases hs
  | @split mid rule left right ls rs hrule hrhs hstart hstop hls hrs =>
    rw [Symbol.sources?_eq hls, Symbol.sources?_eq hrs] at hs
    cases hl : left.category? with
    | none => cases hr : right.category? <;> simp [hl, hr] at hs
    | some c =>
      cases hr : right.category? with
      | none => simp [hl, hr] at hs
      | some d =>
        simp only [hl, hr, Option.toList_some, List.map_cons, List.map_nil, List.singleton_append,
          List.cons.injEq, and_true] at hs
        exact ⟨c, d, mid, hstart, hstop, hs.1.symm, hs.2.symm⟩
  | promotion => cases hs

end SpanStep

namespace DepthStep

variable {bySize : Bool} {useful : CategoryId → Nat → Bool} {depth : Nat}

/-- A step at a depth fills a cell of the depth. -/
theorem target_eq (h : grammar.DepthStep bySize useful depth step) :
    step.target = .floating step.rule.lhs.id depth := by
  cases h <;> rfl

/-- A step at a depth reads smaller depths. -/
theorem exists_source (h : grammar.DepthStep bySize useful depth step) {source : Cell}
    (hs : source ∈ step.sources) :
    ∃ category d, source = .floating category d ∧ d < depth := by
  cases h with
  | nullary => cases hs
  | @unary rule below child =>
    exact ⟨child, below, List.mem_singleton.1 hs, Nat.lt_succ_self below⟩
  | @binary rule below left right others depths hrule huseful hchildren hdepths =>
    obtain ⟨hleft, hright⟩ := lt_of_mem_childDepths hdepths
    rcases List.mem_pair.1 hs with rfl | rfl
    · exact ⟨left, depths.1, rfl, hleft⟩
    · exact ⟨right, depths.2, rfl, hright⟩

end DepthStep

end Grammar

/-! ## Steps that spare each other -/

namespace Task

/-- May the step file something in the cell? It files in its target, and where that is lifted to. -/
def Writes (task : Task) (step : Step) (cell : Cell) : Prop :=
  cell ∈ step.target :: (task.lift? step.target).toList

/-- Does the later step file nothing in the cells that the earlier one reads? -/
def Spares (task : Task) (earlier later : Step) : Prop :=
  ∀ source ∈ earlier.sources, ¬ task.Writes later source

variable {task : Task} {step earlier later : Step}

theorem writes_anchored {category start stop : Nat} :
    task.Writes step (.anchored category start stop) ↔
      step.target = .anchored category start stop := by
  rw [Writes, List.mem_cons, Option.mem_toList]
  constructor
  · rintro (h | h)
    · exact h.symm
    · cases (eq_of_mem_lift? h).2.2
  · exact fun h => Or.inl h.symm

/-- A floating cell of depth zero is filled from anchored cells too, if these are lifted. -/
theorem writes_floating {category depth : Nat} :
    task.Writes step (.floating category depth) ↔
      step.target = .floating category depth ∨ depth = 0 ∧ step.target.isAnchored = true ∧
        task.parser.lifts category = true ∧ step.target.category = category := by
  rw [Writes, List.mem_cons, Option.mem_toList, eq_comm]
  refine or_congr_right ⟨fun h => ?_, ?_⟩
  · obtain ⟨hanchored, hlifts, hcell⟩ := eq_of_mem_lift? h
    obtain ⟨rfl, rfl⟩ := Cell.floating.inj hcell
    exact ⟨rfl, hanchored, hlifts, rfl⟩
  · rintro ⟨rfl, hanchored, hlifts, rfl⟩
    rw [lift?, hanchored, hlifts]
    rfl

/-- A step files nothing in the cells that it reads. -/
theorem spares_self (h : step.Legal task.parser.grammar) : task.Spares step step := by
  intro source hs hw
  have hlt := h.rank source hs
  rcases List.mem_cons.1 hw with rfl | hw
  · exact lt_irrefl _ hlt
  · obtain ⟨hanchored, -, rfl⟩ := eq_of_mem_lift? (Option.mem_toList.1 hw)
    cases ht : step.target with
    | anchored category start stop =>
      rw [ht] at hlt
      exact lt_asymm hlt Grammar.rank_lift_lt
    | floating category depth =>
      rw [ht] at hanchored
      cases hanchored

end Task

theorem PromotionsOrdered.pairwise {promotions : List Rule} (h : PromotionsOrdered promotions) :
    promotions.Pairwise fun rule producer => rule.reads producer.lhs.id = false := by
  induction promotions with
  | nil => exact .nil
  | cons rule rest ih =>
    refine List.pairwise_cons.2 ⟨fun producer hp => ?_, ih fun before r after he => ?_⟩
    · exact h [] rule rest rfl producer (List.mem_cons_of_mem _ hp)
    · exact h (rule :: before) r after (by rw [he, List.cons_append])

namespace Task

variable {task : Task} {tokens : List String}

theorem spares_of_shorter {earlier later : Step} {start stop : Nat} {within : Bool}
    (h : ∀ source ∈ earlier.sources, ∃ category i j, source = .anchored category i j ∧
      j - i < stop - start)
    (hlater : task.parser.grammar.SpanStep tokens start stop within later) :
    task.Spares earlier later := by
  intro source hs hw
  obtain ⟨category, i, j, rfl, hlt⟩ := h source hs
  rw [writes_anchored, hlater.target_eq] at hw
  obtain ⟨-, rfl, rfl⟩ := Cell.anchored.inj hw
  exact Nat.lt_irrefl _ hlt

/-- Within a span, the promotions come last, and producers before readers. -/
theorem pairwise_spanSteps (h : PromotionsOrdered task.parser.grammar.promotions)
    (start length : Nat) :
    (task.parser.grammar.spanSteps tokens start length).Pairwise task.Spares := by
  have hshort : ∀ step ∈ task.parser.grammar.lexicalSteps tokens start length ++
      task.parser.grammar.splitSteps tokens start length,
      ∀ later ∈ task.parser.grammar.spanSteps tokens start length, task.Spares step later := by
    intro step hstep later hlater
    obtain ⟨within, hlater⟩ := Grammar.exists_spanStep_of_mem hlater
    refine spares_of_shorter (fun source hs => ?_) hlater
    exact (Grammar.spanStep_of_mem_splitSteps hstep).exists_shorter hs
  rw [Grammar.spanSteps_eq] at hshort ⊢
  refine List.pairwise_append.2 ⟨?_, ?_, ?_⟩
  · exact List.pairwise_of_forall_mem_list fun step hstep later hlater =>
      hshort step hstep later (List.mem_append_left _ hlater)
  · refine List.pairwise_filterMap.2 (h.pairwise.imp fun {rule producer} hreads => ?_)
    intro step hstep later hlater source hs hw
    obtain ⟨child, hchild, rfl⟩ := Option.map_eq_some_iff.1 hstep
    obtain ⟨other, -, rfl⟩ := Option.map_eq_some_iff.1 hlater
    rw [List.mem_singleton.1 hs, writes_anchored] at hw
    obtain ⟨hproduced, -, -⟩ := Cell.anchored.inj hw
    rw [Rule.reads, hchild, hproduced] at hreads
    simp at hreads
  · exact fun step hstep later hlater => hshort step hstep later (List.mem_append_right _ hlater)

theorem pairwise_anchoredSchedule (h : PromotionsOrdered task.parser.grammar.promotions) :
    task.anchoredSchedule.flatten.Pairwise task.Spares := by
  unfold anchoredSchedule Grammar.anchoredSchedule
  rw [← List.flatMap_def]
  refine List.pairwise_flatMap.2 ⟨fun length _ => List.pairwise_flatMap.2 ⟨fun start _ => ?_, ?_⟩,
    (List.pairwise_lt_range' 1).imp fun {length length'} hlt step hstep later hlater => ?_⟩
  · exact pairwise_spanSteps h start length
  · -- spans of one length that begin at different tokens
    refine List.pairwise_lt_range.imp ?_
    intro start start' hlt step hstep later hlater source hs hw
    obtain ⟨within, hstep⟩ := Grammar.exists_spanStep_of_mem hstep
    obtain ⟨within', hlater⟩ := Grammar.exists_spanStep_of_mem hlater
    obtain ⟨category, i, j, rfl, hij⟩ := hstep.exists_source hs
    rw [writes_anchored, hlater.target_eq] at hw
    obtain ⟨-, rfl, rfl⟩ := Cell.anchored.inj hw
    omega
  · obtain ⟨start, -, hstep⟩ := List.mem_flatMap.1 hstep
    obtain ⟨start', -, hlater⟩ := List.mem_flatMap.1 hlater
    obtain ⟨within, hstep⟩ := Grammar.exists_spanStep_of_mem hstep
    obtain ⟨within', hlater⟩ := Grammar.exists_spanStep_of_mem hlater
    refine spares_of_shorter (fun source hs => ?_) hlater
    obtain ⟨category, i, j, rfl, hij⟩ := hstep.exists_source hs
    exact ⟨category, i, j, rfl, by omega⟩

variable {useful : CategoryId → Nat → Bool}

theorem spares_of_mem_depthSteps {earlier later : Step} {depth depth' : Nat}
    (hstep : earlier ∈ task.depthSteps useful depth)
    (hlater : later ∈ task.depthSteps useful depth') (hle : depth ≤ depth') :
    task.Spares earlier later := by
  intro source hs hw
  obtain ⟨category, d, rfl, hlt⟩ := (Grammar.depthStep_of_mem hstep).exists_source hs
  rw [writes_floating, (Grammar.depthStep_of_mem hlater).target_eq] at hw
  rcases hw with hw | ⟨-, hanchored, -⟩
  · obtain ⟨-, rfl⟩ := Cell.floating.inj hw
    omega
  · cases hanchored

/-- No step of a plan files anything in a cell that an earlier one has read. -/
theorem pairwise_plan (task : Task) (useful : CategoryId → Nat → Bool)
    (h : task.parser.grammar.Accepted) : (task.plan useful).flatten.Pairwise task.Spares := by
  rw [plan, List.flatten_append, ← List.flatMap_def]
  refine List.pairwise_append.2 ⟨pairwise_anchoredSchedule h.promotions.2,
    List.pairwise_flatMap.2 ⟨fun depth _ => ?_, ?_⟩, fun step hstep later hlater source hs hw => ?_⟩
  · exact List.pairwise_of_forall_mem_list fun step hstep later hlater =>
      spares_of_mem_depthSteps hstep hlater (Nat.le_refl depth)
  · exact (List.pairwise_lt_range' 1).imp fun {depth depth'} hlt step hstep later hlater =>
      spares_of_mem_depthSteps hstep hlater (Nat.le_of_lt hlt)
  · obtain ⟨steps, hsteps, hstep⟩ := List.mem_flatten.1 hstep
    obtain ⟨length, -, rfl⟩ := List.mem_map.1 hsteps
    obtain ⟨start, -, hstep⟩ := List.mem_flatMap.1 hstep
    obtain ⟨depth, -, hlater⟩ := List.mem_flatMap.1 hlater
    obtain ⟨within, hstep⟩ := Grammar.exists_spanStep_of_mem hstep
    obtain ⟨category, i, j, rfl, -⟩ := hstep.exists_source hs
    rw [writes_anchored, (Grammar.depthStep_of_mem hlater).target_eq] at hw
    cases hw

end Task

end GuidedChart
