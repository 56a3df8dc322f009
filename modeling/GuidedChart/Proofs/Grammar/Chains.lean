import GuidedChart.Grammar.DepthBounds
import GuidedChart.Proofs.Grammar.Categories
import Mathlib.Data.Finset.Card
import Mathlib.Data.Finset.Range
import Mathlib.Data.Nat.Find
import Mathlib.Logic.Function.Iterate

/-!
# Chains of floating rules

A category is reached in so many steps if a chain of so many floating rules leads to it from the
root, each from a left-hand side to one of the children (`Grammar.Reaches`). Relaxing along all
rules once more makes one step more, so nothing is missed in as many rounds as a chain has steps
(`Grammar.admits_iterate`). A shortest chain has fewer steps than there are categories, because it
passes one at each distance (`Grammar.Nearest.lt_length`). So the bound of a category is what its
distance leaves of the depth (`Grammar.bound?_depthBounds_eq_some_iff`), and a rule that is useful
at some depth has children that are useful at the depth below (`Grammar.admits_child`).
-/

namespace GuidedChart

/-! ## Relaxing -/

namespace DepthBounds

variable {bounds : DepthBounds} {category other : CategoryId} {depth d : Nat} {rule : Rule}
  {rules : List Rule}

theorem admits_iff :
    bounds.admits category depth = true ↔
      ∃ bound, bounds.bound? category = some bound ∧ depth ≤ bound := by
  unfold admits
  cases bounds.bound? category <;> simp

theorem admits_of_le (h : bounds.admits category depth = true) (hd : d ≤ depth) :
    bounds.admits category d = true := by
  rw [admits_iff] at h ⊢
  obtain ⟨bound, hb, hle⟩ := h
  exact ⟨bound, hb, Nat.le_trans hd hle⟩

@[simp]
theorem size_raise : (bounds.raise category depth).size = bounds.size :=
  Array.size_modify

/-- Raising a bound lowers none. -/
theorem admits_raise (h : bounds.admits other d = true) :
    (bounds.raise category depth).admits other d = true := by
  rw [admits_iff] at h ⊢
  obtain ⟨bound, hb, hle⟩ := h
  rw [bound?, raise, Array.getElem?_modify]
  split
  · rename_i he
    subst he
    have hget : bounds[category]? = some (some bound) := Option.join_eq_some_iff.1 hb
    exact ⟨max bound depth, by simp [hget], Nat.le_trans hle (Nat.le_max_left _ _)⟩
  · exact ⟨bound, hb, hle⟩

theorem admits_raise_self (h : category < bounds.size) :
    (bounds.raise category depth).admits category depth = true := by
  rw [admits_iff, bound?, raise, Array.getElem?_modify, if_pos rfl, Array.getElem?_eq_getElem h]
  cases bounds[category] with
  | none => exact ⟨depth, by simp, Nat.le_refl depth⟩
  | some old => exact ⟨max old depth, by simp, Nat.le_max_right old depth⟩

/-- A bound that was raised is the old one or the new one. -/
theorem bound?_raise {bound : Nat} (h : (bounds.raise category depth).bound? other = some bound) :
    bounds.bound? other = some bound ∨ other = category ∧ bound = depth := by
  rw [bound?, raise, Array.getElem?_modify] at h
  split at h
  · rename_i he
    subst he
    cases hold : bounds[category]? with
    | none => simp [hold] at h
    | some bound? =>
      cases bound? with
      | none =>
        simp only [hold, Option.map_some, Option.join_some, Option.some.injEq] at h
        exact Or.inr ⟨rfl, h.symm⟩
      | some old =>
        simp only [hold, Option.map_some, Option.join_some, Option.some.injEq] at h
        rcases Nat.le_total old depth with hle | hle
        · exact Or.inr ⟨rfl, by omega⟩
        · refine Or.inl ?_
          rw [bound?, hold, Option.join_some, ← h, Nat.max_eq_left hle]
  · exact Or.inl h

theorem size_relax : (bounds.relax rule).size = bounds.size := by
  unfold relax
  split
  · rename_i depth _
    exact List.foldlRecOn (motive := fun b : DepthBounds => b.size = bounds.size)
      rule.childCategories _ rfl fun b hb child _ => size_raise.trans hb
  · rfl

theorem admits_relax (h : bounds.admits other d = true) :
    (bounds.relax rule).admits other d = true := by
  unfold relax
  split
  · exact List.foldlRecOn (motive := fun b : DepthBounds => b.admits other d = true)
      rule.childCategories _ h fun b hb child _ => admits_raise hb
  · exact h

/-- A rule hands its depth on to its children, less one. -/
theorem admits_relax_child (h : bounds.admits rule.lhs.id (d + 1) = true)
    (hc : category ∈ rule.childCategories) (hlt : category < bounds.size) :
    (bounds.relax rule).admits category d = true := by
  obtain ⟨bound, hb, hle⟩ := admits_iff.1 h
  cases bound with
  | zero => cases hle
  | succ depth =>
    obtain ⟨before, after, hsplit⟩ := List.append_of_mem hc
    unfold relax
    rw [hb, hsplit]
    simp only [List.foldl_append, List.foldl_cons]
    have hsize : (before.foldl (·.raise · depth) bounds).size = bounds.size :=
      List.foldlRecOn (motive := fun b : DepthBounds => b.size = bounds.size) before _ rfl
        fun b hb child _ => size_raise.trans hb
    refine List.foldlRecOn (motive := fun b : DepthBounds => b.admits category d = true) after _
      (admits_of_le (admits_raise_self (hsize ▸ hlt)) (Nat.le_of_succ_le_succ hle))
      fun b hb child _ => admits_raise hb

/-! ### Rounds -/

theorem size_round : (rules.foldl relax bounds).size = bounds.size :=
  List.foldlRecOn (motive := fun b : DepthBounds => b.size = bounds.size) rules _ rfl
    fun _ hb _ _ => size_relax.trans hb

theorem admits_round (h : bounds.admits other d = true) :
    (rules.foldl relax bounds).admits other d = true :=
  List.foldlRecOn (motive := fun b : DepthBounds => b.admits other d = true) rules _ h
    fun _ hb _ _ => admits_relax hb

/-- A round relaxes along each rule. -/
theorem admits_round_child (hrule : rule ∈ rules) (h : bounds.admits rule.lhs.id (d + 1) = true)
    (hc : category ∈ rule.childCategories) (hlt : category < bounds.size) :
    (rules.foldl relax bounds).admits category d = true := by
  obtain ⟨before, after, rfl⟩ := List.append_of_mem hrule
  rw [List.foldl_append, List.foldl_cons]
  apply admits_round
  apply admits_relax_child (admits_round h) hc
  rwa [size_round]

theorem relaxAll_eq_iterate (n : Nat) :
    relaxAll rules n bounds = (rules.foldl relax)^[n] bounds := by
  induction n generalizing bounds with
  | zero => rfl
  | succ n ih => rw [relaxAll_succ, ih, Function.iterate_succ_apply]

theorem size_iterate (n : Nat) : ((rules.foldl relax)^[n] bounds).size = bounds.size := by
  induction n with
  | zero => rfl
  | succ n ih => rw [Function.iterate_succ_apply', size_round, ih]

end DepthBounds

/-! ## Chains -/

namespace Grammar

/-- The rules along which depth bounds are handed on. -/
def chainRules (grammar : Grammar) : List Rule :=
  grammar.rulesOf .floatingUnary ++ grammar.rulesOf .floatingBinary

/-- There is a chain of so many rules from the root to the category. -/
inductive Reaches (grammar : Grammar) : Nat → CategoryId → Prop
  | root : Reaches grammar 0 grammar.root
  | step {n : Nat} {rule : Rule} {child : CategoryId} (hrule : rule ∈ grammar.chainRules)
    (hchild : child ∈ rule.childCategories) (h : Reaches grammar n rule.lhs.id) :
    Reaches grammar (n + 1) child

/-- The shortest chain from the root to the category has so many rules. -/
structure Nearest (grammar : Grammar) (n : Nat) (category : CategoryId) : Prop where
  reaches : grammar.Reaches n category
  le : ∀ m, grammar.Reaches m category → n ≤ m

variable {grammar : Grammar} {n : Nat} {category : CategoryId}

theorem Nearest.unique {m : Nat} (h : grammar.Nearest n category)
    (h' : grammar.Nearest m category) : n = m :=
  Nat.le_antisymm (h.le m h'.reaches) (h'.le n h.reaches)

theorem Reaches.exists_nearest (h : grammar.Reaches n category) :
    ∃ m ≤ n, grammar.Nearest m category := by
  classical
  have hex : ∃ m, grammar.Reaches m category := ⟨n, h⟩
  exact ⟨Nat.find hex, Nat.find_min' hex h, Nat.find_spec hex, fun m hm => Nat.find_min' hex hm⟩

/-- On a shortest chain, the category before the last is one step nearer. -/
theorem Nearest.exists_pred (h : grammar.Nearest (n + 1) category) :
    ∃ parent, grammar.Nearest n parent := by
  cases h.reaches with
  | @step _ rule _ hrule hchild hparent =>
    refine ⟨rule.lhs.id, hparent, fun m hm => ?_⟩
    have hle := h.le (m + 1) (.step hrule hchild hm)
    omega

/-- A shortest chain passes a category at each distance. -/
theorem Nearest.exists_of_le (h : grammar.Nearest n category) {m : Nat} (hm : m ≤ n) :
    ∃ passed, grammar.Nearest m passed := by
  induction n generalizing category with
  | zero => exact ⟨category, (Nat.le_zero.1 hm) ▸ h⟩
  | succ n ih =>
    rcases Nat.lt_or_eq_of_le hm with hlt | rfl
    · obtain ⟨parent, hparent⟩ := h.exists_pred
      exact ih hparent (Nat.le_of_lt_succ hlt)
    · exact ⟨category, h⟩

theorem mem_rules_of_mem_chainRules {rule : Rule} (h : rule ∈ grammar.chainRules) :
    rule ∈ grammar.rules := by
  rcases List.mem_append.1 h with h | h
  · exact (mem_rulesOf.1 h).1
  · exact (mem_rulesOf.1 h).1

theorem Reaches.lt_length (ha : grammar.Accepted) (h : grammar.Reaches n category) :
    category < grammar.categories.length := by
  cases h with
  | root => exact ha.root_lt
  | step hrule hchild _ =>
    exact ha.lt_of_mem_childCategories (mem_rules_of_mem_chainRules hrule) hchild

/-- A shortest chain has fewer rules than there are categories. -/
theorem Nearest.lt_length (h : grammar.Nearest n category) (ha : grammar.Accepted) :
    n < grammar.categories.length := by
  have hpassed : ∀ m ∈ Finset.range (n + 1), ∃ passed, grammar.Nearest m passed := fun m hm =>
    h.exists_of_le (Nat.le_of_lt_succ (Finset.mem_range.1 hm))
  choose! passed hnearest using hpassed
  have hcard : (Finset.range (n + 1)).card ≤ (Finset.range grammar.categories.length).card := by
    apply Finset.card_le_card_of_injOn passed
    · intro m hm
      exact Finset.mem_coe.2 (Finset.mem_range.2 ((hnearest m hm).reaches.lt_length ha))
    · intro m hm k hk he
      exact (hnearest m hm).unique (he ▸ hnearest k hk)
  rw [Finset.card_range, Finset.card_range] at hcard
  exact Nat.lt_of_succ_le hcard

/-! ## Depth bounds -/

/-- The bounds before any rule is looked at. -/
def rootBound (grammar : Grammar) (maxDepth : Nat) : DepthBounds :=
  DepthBounds.raise (Array.replicate grammar.categories.length none) grammar.root maxDepth

theorem depthBounds_eq_iterate (grammar : Grammar) (maxDepth : Nat) :
    grammar.depthBounds maxDepth =
      (grammar.chainRules.foldl DepthBounds.relax)^[grammar.categories.length]
        (grammar.rootBound maxDepth) :=
  DepthBounds.relaxAll_eq_iterate _

theorem size_rootBound (grammar : Grammar) (maxDepth : Nat) :
    (grammar.rootBound maxDepth).size = grammar.categories.length := by
  simp [rootBound]

variable {maxDepth : Nat}

/-- What a chain reaches is found in as many rounds as the chain has rules. -/
theorem admits_iterate (ha : grammar.Accepted) {rules : List Rule}
    (hrules : grammar.chainRules ⊆ rules) (h : grammar.Reaches n category) (hn : n ≤ maxDepth)
    {k : Nat} (hk : n ≤ k) :
    ((rules.foldl DepthBounds.relax)^[k] (grammar.rootBound maxDepth)).admits category
      (maxDepth - n) = true := by
  induction h generalizing k with
  | root =>
    induction k with
    | zero =>
      apply DepthBounds.admits_raise_self
      rw [Array.size_replicate]
      exact ha.root_lt
    | succ k ih =>
      rw [Function.iterate_succ_apply']
      exact DepthBounds.admits_round (ih (Nat.zero_le k))
  | @step n rule child hrule hchild _ ih =>
    cases k with
    | zero => cases hk
    | succ k =>
      have hlhs := ih (Nat.le_of_succ_le hn) (Nat.le_of_succ_le_succ hk)
      have hdepth : maxDepth - n = maxDepth - (n + 1) + 1 := by omega
      rw [hdepth] at hlhs
      rw [Function.iterate_succ_apply']
      apply DepthBounds.admits_round_child (hrules hrule) hlhs hchild
      rw [DepthBounds.size_iterate, size_rootBound]
      exact ha.lt_of_mem_childCategories (mem_rules_of_mem_chainRules hrule) hchild

/-- Every bound is what some chain leaves of the depth. -/
def Attained (grammar : Grammar) (maxDepth : Nat) (bounds : DepthBounds) : Prop :=
  ∀ category bound, bounds.bound? category = some bound →
    ∃ n, grammar.Reaches n category ∧ bound + n = maxDepth

theorem Attained.raise {bounds : DepthBounds} (h : grammar.Attained maxDepth bounds) {depth : Nat}
    (hc : grammar.Reaches n category) (hd : depth + n = maxDepth) :
    grammar.Attained maxDepth (bounds.raise category depth) := by
  intro other bound hb
  rcases DepthBounds.bound?_raise hb with hb | ⟨rfl, rfl⟩
  · exact h other bound hb
  · exact ⟨n, hc, hd⟩

theorem Attained.relax {bounds : DepthBounds} (h : grammar.Attained maxDepth bounds) {rule : Rule}
    (hrule : rule ∈ grammar.chainRules) : grammar.Attained maxDepth (bounds.relax rule) := by
  unfold DepthBounds.relax
  split
  · rename_i depth hb
    obtain ⟨n, hn, hdepth⟩ := h rule.lhs.id (depth + 1) hb
    refine List.foldlRecOn (motive := grammar.Attained maxDepth) rule.childCategories _ h
      fun b hb child hchild => hb.raise (.step hrule hchild hn) ?_
    omega
  · exact h

theorem attained_iterate {rules : List Rule} (hrules : rules ⊆ grammar.chainRules) (k : Nat) :
    grammar.Attained maxDepth
      ((rules.foldl DepthBounds.relax)^[k] (grammar.rootBound maxDepth)) := by
  induction k with
  | zero =>
    have hnone : grammar.Attained maxDepth (Array.replicate grammar.categories.length none) := by
      intro category bound hb
      rw [DepthBounds.bound?, Array.getElem?_replicate] at hb
      split at hb <;> cases hb
    exact hnone.raise .root (Nat.add_zero maxDepth)
  | succ k ih =>
    rw [Function.iterate_succ_apply']
    exact List.foldlRecOn (motive := grammar.Attained maxDepth) rules _ ih
      fun b hb rule hrule => hb.relax (hrules hrule)

theorem attained_depthBounds (grammar : Grammar) (maxDepth : Nat) :
    grammar.Attained maxDepth (grammar.depthBounds maxDepth) := by
  rw [depthBounds_eq_iterate]
  exact attained_iterate (List.Subset.refl _) _

/-- No category is useful deeper than the construction goes. -/
theorem le_of_bound?_depthBounds {bound : Nat}
    (h : (grammar.depthBounds maxDepth).bound? category = some bound) : bound ≤ maxDepth := by
  obtain ⟨n, -, hsum⟩ := attained_depthBounds grammar maxDepth category bound h
  omega

/-- As many rounds as there are categories find for each category what the shortest chain to it
leaves of the depth, in whatever order they go through the rules. -/
theorem bound?_iterate_eq_some_iff (ha : grammar.Accepted) {rules : List Rule}
    (hsub : rules ⊆ grammar.chainRules) (hall : grammar.chainRules ⊆ rules) {k : Nat}
    (hk : grammar.categories.length ≤ k) {bound : Nat} :
    ((rules.foldl DepthBounds.relax)^[k] (grammar.rootBound maxDepth)).bound? category =
        some bound ↔
      ∃ n, grammar.Nearest n category ∧ bound + n = maxDepth := by
  have hfound : ∀ n, grammar.Nearest n category → n ≤ maxDepth → ∃ b,
      ((rules.foldl DepthBounds.relax)^[k] (grammar.rootBound maxDepth)).bound? category =
        some b ∧ maxDepth - n ≤ b := by
    intro n hn hle
    rw [← DepthBounds.admits_iff]
    exact admits_iterate ha hall hn.reaches hle
      (Nat.le_trans (Nat.le_of_lt (hn.lt_length ha)) hk)
  constructor
  · intro hb
    obtain ⟨n, hn, hsum⟩ := attained_iterate hsub k category bound hb
    obtain ⟨m, hm, hnearest⟩ := hn.exists_nearest
    obtain ⟨b, hb', hle⟩ := hfound m hnearest (by omega)
    rw [hb, Option.some.injEq] at hb'
    exact ⟨m, hnearest, by omega⟩
  · rintro ⟨n, hnearest, hsum⟩
    obtain ⟨b, hb, hle⟩ := hfound n hnearest (by omega)
    obtain ⟨m, hm, hsum'⟩ := attained_iterate hsub k category b hb
    have hnm := hnearest.le m hm
    have heq : b = bound := by omega
    rwa [heq] at hb

/-- The bound of a category is what the shortest chain to it leaves of the depth. -/
theorem bound?_depthBounds_eq_some_iff (ha : grammar.Accepted) {bound : Nat} :
    (grammar.depthBounds maxDepth).bound? category = some bound ↔
      ∃ n, grammar.Nearest n category ∧ bound + n = maxDepth := by
  rw [depthBounds_eq_iterate]
  exact bound?_iterate_eq_some_iff ha (List.Subset.refl _) (List.Subset.refl _) (Nat.le_refl _)

theorem admits_root (ha : grammar.Accepted) {depth : Nat} (hd : depth ≤ maxDepth) :
    (grammar.depthBounds maxDepth).admits grammar.root depth = true := by
  have hroot : grammar.Nearest 0 grammar.root := ⟨.root, fun m _ => Nat.zero_le m⟩
  refine DepthBounds.admits_iff.2 ⟨maxDepth, ?_, hd⟩
  exact (bound?_depthBounds_eq_some_iff ha).2 ⟨0, hroot, Nat.add_zero maxDepth⟩

/-- If a floating rule is useful at some depth, its children are useful at the depth below. -/
theorem admits_child (ha : grammar.Accepted) {rule : Rule} (hrule : rule ∈ grammar.chainRules)
    {child : CategoryId} (hchild : child ∈ rule.childCategories) {depth : Nat}
    (h : (grammar.depthBounds maxDepth).admits rule.lhs.id (depth + 1) = true) :
    (grammar.depthBounds maxDepth).admits child depth = true := by
  obtain ⟨bound, hb, hle⟩ := DepthBounds.admits_iff.1 h
  obtain ⟨n, hn, hsum⟩ := (bound?_depthBounds_eq_some_iff ha).1 hb
  obtain ⟨m, hm, hnearest⟩ := (Reaches.step hrule hchild hn.reaches).exists_nearest
  refine DepthBounds.admits_iff.2 ⟨maxDepth - m, ?_, by omega⟩
  exact (bound?_depthBounds_eq_some_iff ha).2 ⟨m, hnearest, by omega⟩

end Grammar

end GuidedChart
