import GuidedChart.Proofs.Grammar.Chains

/-!
# Depth bounds are distances

A chain of floating rules leads from the root to a category if each rule is for a category that the
one before it reads (`Grammar.Chain`). The bound of a category is what the shortest of its chains
leaves of the depth, and a category without a chain that is short enough has no bound
(`Grammar.depthBounds_exact`). Going through the rules once more changes nothing then, so a search
that goes on as long as something changes comes to this end, in whatever order it takes the rules.

What the search finds out is a matter of names. The same rules in another order get other ids, and
so do their categories, but a category of one name has one bound (`Grammar.boundOf?_congr`).
-/

namespace GuidedChart

/-- Bounds are the same if they say the same of every category. -/
theorem DepthBounds.ext_bound? {bounds other : DepthBounds} (hsize : bounds.size = other.size)
    (h : ∀ category, bounds.bound? category = other.bound? category) : bounds = other := by
  refine Array.ext hsize fun category hlt hlt' => ?_
  have hcategory := h category
  rwa [bound?, bound?, Array.getElem?_eq_getElem hlt, Array.getElem?_eq_getElem hlt',
    Option.join_some, Option.join_some] at hcategory

namespace Grammar

/-! ## Rounds -/

section Rounds

variable {grammar : Grammar} {maxDepth : Nat}

theorem size_depthBounds (grammar : Grammar) (maxDepth : Nat) :
    (grammar.depthBounds maxDepth).size = grammar.categories.length := by
  rw [depthBounds_eq_iterate, DepthBounds.size_iterate, size_rootBound]

/-- More rounds than there are categories find nothing else, in whatever order they go through the
rules. -/
theorem iterate_eq_depthBounds (ha : grammar.Accepted) {rules : List Rule}
    (hrules : rules.Perm grammar.chainRules) {rounds : Nat}
    (hrounds : grammar.categories.length ≤ rounds) :
    (rules.foldl DepthBounds.relax)^[rounds] (grammar.rootBound maxDepth) =
      grammar.depthBounds maxDepth := by
  apply DepthBounds.ext_bound?
  · rw [DepthBounds.size_iterate, size_rootBound, size_depthBounds]
  · intro category
    refine Option.ext fun bound => ?_
    rw [bound?_iterate_eq_some_iff ha hrules.subset hrules.symm.subset hrounds,
      bound?_depthBounds_eq_some_iff ha]

/-- The bounds are at rest. -/
theorem foldl_relax_depthBounds (ha : grammar.Accepted) :
    grammar.chainRules.foldl DepthBounds.relax (grammar.depthBounds maxDepth) =
      grammar.depthBounds maxDepth := by
  have hrounds : (grammar.chainRules.foldl DepthBounds.relax)^[grammar.categories.length + 1]
      (grammar.rootBound maxDepth) = grammar.depthBounds maxDepth :=
    iterate_eq_depthBounds ha (List.Perm.refl _) (Nat.le_succ _)
  rwa [Function.iterate_succ_apply', ← depthBounds_eq_iterate] at hrounds

end Rounds

/-! ## Chains -/

/-- The rules form a chain of floating rules: the first one is for the first category, each next one
is for a child of the one before it, and the last category is a child of the last one. -/
inductive Chain (grammar : Grammar) : CategoryId → List Rule → CategoryId → Prop
  | nil (category : CategoryId) : Chain grammar category [] category
  | cons {first next last : CategoryId} {rule : Rule} {rules : List Rule}
    (hrule : rule ∈ grammar.rules) (hfloating : rule.floating = true) (hfirst : rule.lhs.id = first)
    (hnext : next ∈ rule.childCategories) (h : Chain grammar next rules last) :
    Chain grammar first (rule :: rules) last

/-- A chain from the root, and none to the same category has fewer rules. -/
structure ShortestChain (grammar : Grammar) (chain : List Rule) (category : CategoryId) :
    Prop where
  leads : grammar.Chain grammar.root chain category
  le : ∀ other, grammar.Chain grammar.root other category → chain.length ≤ other.length

section Chains

variable {grammar : Grammar} {first last category : CategoryId} {rule : Rule} {rules : List Rule}

/-- Bounds are handed on along the floating rules that read something. -/
theorem mem_chainRules_iff (ha : grammar.Accepted) (hchild : category ∈ rule.childCategories) :
    rule ∈ grammar.chainRules ↔ rule ∈ grammar.rules ∧ rule.floating = true := by
  rw [chainRules, List.mem_append, mem_rulesOf, mem_rulesOf, ← and_or_left]
  refine and_congr_right fun hrule => ?_
  obtain ⟨phase, hphase⟩ := ha.exists_phase hrule
  have hshape := Rule.shape_of_phase? hphase
  cases phase with
  | lexical | promotion | binary => simp [hphase, hshape.1]
  | floatingUnary | floatingBinary => simp [hphase, hshape.1]
  | floatingNullary =>
    rw [Rule.childCategories, hshape.2] at hchild
    cases hchild

theorem Chain.concat (h : grammar.Chain first rules last) (hrule : rule ∈ grammar.rules)
    (hfloating : rule.floating = true) (hlast : rule.lhs.id = last)
    (hchild : category ∈ rule.childCategories) :
    grammar.Chain first (rules ++ [rule]) category := by
  induction h with
  | nil => exact .cons hrule hfloating hlast hchild (.nil category)
  | cons hrule' hfloating' hfirst hnext _ ih =>
    exact .cons hrule' hfloating' hfirst hnext (ih hlast)

theorem Reaches.append (ha : grammar.Accepted) {n : Nat} (h : grammar.Reaches n first)
    (hchain : grammar.Chain first rules last) : grammar.Reaches (n + rules.length) last := by
  induction hchain generalizing n with
  | nil => exact h
  | @cons first next last rule rules hrule hfloating hfirst hnext _ ih =>
    have hstep : grammar.Reaches (n + 1) next :=
      .step ((mem_chainRules_iff ha hnext).2 ⟨hrule, hfloating⟩) hnext (hfirst ▸ h)
    rw [List.length_cons, Nat.add_comm rules.length, ← Nat.add_assoc]
    exact ih hstep

/-- What is reached in so many steps is what a chain of so many rules leads to. -/
theorem reaches_iff_exists_chain (ha : grammar.Accepted) {n : Nat} :
    grammar.Reaches n category ↔
      ∃ chain, grammar.Chain grammar.root chain category ∧ chain.length = n := by
  constructor
  · intro h
    induction h with
    | root => exact ⟨[], .nil _, rfl⟩
    | @step n rule child hrule hchild _ ih =>
      obtain ⟨chain, hchain, rfl⟩ := ih
      obtain ⟨hmem, hfloating⟩ := (mem_chainRules_iff ha hchild).1 hrule
      exact ⟨chain ++ [rule], hchain.concat hmem hfloating rfl hchild, List.length_append⟩
  · rintro ⟨chain, hchain, rfl⟩
    have hreaches := Reaches.root.append ha hchain
    rwa [Nat.zero_add] at hreaches

theorem nearest_iff_exists_shortestChain (ha : grammar.Accepted) {n : Nat} :
    grammar.Nearest n category ↔
      ∃ chain, grammar.ShortestChain chain category ∧ chain.length = n := by
  constructor
  · intro h
    obtain ⟨chain, hchain, rfl⟩ := (reaches_iff_exists_chain ha).1 h.reaches
    exact ⟨chain, ⟨hchain, fun other hother =>
      h.le _ ((reaches_iff_exists_chain ha).2 ⟨other, hother, rfl⟩)⟩, rfl⟩
  · rintro ⟨chain, hshortest, rfl⟩
    refine ⟨(reaches_iff_exists_chain ha).2 ⟨chain, hshortest.leads, rfl⟩, fun m hm => ?_⟩
    obtain ⟨other, hother, rfl⟩ := (reaches_iff_exists_chain ha).1 hm
    exact hshortest.le other hother

variable {maxDepth : Nat}

theorem bound?_depthBounds_eq_none_iff (ha : grammar.Accepted) :
    (grammar.depthBounds maxDepth).bound? category = none ↔
      ∀ chain, grammar.Chain grammar.root chain category → maxDepth < chain.length := by
  rw [Option.eq_none_iff_forall_ne_some]
  constructor
  · intro hnone chain hchain
    by_contra hle
    obtain ⟨n, hn, hnearest⟩ :=
      ((reaches_iff_exists_chain ha).2 ⟨chain, hchain, rfl⟩).exists_nearest
    refine hnone (maxDepth - n) ((bound?_depthBounds_eq_some_iff ha).2 ⟨n, hnearest, ?_⟩)
    omega
  · intro hfar bound hbound
    obtain ⟨n, hnearest, hsum⟩ := (bound?_depthBounds_eq_some_iff ha).1 hbound
    obtain ⟨chain, hchain, rfl⟩ := (reaches_iff_exists_chain ha).1 hnearest.reaches
    have hlt := hfar chain hchain
    omega

end Chains

end Grammar

/-! ## Names -/

/-- Is the symbol a category, and what is written for it? -/
def Symbol.spelled (symbol : Symbol) : Bool × String :=
  (symbol.category?.isSome, symbol.text)

/-- A rule without the numbers that it and its categories have in their grammar. -/
def Rule.spelled (rule : Rule) : String × List (Bool × String) × Bool × Semantics :=
  (rule.lhs.name, rule.rhs.map Symbol.spelled, rule.floating, rule.semantics)

namespace GrammarBuilder

theorem nodup_categories_intern {builder : GrammarBuilder} (h : builder.categories.Nodup)
    (name : String) : (builder.intern name).1.categories.Nodup := by
  unfold intern
  split
  · exact h
  · rename_i hnone
    refine List.nodup_append.2 ⟨h, List.nodup_singleton _, fun a ha b hb => ?_⟩
    rw [List.mem_singleton.1 hb]
    exact fun he => List.idxOf?_eq_none_iff.1 hnone (he ▸ ha)

theorem nodup_categories_symbols {builder : GrammarBuilder} (h : builder.categories.Nodup)
    (names : List String) : (builder.symbols names).1.categories.Nodup := by
  induction names generalizing builder with
  | nil => exact h
  | cons name names ih =>
    have hfirst : (builder.symbol name).1.categories.Nodup := by
      unfold symbol
      split
      · exact nodup_categories_intern h name
      · exact h
    exact ih hfirst

/-- No category gets two ids. -/
theorem Made.nodup_categories {builder : GrammarBuilder} (h : builder.Made) :
    builder.categories.Nodup := by
  induction h with
  | empty => exact List.nodup_nil
  | intern name _ ih => exact nodup_categories_intern ih name
  | addRule _ hadd ih =>
    unfold GrammarBuilder.addRule at hadd
    split at hadd
    · cases hadd
    · obtain ⟨rfl, -⟩ := Prod.mk.inj (Except.ok.inj hadd)
      exact nodup_categories_symbols (nodup_categories_intern ih _) _

end GrammarBuilder

namespace Grammar

/-- The deepest useful level of the category of this name. -/
def boundOf? (grammar : Grammar) (maxDepth : Nat) (name : String) : Option Nat :=
  (grammar.category? name).bind (grammar.depthBounds maxDepth).bound?

/-- Some chain of so many rules leads to the category of this name. -/
def ReachesName (grammar : Grammar) (n : Nat) (name : String) : Prop :=
  ∃ category, grammar.categories[category]? = some name ∧ grammar.Reaches n category

variable {grammar other : Grammar} {maxDepth n : Nat} {name : String} {category : CategoryId}

theorem Accepted.eq_of_getElem? (ha : grammar.Accepted) {c d : CategoryId}
    (hc : grammar.categories[c]? = some name) (hd : grammar.categories[d]? = some name) :
    c = d := by
  obtain ⟨builder, hmade, hcategories, -⟩ := ha.exists_made
  have hnodup : grammar.categories.Nodup := hcategories ▸ hmade.nodup_categories
  exact (List.getElem?_inj (List.getElem?_eq_some_iff.1 hc).1 hnodup).1 (hc.trans hd.symm)

theorem Accepted.getElem?_root (ha : grammar.Accepted) :
    grammar.categories[grammar.root]? = some rootName := by
  rw [List.getElem?_eq_getElem ha.root_lt]
  exact congrArg some (List.getElem_idxOf ha.root_lt)

theorem Accepted.category?_eq_some_iff (ha : grammar.Accepted) :
    grammar.category? name = some category ↔ grammar.categories[category]? = some name := by
  rw [category?, List.idxOf?_eq_some_iff]
  constructor
  · rintro ⟨hlt, hname, -⟩
    exact List.getElem?_eq_some_iff.2 ⟨hlt, hname⟩
  · intro h
    obtain ⟨hlt, hname⟩ := List.getElem?_eq_some_iff.1 h
    refine ⟨hlt, hname, fun j hj he => ?_⟩
    have hsame : j = category := ha.eq_of_getElem?
      (List.getElem?_eq_some_iff.2 ⟨Nat.lt_trans hj hlt, he⟩) h
    exact Nat.ne_of_lt hj hsame

/-- The name of a child stands on the right-hand side. -/
theorem exists_mem_rhs_of_mem_childCategories {rule : Rule}
    (h : category ∈ rule.childCategories) :
    ∃ named : Category, .nonterminal named ∈ rule.rhs ∧ named.id = category := by
  obtain ⟨symbol, hs, hsymbol⟩ := List.mem_filterMap.1 h
  cases symbol with
  | terminal token => cases hsymbol
  | nonterminal named => exact ⟨named, hs, Option.some.inj hsymbol⟩

/-- A symbol spelled like a category is a category of that name. -/
theorem exists_of_spelled_mem {rule : Rule} {named : Category}
    (h : (Symbol.nonterminal named).spelled ∈ rule.rhs.map Symbol.spelled) :
    ∃ same : Category, .nonterminal same ∈ rule.rhs ∧ same.name = named.name := by
  obtain ⟨symbol, hs, he⟩ := List.mem_map.1 h
  cases symbol with
  | terminal token => cases (Prod.mk.inj he).1
  | nonterminal same => exact ⟨same, hs, (Prod.mk.inj he).2⟩

/-- A chain leads by the same names through another grammar that has the rules too. -/
theorem ReachesName.of_spelled (ha : grammar.Accepted) (hb : other.Accepted)
    (hrules : ∀ rule ∈ grammar.rules, ∃ same ∈ other.rules, same.spelled = rule.spelled)
    (h : grammar.ReachesName n name) : other.ReachesName n name := by
  obtain ⟨category, hname, h⟩ := h
  induction h generalizing name with
  | root =>
    obtain rfl : rootName = name := Option.some.inj (ha.getElem?_root.symm.trans hname)
    exact ⟨other.root, hb.getElem?_root, .root⟩
  | @step n rule child hrule hchild _ ih =>
    obtain ⟨hmem, hfloating⟩ := (mem_chainRules_iff ha hchild).1 hrule
    obtain ⟨parent, hparent, hreaches⟩ := ih (ha.getElem?_lhs hmem)
    obtain ⟨same, hsame, hspelled⟩ := hrules rule hmem
    obtain ⟨hlhs, hrhs, hfloating', -⟩ : same.lhs.name = rule.lhs.name ∧
        same.rhs.map Symbol.spelled = rule.rhs.map Symbol.spelled ∧
        same.floating = rule.floating ∧ same.semantics = rule.semantics := by
      simpa only [Rule.spelled, Prod.mk.injEq] using hspelled
    obtain ⟨named, hnamed, rfl⟩ := exists_mem_rhs_of_mem_childCategories hchild
    obtain ⟨found, hfound, hfoundName⟩ :=
      exists_of_spelled_mem (hrhs ▸ List.mem_map_of_mem hnamed)
    have hchild' : found.id ∈ same.childCategories := List.mem_filterMap.2 ⟨_, hfound, rfl⟩
    refine ⟨found.id, ?_, .step ((mem_chainRules_iff hb hchild').2 ⟨hsame, hfloating' ▸ hfloating⟩)
      hchild' ?_⟩
    · rw [hb.getElem?_of_mem_rhs hsame hfound, hfoundName, ← ha.getElem?_of_mem_rhs hmem hnamed,
        hname]
    · rwa [hb.eq_of_getElem? (hb.getElem?_lhs hsame) (hlhs ▸ hparent)]

theorem boundOf?_eq_some_iff (ha : grammar.Accepted) {bound : Nat} :
    grammar.boundOf? maxDepth name = some bound ↔
      ∃ n, grammar.ReachesName n name ∧ (∀ m, grammar.ReachesName m name → n ≤ m) ∧
        bound + n = maxDepth := by
  simp only [boundOf?, Option.bind_eq_some_iff, ha.category?_eq_some_iff,
    bound?_depthBounds_eq_some_iff ha]
  constructor
  · rintro ⟨category, hname, n, hnearest, hsum⟩
    refine ⟨n, ⟨category, hname, hnearest.reaches⟩, fun m hm => ?_, hsum⟩
    obtain ⟨same, hsame, hreaches⟩ := hm
    exact hnearest.le m (ha.eq_of_getElem? hname hsame ▸ hreaches)
  · rintro ⟨n, ⟨category, hname, hreaches⟩, hleast, hsum⟩
    exact ⟨category, hname, n, ⟨hreaches, fun m hm => hleast m ⟨category, hname, hm⟩⟩, hsum⟩

/-- The bounds depend on the rules and not on their order. -/
theorem boundOf?_congr (ha : grammar.Accepted) (hb : other.Accepted)
    (hrules : (other.rules.map Rule.spelled).Perm (grammar.rules.map Rule.spelled))
    (maxDepth : Nat) (name : String) :
    other.boundOf? maxDepth name = grammar.boundOf? maxDepth name := by
  have hsame : ∀ n, other.ReachesName n name ↔ grammar.ReachesName n name := by
    refine fun n => ⟨ReachesName.of_spelled hb ha fun rule hr => ?_,
      ReachesName.of_spelled ha hb fun rule hr => ?_⟩
    · exact List.mem_map.1 (hrules.subset (List.mem_map_of_mem hr))
    · exact List.mem_map.1 (hrules.symm.subset (List.mem_map_of_mem hr))
  refine Option.ext fun bound => ?_
  rw [boundOf?_eq_some_iff hb, boundOf?_eq_some_iff ha]
  simp only [hsame]

/-! ## Main statement -/

/-- The bounds of an accepted grammar are at rest after as many rounds as there are categories, in
whatever order the rounds go through the rules. The bound of a category is then what its shortest
chain of floating rules leaves of the depth, and there is none if every chain is too long. The same
rules in another order give every category the same bound. -/
theorem depthBounds_exact (ha : grammar.Accepted) (maxDepth : Nat) :
    grammar.chainRules.foldl DepthBounds.relax (grammar.depthBounds maxDepth) =
        grammar.depthBounds maxDepth ∧
      (∀ rules, rules.Perm grammar.chainRules → ∀ rounds, grammar.categories.length ≤ rounds →
        DepthBounds.relaxAll rules rounds (grammar.rootBound maxDepth) =
          grammar.depthBounds maxDepth) ∧
      (∀ category bound, (grammar.depthBounds maxDepth).bound? category = some bound ↔
        ∃ chain, grammar.ShortestChain chain category ∧ bound + chain.length = maxDepth) ∧
      (∀ category, (grammar.depthBounds maxDepth).bound? category = none ↔
        ∀ chain, grammar.Chain grammar.root chain category → maxDepth < chain.length) ∧
      ∀ other : Grammar, other.Accepted →
        (other.rules.map Rule.spelled).Perm (grammar.rules.map Rule.spelled) →
        ∀ name, other.boundOf? maxDepth name = grammar.boundOf? maxDepth name := by
  refine ⟨foldl_relax_depthBounds ha, fun rules hrules rounds hrounds => ?_,
    fun category bound => ?_, fun category => bound?_depthBounds_eq_none_iff ha,
    fun other hb hrules name => boundOf?_congr ha hb hrules maxDepth name⟩
  · rw [DepthBounds.relaxAll_eq_iterate, iterate_eq_depthBounds ha hrules hrounds]
  · rw [bound?_depthBounds_eq_some_iff ha]
    constructor
    · rintro ⟨n, hnearest, hsum⟩
      obtain ⟨chain, hshortest, rfl⟩ := (nearest_iff_exists_shortestChain ha).1 hnearest
      exact ⟨chain, hshortest, hsum⟩
    · rintro ⟨chain, hshortest, hsum⟩
      exact ⟨chain.length, (nearest_iff_exists_shortestChain ha).2 ⟨chain, hshortest, rfl⟩, hsum⟩

/-! ### An example -/

/-- Sets are joined with relations, from the root down. -/
def joins : Grammar where
  categories := ["$ROOT", "$Set", "$Rel"]
  rules :=
    [⟨0, ⟨"$ROOT", 0⟩, [.nonterminal ⟨"$Set", 1⟩], true, .identity⟩,
      ⟨1, ⟨"$Set", 1⟩, [.nonterminal ⟨"$Set", 1⟩, .nonterminal ⟨"$Rel", 2⟩], true, .call "join"⟩,
      ⟨2, ⟨"$Rel", 2⟩, [], true, .constant (.value (.entity "spouse"))⟩]
  promotions := []

/-- The rules of `joins` from the relations up. -/
def joinsUpward : Grammar where
  categories := ["$Rel", "$Set", "$ROOT"]
  rules :=
    [⟨0, ⟨"$Rel", 0⟩, [], true, .constant (.value (.entity "spouse"))⟩,
      ⟨1, ⟨"$Set", 1⟩, [.nonterminal ⟨"$Set", 1⟩, .nonterminal ⟨"$Rel", 0⟩], true, .call "join"⟩,
      ⟨2, ⟨"$ROOT", 2⟩, [.nonterminal ⟨"$Set", 1⟩], true, .identity⟩]
  promotions := []

theorem accepted_joins : joins.Accepted := by
  have hroot : GrammarBuilder.empty.addRule "$ROOT" ["$Set"] true .identity =
      .ok (⟨["$ROOT", "$Set"], joins.rules.take 1⟩, 0) := rfl
  have hset : GrammarBuilder.addRule ⟨["$ROOT", "$Set"], joins.rules.take 1⟩ "$Set"
      ["$Set", "$Rel"] true (.call "join") = .ok (⟨joins.categories, joins.rules.take 2⟩, 1) := rfl
  have hrel : GrammarBuilder.addRule ⟨joins.categories, joins.rules.take 2⟩ "$Rel" [] true
      (.constant (.value (.entity "spouse"))) = .ok (⟨joins.categories, joins.rules⟩, 2) := rfl
  exact ⟨_, .addRule (.addRule (.addRule .empty hroot) hset) hrel, rfl⟩

theorem accepted_joinsUpward : joinsUpward.Accepted := by
  have hrel : GrammarBuilder.empty.addRule "$Rel" [] true (.constant (.value (.entity "spouse"))) =
      .ok (⟨["$Rel"], joinsUpward.rules.take 1⟩, 0) := rfl
  have hset : GrammarBuilder.addRule ⟨["$Rel"], joinsUpward.rules.take 1⟩ "$Set" ["$Set", "$Rel"]
      true (.call "join") = .ok (⟨["$Rel", "$Set"], joinsUpward.rules.take 2⟩, 1) := rfl
  have hroot : GrammarBuilder.addRule ⟨["$Rel", "$Set"], joinsUpward.rules.take 2⟩ "$ROOT" ["$Set"]
      true .identity = .ok (⟨joinsUpward.categories, joinsUpward.rules⟩, 2) := rfl
  exact ⟨_, .addRule (.addRule (.addRule .empty hrel) hset) hroot, rfl⟩

/-- Relations are two rules away from the root, whatever the order of the rules. -/
theorem depthBounds_exact_joins :
    joins.Accepted ∧ joinsUpward.Accepted ∧
      (joinsUpward.rules.map Rule.spelled).Perm (joins.rules.map Rule.spelled) ∧
      joins.ShortestChain (joins.rules.take 2) 2 ∧
      joinsUpward.boundOf? 4 "$Rel" = some 2 := by
  have hperm : (joinsUpward.rules.map Rule.spelled).Perm (joins.rules.map Rule.spelled) := by
    decide
  obtain ⟨-, -, hbound, -, hcongr⟩ := depthBounds_exact accepted_joins 4
  have hrel : (joins.depthBounds 4).bound? 2 = some 2 := by decide
  obtain ⟨chain, hshortest, hlength⟩ := (hbound 2 2).1 hrel
  have htake : joins.Chain joins.root (joins.rules.take 2) 2 :=
    .cons (by decide) rfl rfl (by decide) (.cons (by decide) rfl rfl (by decide) (.nil 2))
  refine ⟨accepted_joins, accepted_joinsUpward, hperm, ⟨htake, fun other hother => ?_⟩, ?_⟩
  · have hle := hshortest.le other hother
    have htwo : (joins.rules.take 2).length = 2 := rfl
    omega
  · rw [hcongr joinsUpward accepted_joinsUpward hperm "$Rel"]
    exact hrel

end Grammar

end GuidedChart
