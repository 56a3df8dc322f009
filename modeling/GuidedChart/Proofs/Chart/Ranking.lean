import GuidedChart.Proofs.Chart.History

/-!
# Beams on the way

The beam of the second pass may be applied to a cell as often as one likes while derivations are
still found there. A list of derivations is sorted only when it overflows, so what comes later is
put behind a list that may be sorted or not. It makes no difference: in the end every record has
what one beam would have left of all derivations found for it (`Chart.retainsBest_after`).

Sorting is stable, so a derivation that comes last goes behind all that it does not outrank
(`Derivation.ranked_append_singleton`). Whether it is among the first `k` then does not depend on
those behind them, which is why cutting early changes nothing (`Derivation.cut_append_singleton`).
All of this needs scores that can be compared.
-/

namespace GuidedChart

namespace Derivation

/-- The derivation has a score that is a number. -/
def Scored (d : Derivation) : Prop :=
  Decimal.isNumber d.score = true

instance (d : Derivation) : Decidable d.Scored :=
  inferInstanceAs (Decidable (_ = true))

/-- The derivations from the greatest score to the least, by a stable sort. -/
def byScore (ds : List Derivation) : List Derivation :=
  ds.mergeSort fun d e => !e.outranks d

/-- What a beam leaves of the derivations: all of them in their order, or else the best ones. -/
def cut (k : Nat) (ds : List Derivation) : List Derivation :=
  if ds.length ≤ k then ds else (ranked ds).take k

variable {d e x : Derivation} {ds es : List Derivation} {k : Nat}

/-! ## Ranks -/

/-- Is the first derivation ranked as high as the second? -/
def precedes (d e : Derivation) : Bool :=
  decide (Decimal.rank e.score ≤ Decimal.rank d.score)

theorem precedes_trans (d e x : Derivation) (hde : d.precedes e = true)
    (hex : e.precedes x = true) : d.precedes x = true :=
  decide_eq_true (UInt64.le_trans (of_decide_eq_true hex) (of_decide_eq_true hde))

theorem precedes_total (d e : Derivation) : (d.precedes e || e.precedes d) = true := by
  simp only [precedes, Bool.or_eq_true, decide_eq_true_iff]
  exact UInt64.le_total _ _

theorem Scored.outranks_iff (hd : d.Scored) (he : e.Scored) :
    d.outranks e = true ↔ Decimal.rank e.score < Decimal.rank d.score := by
  unfold Scored at hd he
  rw [outranks, Decimal.exceeds, hd, he, Bool.true_and, Bool.true_and, decide_eq_true_iff]

/-- Where scores can be compared, what does not precede is outranked. -/
theorem Scored.outranks_eq (hd : d.Scored) (he : e.Scored) : d.outranks e = !e.precedes d := by
  rw [Bool.eq_iff_iff, hd.outranks_iff he, Bool.not_eq_true', precedes, decide_eq_false_iff_not,
    UInt64.not_le]

/-! ## Sorting -/

theorem byScore_eq_mergeSort (h : ∀ d ∈ ds, d.Scored) : byScore ds = ds.mergeSort precedes := by
  have hmap := List.map_mergeSort (r := fun d e => !e.outranks d) (s := precedes) (f := id)
    fun d hd e he => by rw [(h e he).outranks_eq (h d hd), Bool.not_not]; rfl
  rwa [List.map_id, List.map_id] at hmap

/-- A derivation is inserted behind those that outrank it. -/
theorem insertRanked_append (h : ∀ e ∈ ds, e.outranks d = true)
    (hes : ∀ e ∈ es.head?, e.outranks d = false) :
    insertRanked d (ds ++ es) = ds ++ d :: es := by
  induction ds with
  | nil =>
    cases es with
    | nil => rfl
    | cons e es => exact if_neg (Bool.eq_false_iff.1 (hes e rfl))
  | cons e ds ih =>
    rw [List.cons_append, insertRanked, if_pos (h e List.mem_cons_self),
      ih fun x hx => h x (List.mem_cons_of_mem e hx), List.cons_append]

theorem ranked_eq_mergeSort (h : ∀ d ∈ ds, d.Scored) : ranked ds = ds.mergeSort precedes := by
  induction ds with
  | nil => exact List.mergeSort_nil.symm
  | cons d ds ih =>
    have hd := h d List.mem_cons_self
    obtain ⟨before, after, hcons, hrest, hbefore⟩ :=
      List.mergeSort_cons precedes_trans precedes_total d ds
    have hsorted := List.pairwise_mergeSort precedes_trans precedes_total (d :: ds)
    have hmem : ∀ e ∈ before ++ d :: after, e.Scored := fun e he =>
      h e (List.mem_mergeSort.1 (hcons ▸ he))
    rw [hcons] at hsorted ⊢
    rw [ranked, ih fun e he => h e (List.mem_cons_of_mem d he), hrest]
    refine insertRanked_append (fun e he => ?_) fun e he => ?_
    · rw [(hmem e (List.mem_append_left _ he)).outranks_eq hd]
      exact hbefore e he
    · have hafter : e ∈ after := List.mem_of_mem_head? he
      rw [(hmem e (List.mem_append_right _ (List.mem_cons_of_mem d hafter))).outranks_eq hd,
        List.rel_of_pairwise_cons (List.pairwise_append.1 hsorted).2.1 hafter]
      rfl

theorem ranked_eq_byScore (h : ∀ d ∈ ds, d.Scored) : ranked ds = byScore ds :=
  (ranked_eq_mergeSort h).trans (byScore_eq_mergeSort h).symm

/-- The best derivations are sorted already. -/
theorem ranked_take_ranked (h : ∀ d ∈ ds, d.Scored) :
    ranked ((ranked ds).take k) = (ranked ds).take k := by
  have hmem : ∀ d ∈ (ranked ds).take k, d.Scored := fun d hd =>
    h d ((ranked_perm ds).subset (List.mem_of_mem_take hd))
  have hsorted : (ranked ds).Pairwise (precedes · ·) := by
    rw [ranked_eq_mergeSort h]
    exact List.pairwise_mergeSort precedes_trans precedes_total ds
  rw [ranked_eq_mergeSort hmem]
  exact List.mergeSort_of_pairwise (hsorted.sublist (List.take_sublist k _))

/-! ## What comes last -/

/-- The derivation put into a sorted list, before the first one that it outranks. -/
def insertLast (d : Derivation) : List Derivation → List Derivation
  | [] => [d]
  | e :: es => if d.outranks e then d :: e :: es else e :: insertLast d es

theorem insertRanked_insertLast (hd : d.Scored) (hx : x.Scored) (h : ∀ e ∈ ds, e.Scored) :
    insertRanked x (insertLast d ds) = insertLast d (insertRanked x ds) := by
  induction ds with
  | nil => rfl
  | cons e es ih =>
    have he := h e List.mem_cons_self
    have ih := ih fun y hy => h y (List.mem_cons_of_mem e hy)
    cases hde : d.outranks e with
    | true =>
      cases hex : e.outranks x with
      | true =>
        -- then the first one outranks the last
        have hdx : d.outranks x = true := by
          rw [hd.outranks_iff hx]
          exact UInt64.lt_trans ((he.outranks_iff hx).1 hex) ((hd.outranks_iff he).1 hde)
        simp [insertRanked, insertLast, hde, hex, hdx]
      | false => simp [insertRanked, insertLast, hde, hex]
    | false =>
      cases hex : e.outranks x with
      | true => simp [insertRanked, insertLast, hde, hex, ih]
      | false =>
        have hdx : d.outranks x = false := by
          rw [hd.outranks_eq he, Bool.not_eq_false'] at hde
          rw [he.outranks_eq hx, Bool.not_eq_false'] at hex
          rw [hd.outranks_eq hx, precedes_trans x e d hex hde]
          rfl
        simp [insertRanked, insertLast, hde, hex, hdx]

theorem ranked_append_singleton (h : ∀ e ∈ ds, e.Scored) (hd : d.Scored) :
    ranked (ds ++ [d]) = insertLast d (ranked ds) := by
  induction ds with
  | nil => rfl
  | cons e es ih =>
    have hes : ∀ x ∈ es, x.Scored := fun x hx => h x (List.mem_cons_of_mem e hx)
    rw [List.cons_append, ranked, ih hes, ranked]
    exact insertRanked_insertLast hd (h e List.mem_cons_self) fun x hx =>
      hes x ((ranked_perm es).subset hx)

/-- What comes first does not depend on what was cut off behind. -/
theorem take_insertLast_take (k : Nat) (d : Derivation) (ds : List Derivation) :
    (insertLast d (ds.take k)).take k = (insertLast d ds).take k := by
  induction ds generalizing k with
  | nil => rw [List.take_nil]
  | cons e es ih =>
    cases k with
    | zero => rfl
    | succ k =>
      rw [List.take_succ_cons, insertLast, insertLast]
      split
      · have hcut : (e :: es.take k).take k = (e :: es).take k := by
          rw [← List.take_succ_cons, List.take_take, Nat.min_eq_left (Nat.le_succ k)]
        rw [List.take_succ_cons, List.take_succ_cons, hcut]
      · rw [List.take_succ_cons, List.take_succ_cons, ih]

theorem cut_of_length_le (h : ds.length ≤ k) : cut k ds = ds :=
  if_pos h

theorem cut_of_lt_length (h : k < ds.length) : cut k ds = (ranked ds).take k :=
  if_neg (Nat.not_le.2 h)

theorem cut_cut (k : Nat) (ds : List Derivation) : cut k (cut k ds) = cut k ds := by
  refine cut_of_length_le ?_
  unfold cut
  split
  · assumption
  · exact List.length_take_le k _

theorem cut_subset (k : Nat) (ds : List Derivation) : cut k ds ⊆ ds := by
  unfold cut
  split
  · exact List.Subset.refl ds
  · exact fun d hd => (ranked_perm ds).subset (List.mem_of_mem_take hd)

/-- A beam may be applied before the last derivation comes as well as after it. -/
theorem cut_append_singleton (h : ∀ e ∈ ds, e.Scored) (hd : d.Scored) :
    cut k (cut k ds ++ [d]) = cut k (ds ++ [d]) := by
  rcases le_or_gt ds.length k with hk | hk
  · rw [cut_of_length_le hk]
  · have hmem : ∀ e ∈ (ranked ds).take k, e.Scored := fun e he =>
      h e ((ranked_perm ds).subset (List.mem_of_mem_take he))
    have hlen : ((ranked ds).take k ++ [d]).length = k + 1 := by
      rw [List.length_append, List.length_take, (ranked_perm ds).length_eq,
        Nat.min_eq_left (Nat.le_of_lt hk), List.length_singleton]
    have hlen' : k < (ds ++ [d]).length := by
      rw [List.length_append]
      exact Nat.lt_add_right _ hk
    calc cut k (cut k ds ++ [d])
        = cut k ((ranked ds).take k ++ [d]) := by rw [cut_of_lt_length hk]
      _ = (ranked ((ranked ds).take k ++ [d])).take k :=
          cut_of_lt_length (hlen ▸ Nat.lt_succ_self k)
      _ = (insertLast d ((ranked ds).take k)).take k := by
          rw [ranked_append_singleton hmem hd, ranked_take_ranked h]
      _ = (insertLast d (ranked ds)).take k := take_insertLast_take k d _
      _ = (ranked (ds ++ [d])).take k := by rw [ranked_append_singleton h hd]
      _ = cut k (ds ++ [d]) := (cut_of_lt_length hlen').symm

end Derivation

theorem Record.derivations_keepBest (k : Nat) (record : Record) :
    (record.keepBest k).derivations.toList = Derivation.cut k record.derivations.toList := by
  unfold keepBest Derivation.cut
  rw [Array.length_toList]
  split <;> rfl

namespace Finding

/-- The derivations of all findings for the key. -/
def derivationsFor (fs : List Finding) (key : BackPointer) : List Derivation :=
  (fs.filter (·.key = key)).map (·.derivation)

theorem derivationsFor_append_singleton (fs : List Finding) (f : Finding) (key : BackPointer) :
    derivationsFor (fs ++ [f]) key =
      derivationsFor fs key ++ if f.key = key then [f.derivation] else [] := by
  rw [derivationsFor, List.filter_append, List.map_append, derivationsFor]
  by_cases h : f.key = key
  · rw [if_pos h, List.filter_cons_of_pos (by simpa using h)]
    rfl
  · rw [if_neg h, List.filter_cons_of_neg (by simpa using h)]
    rfl

theorem mem_derivationsFor {fs : List Finding} {key : BackPointer} {d : Derivation}
    (h : d ∈ derivationsFor fs key) : ∃ f ∈ fs, f.derivation = d := by
  obtain ⟨f, hf, rfl⟩ := List.mem_map.1 h
  exact ⟨f, List.mem_of_mem_filter hf, rfl⟩

end Finding

namespace Chart

open GuidedChart.Derivation (cut)

variable {chart : Chart} {cell : Cell} {k : Nat} {fs : List Finding} {actions : List Action}

theorem derivationsOf_keepBest (chart : Chart) (cell : Cell) (k : Nat) (key : BackPointer) :
    (chart.keepBest cell k).derivationsOf key =
      if cell = key.cell then cut k (chart.derivationsOf key) else chart.derivationsOf key := by
  rw [derivationsOf, lookup?_keepBest, derivationsOf]
  by_cases h : cell = key.cell
  · rw [if_pos h, if_pos h]
    cases chart.lookup? key with
    | none => exact (if_pos (Nat.zero_le k)).symm
    | some record => exact record.derivations_keepBest k
  · rw [if_neg h, if_neg h]

/-! ## Beams along the way -/

/-- The action keeps a derivation of the cell that has a score, or applies the beam to the cell. -/
def Action.Within (cell : Cell) (k : Nat) : Action → Prop
  | .add retention f => retention = .all ∧ f.key.cell = cell ∧ f.derivation.Scored
  | .truncate _ _ => False
  | .keepBest other size => other = cell ∧ size = k

instance (cell : Cell) (k : Nat) (action : Action) : Decidable (action.Within cell k) :=
  match action with
  | .add retention f =>
    inferInstanceAs (Decidable (retention = .all ∧ f.key.cell = cell ∧ f.derivation.Scored))
  | .truncate _ _ => inferInstanceAs (Decidable False)
  | .keepBest other size => inferInstanceAs (Decidable (other = cell ∧ size = k))

/-- The number of derivations that the beam of the second pass says it drops. -/
def drops (chart : Chart) : Action → Nat
  | .keepBest cell k => chart.numDropped cell k
  | .add .. | .truncate .. => 0

/-- What is dropped by several actions, one after the other. -/
def dropsAlong (chart : Chart) : List Action → Nat
  | [] => 0
  | action :: actions => chart.drops action + (chart.act action).dropsAlong actions

theorem recordsOf_act_of_ne {action : Action} (ha : action.Within cell k) {other : Cell}
    (h : other ≠ cell) : (chart.act action).recordsOf other = chart.recordsOf other := by
  cases action with
  | add retention f => exact recordsOf_add_of_ne _ _ _ fun he => h (he.symm.trans ha.2.1)
  | truncate cell k => exact ha.elim
  | keepBest beamed size =>
    exact (recordsOf_keepBest _ _ _ _).trans (if_neg fun he => h (he.symm.trans ha.1))

theorem recordsOf_after_of_ne (ha : ∀ action ∈ actions, action.Within cell k) {other : Cell}
    (h : other ≠ cell) : (chart.after actions).recordsOf other = chart.recordsOf other := by
  induction actions generalizing chart with
  | nil => rfl
  | cons action actions ih =>
    rw [List.forall_mem_cons] at ha
    exact (ih ha.2).trans (recordsOf_act_of_ne ha.1 h)

theorem VisibleIn.act (h : chart.VisibleIn cell) {action : Action} (ha : action.Within cell k) :
    (chart.act action).VisibleIn cell := by
  cases action with
  | add retention f => exact h.add
  | truncate cell k => exact ha.elim
  | keepBest other size => exact h.keepBest other size

/-- A derivation is one more in the cell, and a beam takes away as many as it says. -/
theorem length_derivations_act (h : chart.VisibleIn cell) {action : Action}
    (ha : action.Within cell k) :
    chart.drops action + ((chart.act action).derivations cell).length =
      (chart.derivations cell).length + (findings [action]).length := by
  cases action with
  | add retention f =>
    obtain ⟨rfl, hcell, -⟩ := ha
    have hperm := (derivations_add_perm h f).length_eq
    rw [if_pos hcell, List.length_append] at hperm
    exact (Nat.zero_add _).trans hperm
  | truncate cell k => exact ha.elim
  | keepBest other size =>
    obtain ⟨rfl, rfl⟩ := ha
    exact numDropped_add_keepBest chart other size

theorem length_derivations_after (h : chart.VisibleIn cell)
    (ha : ∀ action ∈ actions, action.Within cell k) :
    chart.dropsAlong actions + ((chart.after actions).derivations cell).length =
      (chart.derivations cell).length + (findings actions).length := by
  induction actions generalizing chart with
  | nil => exact Nat.zero_add _
  | cons action actions ih =>
    rw [List.forall_mem_cons] at ha
    have hact := length_derivations_act h ha.1
    have hrest := ih (h.act ha.1) ha.2
    have hfindings := congrArg List.length (findings_append [action] actions)
    rw [List.singleton_append, List.length_append] at hfindings
    rw [dropsAlong, hfindings]
    change chart.drops action + (chart.act action).dropsAlong actions +
      (((chart.act action).after actions).derivations cell).length = _
    omega

/-! ## What is left -/

/-- The records of the cell have what may still be among the best derivations found for them. -/
structure Defers (chart : Chart) (cell : Cell) (k : Nat) (fs : List Finding) : Prop where
  visible : chart.VisibleIn cell
  keys : (chart.recordsOf cell).map (·.key) = Finding.keys fs
  subset : ∀ key, key.cell = cell → chart.derivationsOf key ⊆ Finding.derivationsFor fs key
  cut_eq : ∀ key, key.cell = cell →
    cut k (chart.derivationsOf key) = cut k (Finding.derivationsFor fs key)

namespace Defers

theorem nil (h : chart.recordsOf cell = []) : chart.Defers cell k [] := by
  have hnone : ∀ key : BackPointer, key.cell = cell → chart.lookup? key = none := by
    rintro ⟨_, meaning⟩ rfl
    refine Option.eq_none_iff_forall_ne_some.2 fun record hr => ?_
    exact List.not_mem_nil (h ▸ mem_recordsOf.2 ⟨meaning, hr⟩)
  have hderivations : ∀ key : BackPointer, key.cell = cell → chart.derivationsOf key = [] :=
    fun key hcell => by rw [derivationsOf, hnone key hcell]; rfl
  refine ⟨fun key hcell record hr => ?_, by rw [h]; rfl, fun key hcell => ?_, fun key hcell => ?_⟩
  · rw [hnone key hcell] at hr
    cases hr
  · rw [hderivations key hcell]
    exact List.nil_subset _
  · rw [hderivations key hcell]
    rfl

theorem holds_iff (h : chart.Defers cell k fs) (hk : chart.Keyed) {key : BackPointer}
    (hcell : key.cell = cell) : chart.Holds key ↔ key ∈ Finding.keys fs := by
  rw [← h.keys, List.mem_map]
  constructor
  · rintro ⟨record, hr⟩
    subst hcell
    exact ⟨record, mem_recordsOf.2 ⟨key.meaning, hr⟩, hk key record hr⟩
  · rintro ⟨record, hm, rfl⟩
    obtain ⟨meaning, hr⟩ := mem_recordsOf.1 hm
    exact ⟨record, (hk _ record hr).symm ▸ hr⟩

theorem add (h : chart.Defers cell k fs) (hk : chart.Keyed) {f : Finding}
    (hcell : f.key.cell = cell) (hscored : ∀ g ∈ fs, g.derivation.Scored)
    (hf : f.derivation.Scored) : (chart.add .all f).Defers cell k (fs ++ [f]) := by
  have hderivations : ∀ key, (chart.add .all f).derivationsOf key =
      chart.derivationsOf key ++ if f.key = key then [f.derivation] else [] := by
    intro key
    by_cases hkey : f.key = key
    · subst hkey
      rw [(hcell ▸ h.visible : chart.VisibleIn f.key.cell).derivationsOf_add, if_pos rfl]
    · rw [derivationsOf_add_of_ne _ _ _ hkey, if_neg hkey, List.append_nil]
  refine ⟨h.visible.add, ?_, fun key hkey => ?_, fun key hkey => ?_⟩
  · rw [Finding.keys_append_singleton]
    by_cases hold : chart.Holds f.key
    · rw [map_key_recordsOf_add_of_holds hk hold, h.keys, if_pos ((h.holds_iff hk hcell).1 hold)]
    · rw [map_key_recordsOf_add_of_not_holds hold, h.keys,
        if_neg (mt (h.holds_iff hk hcell).2 hold), List.filter_cons_of_pos (by simpa using hcell)]
      rfl
  · rw [hderivations, Finding.derivationsFor_append_singleton]
    exact List.append_subset.2 ⟨List.Subset.trans (h.subset key hkey) (List.subset_append_left _ _),
      List.subset_append_right _ _⟩
  · rw [hderivations, Finding.derivationsFor_append_singleton]
    have hfound : ∀ d ∈ Finding.derivationsFor fs key, d.Scored := fun d hd => by
      obtain ⟨g, hg, rfl⟩ := Finding.mem_derivationsFor hd
      exact hscored g hg
    split
    · rw [← Derivation.cut_append_singleton (fun d hd => hfound d (h.subset key hkey hd)) hf,
        h.cut_eq key hkey, Derivation.cut_append_singleton hfound hf]
    · rw [List.append_nil, List.append_nil, h.cut_eq key hkey]

theorem keepBest (h : chart.Defers cell k fs) : (chart.keepBest cell k).Defers cell k fs where
  visible := h.visible.keepBest cell k
  keys := (map_key_recordsOf_keepBest chart cell cell k).trans h.keys
  subset key hkey := by
    rw [derivationsOf_keepBest, if_pos hkey.symm]
    exact List.Subset.trans (Derivation.cut_subset k _) (h.subset key hkey)
  cut_eq key hkey := by
    rw [derivationsOf_keepBest, if_pos hkey.symm, Derivation.cut_cut, h.cut_eq key hkey]

end Defers

theorem scored_of_within (ha : ∀ action ∈ actions, action.Within cell k) :
    ∀ f ∈ findings actions, f.derivation.Scored := by
  intro f hf
  obtain ⟨action, hm, hf⟩ := List.mem_filterMap.1 hf
  cases action with
  | add retention g =>
    cases hf
    exact (ha _ hm).2.2
  | truncate cell k => cases hf
  | keepBest cell k => cases hf

theorem Made.defers_after (hm : chart.Made) (h : chart.recordsOf cell = [])
    (ha : ∀ action ∈ actions, action.Within cell k) :
    (chart.after actions).Defers cell k (findings actions) := by
  induction actions using List.reverseRecOn with
  | nil => exact .nil h
  | append_singleton actions action ih =>
    have hactions := fun a hm => ha a (List.mem_append_left _ hm)
    have haction := ha action (List.mem_append_right _ (List.mem_singleton_self action))
    have ih := ih hactions
    rw [after_append]
    cases action with
    | add retention f =>
      obtain ⟨rfl, hcell, hf⟩ := haction
      rw [findings_append_add]
      exact ih.add (hm.after actions).keyed hcell (scored_of_within hactions) hf
    | truncate cell k => exact haction.elim
    | keepBest other size =>
      obtain ⟨rfl, rfl⟩ := haction
      rw [findings_append_keepBest]
      exact ih.keepBest

/-- The cell has an entry for every key that came up, with what a single beam would have left of
all derivations found for it. -/
structure RetainsBest (chart : Chart) (cell : Cell) (k : Nat) (fs : List Finding) : Prop where
  keys : (chart.entries cell).map (·.key) = Finding.keys fs
  all : ∀ record ∈ chart.entries cell, (Finding.derivationsFor fs record.key).length ≤ k →
    record.derivations.toList = Finding.derivationsFor fs record.key
  best : ∀ record ∈ chart.entries cell, k < (Finding.derivationsFor fs record.key).length →
    record.derivations.toList = (Derivation.byScore (Finding.derivationsFor fs record.key)).take k

theorem Defers.retainsBest (h : chart.Defers cell k fs) (hk : chart.Keyed)
    (hscored : ∀ f ∈ fs, f.derivation.Scored) :
    (chart.keepBest cell k).RetainsBest cell k fs := by
  have hkeyed : (chart.keepBest cell k).Keyed := (trims_keepBest chart cell k).keyed hk
  have hcut : ∀ record ∈ (chart.keepBest cell k).entries cell, record.derivations.toList =
      cut k (Finding.derivationsFor fs record.key) := by
    intro record hr
    obtain ⟨⟨meaning, hl⟩, -⟩ := mem_entries.1 hr
    rw [hkeyed _ record hl, ← derivationsOf_of_lookup? hl, derivationsOf_keepBest, if_pos rfl,
      h.cut_eq _ rfl]
  refine ⟨?_, fun record hr hle => ?_, fun record hr hlt => ?_⟩
  · rw [h.keepBest.visible.entries_eq, h.keepBest.keys]
  · rw [hcut record hr, Derivation.cut_of_length_le hle]
  · rw [hcut record hr, Derivation.cut_of_lt_length hlt, Derivation.ranked_eq_byScore]
    intro d hd
    obtain ⟨f, hf, rfl⟩ := Finding.mem_derivationsFor hd
    exact hscored f hf

/-- Beams on the way change nothing: a cell that findings and beams fill ends up with what the last
beam alone would have left of all findings. What the beams say they dropped is what is missing, and
the other cells stay as they were. -/
theorem retainsBest_after (hm : chart.Made) (h : chart.recordsOf cell = [])
    (ha : ∀ action ∈ actions, action.Within cell k) :
    (chart.after (actions ++ [.keepBest cell k])).RetainsBest cell k (findings actions) ∧
    chart.dropsAlong (actions ++ [.keepBest cell k]) +
        ((chart.after (actions ++ [.keepBest cell k])).derivations cell).length =
      (findings actions).length ∧
    ∀ other, other ≠ cell →
      (chart.after (actions ++ [.keepBest cell k])).recordsOf other = chart.recordsOf other := by
  have hdefers := hm.defers_after h ha
  have hstart : chart.VisibleIn cell := (Defers.nil (k := k) h).visible
  have hnone : chart.derivations cell = [] := by rw [derivations, entries, h]; rfl
  have hall : ∀ action ∈ actions ++ [.keepBest cell k], action.Within cell k :=
    List.forall_mem_append.2 ⟨ha, List.forall_mem_singleton.2 ⟨rfl, rfl⟩⟩
  refine ⟨?_, ?_, fun other => recordsOf_after_of_ne hall⟩
  · rw [after_append]
    exact hdefers.retainsBest (hm.after actions).keyed (scored_of_within ha)
  · rw [length_derivations_after hstart hall, hnone, findings_append_keepBest]
    exact Nat.zero_add _

/-! ### An example -/

def crowdCell : Cell :=
  .floating 0 1

/-- A meaning of a cell comes up as a number, with a score. -/
def crowdFinding (cell : Cell) (meaning : MeaningId) (n : Int) (score : Float) : Finding where
  key := ⟨cell, meaning⟩
  derivation := { Derivation.ofFormula ⟨0, ⟨"$ROOT", 0⟩, [], true, .constant (.value (.number n))⟩
    cell.span [] (.value (.number n)) with score := score }
  ingredient := ⟨cell, 0, none, none⟩
  sources := []
  sourcesSingle := true

/-- A meaning overflows two times with equal scores while another one has room. -/
def crowd : List Action :=
  [.add .all (crowdFinding crowdCell 0 1 0.5), .add .all (crowdFinding crowdCell 0 2 2.0),
    .keepBest crowdCell 2, .add .all (crowdFinding crowdCell 1 3 (-1.0)),
    .add .all (crowdFinding crowdCell 0 4 0.5), .keepBest crowdCell 2, .keepBest crowdCell 2,
    .add .all (crowdFinding crowdCell 1 5 3.0), .add .all (crowdFinding crowdCell 0 6 0.5),
    .add .all (crowdFinding crowdCell 0 7 2.0)]

/-- Another cell is filled already. -/
def crowdStart : Chart :=
  Chart.empty.add .all (crowdFinding (.floating 0 0) 0 1 1.0)

/-- The derivations of the second meaning stay in their order, and of the first meaning the two best
ones are kept. -/
theorem retainsBest_after_crowd :
    (crowdStart.recordsOf crowdCell = [] ∧ ∀ action ∈ crowd, action.Within crowdCell 2) ∧
    (((crowdStart.after (crowd ++ [.keepBest crowdCell 2])).entries crowdCell).map fun record =>
        record.derivations.toList.map (·.formula.text)) = [["2", "7"], ["3", "5"]] ∧
    crowdStart.dropsAlong (crowd ++ [.keepBest crowdCell 2]) = 3 ∧
    (crowdStart.after (crowd ++ [.keepBest crowdCell 2])).RetainsBest crowdCell 2
      (findings crowd) ∧
    ∀ other, other ≠ crowdCell → (crowdStart.after (crowd ++ [.keepBest crowdCell 2])).recordsOf
      other = crowdStart.recordsOf other := by
  have hempty : crowdStart.recordsOf crowdCell = [] := rfl
  have hwithin : ∀ action ∈ crowd, action.Within crowdCell 2 := by decide +kernel
  have hbest := retainsBest_after (Made.empty.add .all _) hempty hwithin
  exact ⟨⟨hempty, hwithin⟩, by decide +kernel, by decide +kernel, hbest.1, hbest.2.2⟩

end Chart

end GuidedChart
