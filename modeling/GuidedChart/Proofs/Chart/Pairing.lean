import GuidedChart.Proofs.Chart.Placement
import Mathlib.Data.List.Forall2

/-!
# Charts side by side

Two passes number the meanings in the order in which they come across them, so their charts may hold
the same under different numbers. A *pairing* says which cells of two charts are compared and which
derivations are taken for the same; numbers are the same if they have one sense, each in its own
table. Where both tables refer back, this pairs a number with one number at most
(`MeaningTable.biUnique_sameSense`), so the numbers of the second chart are those of the first one,
renamed.

A finding that is filed in paired cells keeps the charts alike (`Pairing.Charts.add`), one that is
filed in a cell without a partner does not matter (`Pairing.Charts.add_left`), and beams make the
same of records that are the same (`Pairing.forall₂_hideBeyond`, `Pairing.Twins.keepBest`).
-/

namespace GuidedChart

section Lists

variable {α β : Type} {R : α → β → Prop} {as : List α} {bs : List β}

theorem optionRel_map {γ δ : Type} {S : γ → δ → Prop} {f : α → γ} {g : β → δ} {a : Option α}
    {b : Option β} (h : Option.Rel R a b) (hfg : ∀ a b, R a b → S (f a) (g b)) :
    Option.Rel S (a.map f) (b.map g) := by
  cases h with
  | some hab => exact .some (hfg _ _ hab)
  | none => exact .none

theorem optionRel_getElem? (h : List.Forall₂ R as bs) (i : Nat) : Option.Rel R as[i]? bs[i]? := by
  induction h generalizing i with
  | nil => exact .none
  | cons hab _ ih =>
    cases i with
    | zero => exact .some hab
    | succ i => exact ih i

theorem all_eq_of_forall₂ {p : α → Bool} {q : β → Bool} (h : List.Forall₂ R as bs)
    (hpq : ∀ a b, R a b → p a = q b) : as.all p = bs.all q := by
  induction h with
  | nil => rfl
  | cons hab _ ih => rw [List.all_cons, List.all_cons, hpq _ _ hab, ih]

theorem forall₂_find? {p : α → Bool} {q : β → Bool} (h : List.Forall₂ R as bs)
    (hpq : ∀ a b, R a b → p a = q b) : Option.Rel R (as.find? p) (bs.find? q) := by
  induction h with
  | nil => exact .none
  | @cons a b as bs hab _ ih =>
    rw [List.find?_cons, List.find?_cons, hpq a b hab]
    cases q b with
    | true => exact .some hab
    | false => exact ih

end Lists

/-! ## Numberings -/

namespace Numbering

variable {α β : Type} [Coded α] [Coded β] {R : α → β → Prop} {m : Numbering α} {n : Numbering β}

theorem forall₂_insert (hR : Relator.BiUnique R) (h : List.Forall₂ R m.toList n.toList) {a : α}
    {b : β} (hab : R a b) : List.Forall₂ R (m.insert a).toList (n.insert b).toList := by
  have hiff : a ∈ m.toList ↔ b ∈ n.toList := List.rel_mem hR hab h
  by_cases ha : a ∈ m.toList
  · rwa [insert_of_mem ha, insert_of_mem (hiff.1 ha)]
  · rw [toList_insert_of_not_mem ha, toList_insert_of_not_mem (mt hiff.2 ha)]
    exact List.rel_append h (.cons hab .nil)

theorem forall₂_insertAll (hR : Relator.BiUnique R) (h : List.Forall₂ R m.toList n.toList)
    {as : List α} {bs : List β} (hab : List.Forall₂ R as bs) :
    List.Forall₂ R (m.insertAll as).toList (n.insertAll bs).toList := by
  induction hab generalizing m n with
  | nil => exact h
  | cons hab _ ih => exact ih (forall₂_insert hR h hab)

theorem forall₂_ofList (hR : Relator.BiUnique R) {as : List α} {bs : List β}
    (h : List.Forall₂ R as bs) : List.Forall₂ R (ofList as).toList (ofList bs).toList :=
  forall₂_insertAll hR .nil h

end Numbering

/-! ## Numbers -/

namespace MeaningTable

/-- Two numbers have one sense, each in its own table. -/
def SameSense (t u : MeaningTable) (i j : MeaningId) : Prop :=
  ∃ s, t.sense? i = some s ∧ u.sense? j = some s

variable {t t' u u' : MeaningTable}

theorem SameSense.mono (ht : t.senses <+: t'.senses) (hu : u.senses <+: u'.senses)
    {i j : MeaningId} (h : t.SameSense u i j) : t'.SameSense u' i j := by
  obtain ⟨s, hi, hj⟩ := h
  exact ⟨s, sense?_of_prefix ht hi, sense?_of_prefix hu hj⟩

theorem biUnique_sameSense (ht : t.RefersBack) (hu : u.RefersBack) :
    Relator.BiUnique (t.SameSense u) := by
  refine ⟨?_, ?_⟩
  · rintro i i' j ⟨s, hi, hj⟩ ⟨s', hi', hj'⟩
    rw [hj, Option.some.injEq] at hj'
    subst hj'
    exact sense?_inj ht hi hi'
  · rintro i j j' ⟨s, hi, hj⟩ ⟨s', hi', hj'⟩
    rw [hi, Option.some.injEq] at hi'
    subst hi'
    exact sense?_inj hu hj hj'

/-! ### Numbering the same meaning -/

section Intern

variable {first first' second second' : Option MeaningId}

theorem lt_size_of_optionRel (h : Option.Rel (t.SameSense u) first first') :
    (∀ id ∈ first, id < t.size) ∧ ∀ id ∈ first', id < u.size := by
  cases h with
  | none => exact ⟨nofun, nofun⟩
  | some hs =>
    obtain ⟨s, hi, hj⟩ := hs
    refine ⟨fun id hid => ?_, fun id hid => ?_⟩
    · obtain rfl := Option.some.inj hid
      exact lt_size_of_sense? hi
    · obtain rfl := Option.some.inj hid
      exact lt_size_of_sense? hj

theorem bind_sense?_eq (h : Option.Rel (t.SameSense u) first first') :
    first.bind t.sense? = first'.bind u.sense? := by
  cases h with
  | none => rfl
  | some hs =>
    obtain ⟨s, hi, hj⟩ := hs
    exact hi.trans hj.symm

/-- The same outcome of a rule, over children that have the same senses, gets numbers of one
sense. -/
theorem sameSense_intern (ht : t.RefersBack) (hu : u.RefersBack)
    (h : Option.Rel (t.SameSense u) first first') (h' : Option.Rel (t.SameSense u) second second')
    (outcome : Outcome) (rule : RuleId) :
    (t.intern (.ofOutcome outcome rule first second)).1.RefersBack ∧
      (u.intern (.ofOutcome outcome rule first' second')).1.RefersBack ∧
      (t.intern (.ofOutcome outcome rule first second)).1.SameSense
        (u.intern (.ofOutcome outcome rule first' second')).1
        (t.intern (.ofOutcome outcome rule first second)).2
        (u.intern (.ofOutcome outcome rule first' second')).2 := by
  obtain ⟨hfirst, hfirst'⟩ := lt_size_of_optionRel h
  obtain ⟨hsecond, hsecond'⟩ := lt_size_of_optionRel h'
  have hm : (Meaning.ofOutcome outcome rule first second).RefersBelow t.size := by
    cases outcome with
    | ok v => trivial
    | error e => exact ⟨hfirst, hsecond⟩
  have hn : (Meaning.ofOutcome outcome rule first' second').RefersBelow u.size := by
    cases outcome with
    | ok v => trivial
    | error e => exact ⟨hfirst', hsecond'⟩
  have hsense : (Meaning.ofOutcome outcome rule first' second').sense u.senses =
      (Meaning.ofOutcome outcome rule first second).sense t.senses := by
    cases outcome with
    | ok v => rfl
    | error e =>
      exact congrArg₂ (Sense.failure rule) (bind_sense?_eq h).symm (bind_sense?_eq h').symm
  refine ⟨ht.intern hm, hu.intern hn, _, sense?_intern ht hm, ?_⟩
  rw [sense?_intern hu hn, hsense]

end Intern

end MeaningTable

theorem biUnique_optionRel {α β : Type} {R : α → β → Prop} (h : Relator.BiUnique R) :
    Relator.BiUnique (Option.Rel R) := by
  refine ⟨?_, ?_⟩
  · rintro _ _ _ (⟨hac⟩ | -) (⟨hbc⟩ | -)
    · rw [h.1 hac hbc]
    · rfl
  · rintro _ _ _ (⟨hab⟩ | -) (⟨hac⟩ | -)
    · rw [h.2 hab hac]
    · rfl

/-! ## Pairings -/

/-- Which cells of two charts are compared, and which derivations are taken for the same. -/
structure Pairing where
  cell : Cell → Cell → Prop
  derivation : Derivation → Derivation → Prop
  biUnique : Relator.BiUnique cell
  category : ∀ {x y}, cell x y → x.category = y.category
  isAnchored : ∀ {x y}, cell x y → x.isAnchored = y.isAnchored
  /-- A floating cell is compared with itself, if at all. -/
  floating : ∀ {x y}, cell x y → x.isAnchored = false → x = y
  formula : ∀ {d e}, derivation d e → d.formula = e.formula
  score : ∀ {d e}, derivation d e → d.score = e.score
  overlap : ∀ {d d' e e'}, derivation d e → derivation d' e' → d.overlap d' = e.overlap e'

/-- Some cells of two charts are compared each with itself. -/
def Pairing.within (scope : Cell → Prop) : Pairing where
  cell x y := x = y ∧ scope x
  derivation := Eq
  biUnique := ⟨fun _ _ _ h k => h.1.trans k.1.symm, fun _ _ _ h k => h.1.symm.trans k.1⟩
  category h := congrArg _ h.1
  isAnchored h := congrArg _ h.1
  floating h _ := h.1
  formula h := congrArg _ h
  score h := congrArg _ h
  overlap h k := congrArg₂ _ h k

namespace Pairing

variable (P : Pairing) (t u : MeaningTable)

/-- Two keys name paired cells and numbers of one sense. -/
def Key (k l : BackPointer) : Prop :=
  P.cell k.cell l.cell ∧ t.SameSense u k.meaning l.meaning

/-- Two ways lead to paired cells, by one rule over the same. -/
structure Way (i j : Ingredient) : Prop where
  cell : P.cell i.cell j.cell
  rule : i.rule = j.rule
  first : Option.Rel (t.SameSense u) i.first j.first
  second : Option.Rel (t.SameSense u) i.second j.second

/-- Two findings come to the same. -/
structure Found (f g : Finding) : Prop where
  key : P.Key t u f.key g.key
  derivation : P.derivation f.derivation g.derivation
  ingredient : P.Way t u f.ingredient g.ingredient
  sources : List.Forall₂ (P.Key t u) f.sources g.sources
  sourcesSingle : f.sourcesSingle = g.sourcesSingle

/-- Two records hold the same in the same order. -/
structure Twins (r s : Record) : Prop where
  key : P.Key t u r.key s.key
  ingredients : List.Forall₂ (P.Way t u) r.ingredients.toList s.ingredients.toList
  backPointers : List.Forall₂ (P.Key t u) r.backPointers.toList s.backPointers.toList
  derivations : List.Forall₂ P.derivation r.derivations.toList s.derivations.toList
  singleFormula : r.singleFormula = s.singleFormula
  hidden : r.hidden = s.hidden

/-- Two charts hold the same in the cells that are compared. -/
def Charts (c d : Chart) : Prop :=
  ∀ x y, P.cell x y → List.Forall₂ (P.Twins t u) (c.recordsOf x) (d.recordsOf y)

variable {P t u} {t' u' : MeaningTable}

section Mono

variable (ht : t.senses <+: t'.senses) (hu : u.senses <+: u'.senses)

include ht hu

theorem Key.mono {k l : BackPointer} (h : P.Key t u k l) : P.Key t' u' k l :=
  ⟨h.1, h.2.mono ht hu⟩

theorem optionRel_mono {i j : Option MeaningId} (h : Option.Rel (t.SameSense u) i j) :
    Option.Rel (t'.SameSense u') i j := by
  cases h with
  | some hs => exact .some (hs.mono ht hu)
  | none => exact .none

theorem Way.mono {i j : Ingredient} (h : P.Way t u i j) : P.Way t' u' i j :=
  ⟨h.cell, h.rule, optionRel_mono ht hu h.first, optionRel_mono ht hu h.second⟩

theorem Twins.mono {r s : Record} (h : P.Twins t u r s) : P.Twins t' u' r s where
  key := h.key.mono ht hu
  ingredients := h.ingredients.imp fun _ _ => Way.mono ht hu
  backPointers := h.backPointers.imp fun _ _ => Key.mono ht hu
  derivations := h.derivations
  singleFormula := h.singleFormula
  hidden := h.hidden

/-- What is numbered later leaves charts alike. -/
theorem Charts.mono {c d : Chart} (h : P.Charts t u c d) : P.Charts t' u' c d :=
  fun x y hxy => (h x y hxy).imp fun _ _ => Twins.mono ht hu

end Mono

section BiUnique

variable (ht : t.RefersBack) (hu : u.RefersBack)

include ht hu

theorem biUnique_key : Relator.BiUnique (P.Key t u) := by
  have hs := MeaningTable.biUnique_sameSense ht hu
  exact ⟨fun _ _ _ h k => BackPointer.ext (P.biUnique.1 h.1 k.1) (hs.1 h.2 k.2),
    fun _ _ _ h k => BackPointer.ext (P.biUnique.2 h.1 k.1) (hs.2 h.2 k.2)⟩

theorem biUnique_way : Relator.BiUnique (P.Way t u) := by
  have hs := biUnique_optionRel (MeaningTable.biUnique_sameSense ht hu)
  refine ⟨?_, ?_⟩
  · rintro ⟨x, r, i, j⟩ ⟨x', r', i', j'⟩ w h k
    obtain rfl : x = x' := P.biUnique.1 h.cell k.cell
    obtain rfl : r = r' := h.rule.trans k.rule.symm
    obtain rfl : i = i' := hs.1 h.first k.first
    obtain rfl : j = j' := hs.1 h.second k.second
    rfl
  · rintro w ⟨x, r, i, j⟩ ⟨x', r', i', j'⟩ h k
    obtain rfl : x = x' := P.biUnique.2 h.cell k.cell
    obtain rfl : r = r' := h.rule.symm.trans k.rule
    obtain rfl : i = i' := hs.2 h.first k.first
    obtain rfl : j = j' := hs.2 h.second k.second
    rfl

/-! ## Records -/

theorem Found.twins_ofFinding {f g : Finding} (h : P.Found t u f g) (m n : Nat) :
    P.Twins t u (.ofFinding m f) (.ofFinding n g) where
  key := h.key
  ingredients := Numbering.forall₂_ofList (biUnique_way ht hu) (.cons h.ingredient .nil)
  backPointers := Numbering.forall₂_ofList (biUnique_key ht hu) h.sources
  derivations := .cons h.derivation .nil
  singleFormula := h.sourcesSingle
  hidden := rfl

omit ht hu in
theorem Twins.agrees_eq {r s : Record} (h : P.Twins t u r s) (formula : Formula) :
    r.agrees formula = s.agrees formula := by
  have hfirst : Option.Rel P.derivation r.derivations[0]? s.derivations[0]? := by
    rw [← Array.getElem?_toList, ← Array.getElem?_toList]
    exact optionRel_getElem? h.derivations 0
  unfold Record.agrees
  generalize r.derivations[0]? = first, s.derivations[0]? = other at hfirst ⊢
  cases hfirst with
  | some hd => simp only [P.formula hd]
  | none => rfl

omit ht hu in
theorem Twins.retains_eq {r s : Record} (h : P.Twins t u r s) (retention : Retention) :
    r.retains retention = s.retains retention := by
  have hsize : r.derivations.size = s.derivations.size := h.derivations.length_eq
  rw [Record.retains, Record.retains, h.hidden, Array.isEmpty, Array.isEmpty, hsize]

/-- The same findings make the same of the same records. -/
theorem Twins.extend {r s : Record} (h : P.Twins t u r s) {f g : Finding} (hf : P.Found t u f g)
    (retention : Retention) : P.Twins t u (r.extend retention f) (s.extend retention g) where
  key := h.key
  ingredients := Numbering.forall₂_insert (biUnique_way ht hu) h.ingredients hf.ingredient
  backPointers := Numbering.forall₂_insertAll (biUnique_key ht hu) h.backPointers hf.sources
  derivations := by
    simp only [Record.extend, h.retains_eq]
    split
    · rw [Array.toList_push, Array.toList_push]
      exact List.rel_append h.derivations (.cons hf.derivation .nil)
    · exact h.derivations
  singleFormula := by
    simp only [Record.extend, h.singleFormula, hf.sourcesSingle, P.formula hf.derivation,
      h.agrees_eq]
  hidden := h.hidden

end BiUnique

/-! ### Beams -/

theorem Twins.hide {r s : Record} (h : P.Twins t u r s) : P.Twins t u r.hide s.hide :=
  ⟨h.key, h.ingredients, h.backPointers, .nil, h.singleFormula, rfl⟩

theorem forall₂_hideBeyond {rs ss : List Record} (h : List.Forall₂ (P.Twins t u) rs ss) (k : Nat) :
    List.Forall₂ (P.Twins t u) (Record.hideBeyond k rs) (Record.hideBeyond k ss) := by
  induction h generalizing k with
  | nil => exact .nil
  | @cons r s rs ss hrs _ ih =>
    unfold Record.hideBeyond
    rw [hrs.hidden]
    split
    · exact .cons hrs (ih k)
    · cases k with
      | zero => exact .cons hrs.hide (ih 0)
      | succ k => exact .cons hrs (ih k)

theorem forall₂_insertRanked {d e : Derivation} {ds es : List Derivation} (hde : P.derivation d e)
    (h : List.Forall₂ P.derivation ds es) :
    List.Forall₂ P.derivation (Derivation.insertRanked d ds) (Derivation.insertRanked e es) := by
  induction h with
  | nil => exact .cons hde .nil
  | @cons d' e' ds es hde' h ih =>
    have houtranks : d'.outranks d = e'.outranks e := by
      rw [Derivation.outranks, Derivation.outranks, P.score hde, P.score hde']
    unfold Derivation.insertRanked
    rw [houtranks]
    split
    · exact .cons hde' ih
    · exact .cons hde (.cons hde' h)

theorem forall₂_ranked {ds es : List Derivation} (h : List.Forall₂ P.derivation ds es) :
    List.Forall₂ P.derivation (Derivation.ranked ds) (Derivation.ranked es) := by
  induction h with
  | nil => exact .nil
  | cons hde _ ih => exact forall₂_insertRanked hde ih

theorem Twins.keepBest {r s : Record} (h : P.Twins t u r s) (k : Nat) :
    P.Twins t u (r.keepBest k) (s.keepBest k) := by
  have hsize : r.derivations.size = s.derivations.size := h.derivations.length_eq
  unfold Record.keepBest
  rw [hsize]
  split
  · exact h
  · exact ⟨h.key, h.ingredients, h.backPointers,
      List.forall₂_take k (forall₂_ranked h.derivations), h.singleFormula, h.hidden⟩

/-! ## Charts -/

namespace Charts

variable {c d : Chart}

/-- What may be read is the same. -/
theorem entries (h : P.Charts t u c d) {x y : Cell} (hxy : P.cell x y) :
    List.Forall₂ (P.Twins t u) (c.entries x) (d.entries y) := by
  refine List.rel_filter (fun r s hrs => ?_) (h x y hxy)
  change (!r.hidden) = true ↔ (!s.hidden) = true
  rw [hrs.hidden]

theorem derivations (h : P.Charts t u c d) {x y : Cell} (hxy : P.cell x y) :
    List.Forall₂ P.derivation (c.derivations x) (d.derivations y) :=
  List.rel_flatMap (h.entries hxy) fun _ _ hrs => hrs.derivations

end Charts

end Pairing

namespace Pairing.Charts

variable {P : Pairing} {t u : MeaningTable} {c d : Chart} (ht : t.RefersBack) (hu : u.RefersBack)
  (hc : c.Keyed) (hd : d.Keyed)

include ht hu hc hd

theorem lookup? (h : P.Charts t u c d) {k l : BackPointer} (hkl : P.Key t u k l) :
    Option.Rel (P.Twins t u) (c.lookup? k) (d.lookup? l) := by
  rw [hc.lookup?_eq_find?, hd.lookup?_eq_find?]
  refine forall₂_find? (h _ _ hkl.1) fun r s hrs => ?_
  exact decide_eq_decide.2 (Relator.rel_eq (biUnique_key ht hu) hrs.key hkl)

theorem isSingleFormula_eq (h : P.Charts t u c d) {k l : BackPointer} (hkl : P.Key t u k l) :
    c.isSingleFormula k = d.isSingleFormula l := by
  have hlookup := h.lookup? ht hu hc hd hkl
  unfold Chart.isSingleFormula
  generalize c.lookup? k = old, d.lookup? l = new at hlookup ⊢
  cases hlookup with
  | some hrs => exact hrs.singleFormula
  | none => rfl

theorem holds_iff (h : P.Charts t u c d) {k l : BackPointer} (hkl : P.Key t u k l) :
    c.Holds k ↔ d.Holds l := by
  have hlookup := h.lookup? ht hu hc hd hkl
  unfold Chart.Holds
  generalize c.lookup? k = old, d.lookup? l = new at hlookup ⊢
  cases hlookup with
  | some => simp
  | none => simp

/-- Findings that come to the same leave charts alike. -/
theorem add (h : P.Charts t u c d) {f g : Finding} (hfg : P.Found t u f g)
    (retention : Retention) : P.Charts t u (c.add retention f) (d.add retention g) := by
  intro x y hxy
  have hcell : f.key.cell = x ↔ g.key.cell = y := Relator.rel_eq P.biUnique hfg.key.1 hxy
  by_cases hx : f.key.cell = x
  · obtain rfl : g.key.cell = y := hcell.1 hx
    subst hx
    by_cases hf : c.Holds f.key
    · rw [Chart.recordsOf_add_of_holds hc hf,
        Chart.recordsOf_add_of_holds hd ((h.holds_iff ht hu hc hd hfg.key).1 hf)]
      refine List.rel_map (fun r s hrs => ?_) (h _ _ hxy)
      have hkey : r.key = f.key ↔ s.key = g.key :=
        Relator.rel_eq (biUnique_key ht hu) hrs.key hfg.key
      by_cases hr : r.key = f.key
      · rw [if_pos hr, if_pos (hkey.1 hr)]
        exact hrs.extend ht hu hfg retention
      · rw [if_neg hr, if_neg (mt hkey.2 hr)]
        exact hrs
    · rw [Chart.recordsOf_add_of_not_holds hf,
        Chart.recordsOf_add_of_not_holds (mt (h.holds_iff ht hu hc hd hfg.key).2 hf)]
      exact List.rel_append (h _ _ hxy) (.cons (hfg.twins_ofFinding ht hu _ _) .nil)
  · rw [Chart.recordsOf_add_of_ne _ _ _ hx, Chart.recordsOf_add_of_ne _ _ _ (mt hcell.2 hx)]
    exact h x y hxy

omit ht hu hc hd in
theorem add_left (h : P.Charts t u c d) {f : Finding} (hf : ∀ y, ¬ P.cell f.key.cell y)
    (retention : Retention) : P.Charts t u (c.add retention f) d := by
  intro x y hxy
  rw [Chart.recordsOf_add_of_ne _ _ _ fun he => hf y (he ▸ hxy)]
  exact h x y hxy

omit ht hu hc hd in
theorem add_right (h : P.Charts t u c d) {g : Finding} (hg : ∀ x, ¬ P.cell x g.key.cell)
    (retention : Retention) : P.Charts t u c (d.add retention g) := by
  intro x y hxy
  rw [Chart.recordsOf_add_of_ne _ _ _ fun he => hg x (he ▸ hxy)]
  exact h x y hxy

end Pairing.Charts

end GuidedChart
