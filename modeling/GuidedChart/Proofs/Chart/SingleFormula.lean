import GuidedChart.Proofs.Chart.History

/-!
# What a flag stands for

A finding is compared with the first derivation that its record has left, not with all that were
found before it. That is enough as long as the record has one: where the flag is still up, all
derivations found so far have the formula of any of them (`Chart.singleFormula_iff`). A record that
is hidden has none, so what is found for it later is not compared with anything, and the flag says
nothing about it (`Chart.singleFormula_relapse`).
-/

namespace GuidedChart

namespace Record

variable {record : Record}

/-- With an empty record every formula agrees. -/
theorem agrees_of_eq_nil (h : record.derivations.toList = []) (formula : Formula) :
    record.agrees formula = true := by
  rw [agrees, ← Array.getElem?_toList, h]
  rfl

/-- With any other record a formula agrees if it is that of the first derivation. -/
theorem exists_agrees_iff (h : record.derivations.toList ≠ []) :
    ∃ d ∈ record.derivations.toList, ∀ formula,
      record.agrees formula = true ↔ d.formula = formula := by
  obtain ⟨d, ds, hds⟩ := List.exists_cons_of_ne_nil h
  refine ⟨d, hds ▸ List.mem_cons_self, fun formula => ?_⟩
  rw [agrees, ← Array.getElem?_toList, hds]
  exact decide_eq_true_iff

theorem singleFormula_extend (retention : Retention) (f : Finding) :
    (record.extend retention f).singleFormula = true ↔ record.singleFormula = true ∧
      f.sourcesSingle = true ∧ record.agrees f.derivation.formula = true := by
  simp only [extend, Bool.and_eq_true, and_assoc]

end Record

namespace Chart

/-- The derivations that were found for the key all have the same formula. -/
def OneFormula (fs : List Finding) (key : BackPointer) : Prop :=
  ∀ f ∈ fs, ∀ g ∈ fs, f.key = key → g.key = key → f.derivation.formula = g.derivation.formula

/-- All that was found for the key came from sources that stand for a single formula. -/
def SourcesSingle (fs : List Finding) (key : BackPointer) : Prop :=
  ∀ f ∈ fs, f.key = key → f.sourcesSingle = true

section Findings

variable {fs gs : List Finding} {f : Finding} {key : BackPointer}

theorem OneFormula.mono (h : OneFormula gs key) (hsub : fs ⊆ gs) : OneFormula fs key :=
  fun f hf g hg => h f (hsub hf) g (hsub hg)

theorem oneFormula_append_of_ne (h : f.key ≠ key) :
    OneFormula (fs ++ [f]) key ↔ OneFormula fs key := by
  refine ⟨fun hone => hone.mono (List.subset_append_left _ _), fun hone => ?_⟩
  intro a ha b hb hak hbk
  have hold : ∀ c ∈ fs ++ [f], c.key = key → c ∈ fs := fun c hc hck => by
    rcases List.mem_append.1 hc with hc | hc
    · exact hc
    · rw [List.mem_singleton.1 hc] at hck
      exact absurd hck h
  exact hone a (hold a ha hak) b (hold b hb hbk) hak hbk

/-- Where one formula stands for all findings, another finding is compared with any one of them. -/
theorem oneFormula_append_iff {g : Finding} (hg : g ∈ fs) (hgk : g.key = f.key) :
    OneFormula (fs ++ [f]) f.key ↔
      OneFormula fs f.key ∧ g.derivation.formula = f.derivation.formula := by
  constructor
  · intro hone
    exact ⟨hone.mono (List.subset_append_left _ _), hone g (List.mem_append_left _ hg) f
      (List.mem_append_right _ (List.mem_singleton_self f)) hgk rfl⟩
  · rintro ⟨hone, heq⟩
    have hsame : ∀ c ∈ fs ++ [f], c.key = f.key →
        c.derivation.formula = f.derivation.formula := fun c hc hck => by
      rcases List.mem_append.1 hc with hc | hc
      · exact (hone c hc g hg hck hgk).trans heq
      · rw [List.mem_singleton.1 hc]
    exact fun a ha b hb hak hbk => (hsame a ha hak).trans (hsame b hb hbk).symm

theorem oneFormula_append_of_new (hnew : ∀ g ∈ fs, g.key ≠ f.key) :
    OneFormula (fs ++ [f]) f.key := by
  have hsame : ∀ c ∈ fs ++ [f], c.key = f.key → c = f := fun c hc hck => by
    rcases List.mem_append.1 hc with hc | hc
    · exact absurd hck (hnew c hc)
    · exact List.mem_singleton.1 hc
  intro a ha b hb hak hbk
  rw [hsame a ha hak, hsame b hb hbk]

theorem sourcesSingle_append :
    SourcesSingle (fs ++ [f]) key ↔
      SourcesSingle fs key ∧ (f.key = key → f.sourcesSingle = true) := by
  simp only [SourcesSingle, List.mem_append, List.mem_singleton, or_imp, forall_and,
    forall_eq]

end Findings

/-! ## The flag -/

theorem stocked_after {actions : List Action}
    (hbeam : ∀ cell k, .keepBest cell k ∈ actions → 1 ≤ k) :
    (Chart.empty.after actions).Stocked := by
  induction actions using List.reverseRecOn with
  | nil => exact nofun
  | append_singleton actions action ih =>
    have hold := ih fun cell k hm => hbeam cell k (List.mem_append_left _ hm)
    rw [after_append]
    cases action with
    | add retention f => exact hold.add
    | truncate cell k => exact hold.truncate cell k
    | keepBest cell k =>
      exact hold.keepBest cell (hbeam cell k (List.mem_append_right _ (List.mem_singleton_self _)))

/-- As long as the key was not hidden, all that was found for it had the same formula. -/
def OneFormulaSeen (actions : List Action) (key : BackPointer) : Prop :=
  ∀ before after, actions = before ++ after → ¬ (Chart.empty.after before).Hides key →
    OneFormula (findings before) key

section Seen

variable {actions : List Action} {action : Action} {key : BackPointer}

/-- What can still be seen has been seen from the beginning. -/
theorem oneFormulaSeen_iff (h : ¬ (Chart.empty.after actions).Hides key) :
    OneFormulaSeen actions key ↔ OneFormula (findings actions) key := by
  refine ⟨fun hseen => hseen actions [] (List.append_nil _).symm h, ?_⟩
  rintro hone before after rfl -
  refine hone.mono ?_
  rw [findings_append]
  exact List.subset_append_left _ _

/-- What happens to a key that is hidden, or is being hidden, is not seen. -/
theorem oneFormulaSeen_append_of_hides (h : (Chart.empty.after (actions ++ [action])).Hides key) :
    OneFormulaSeen (actions ++ [action]) key ↔ OneFormulaSeen actions key := by
  constructor
  · rintro hseen before after rfl
    exact hseen before (after ++ [action]) (List.append_assoc ..)
  · intro hseen before after heq hvisible
    rcases List.eq_nil_or_concat after with rfl | ⟨after, last, rfl⟩
    · rw [List.append_nil] at heq
      exact absurd (heq ▸ h) hvisible
    · rw [List.concat_eq_append, ← List.append_assoc] at heq
      exact hseen before after (List.append_inj' heq rfl).1 hvisible

/-- An action makes no difference if it finds nothing that matters. -/
theorem oneFormulaSeen_append_of_iff
    (h : OneFormula (findings (actions ++ [action])) key ↔ OneFormula (findings actions) key) :
    OneFormulaSeen (actions ++ [action]) key ↔ OneFormulaSeen actions key := by
  by_cases hides : (Chart.empty.after (actions ++ [action])).Hides key
  · exact oneFormulaSeen_append_of_hides hides
  · have hold : ¬ (Chart.empty.after actions).Hides key := fun hold => by
      rw [after_append] at hides
      exact hides (hold.act action)
    rw [oneFormulaSeen_iff hides, oneFormulaSeen_iff hold, h]

end Seen

/-- The flags of a chart are right. -/
def Vouches (chart : Chart) (actions : List Action) : Prop :=
  ∀ key record, chart.lookup? key = some record →
    (record.singleFormula = true ↔
      SourcesSingle (findings actions) key ∧ OneFormulaSeen actions key)

section Vouches

variable {actions : List Action}

/-- A beam leaves flags alone. -/
theorem Vouches.trims (h : (Chart.empty.after actions).Vouches actions) {action : Action}
    (htrims : (Chart.empty.after actions).Trims (Chart.empty.after (actions ++ [action])))
    (hfindings : findings (actions ++ [action]) = findings actions) :
    (Chart.empty.after (actions ++ [action])).Vouches (actions ++ [action]) := by
  intro key record hr
  obtain ⟨old, ho, ht⟩ := htrims.exists_of_lookup? hr
  rw [ht.singleFormula, h key old ho, hfindings, oneFormulaSeen_append_of_iff (by rw [hfindings])]

/-- The flag of a record stays right if something is found for it. -/
theorem Vouches.add_self (h : (Chart.empty.after actions).Vouches actions)
    (hstocked : (Chart.empty.after actions).Stocked) (retention : Retention) (f : Finding)
    {record : Record}
    (hr : (Chart.empty.after (actions ++ [.add retention f])).lookup? f.key = some record) :
    record.singleFormula = true ↔ SourcesSingle (findings actions ++ [f]) f.key ∧
      OneFormulaSeen (actions ++ [.add retention f]) f.key := by
  have hcollects := collects_after actions
  have hadd : Chart.empty.after (actions ++ [.add retention f]) =
      (Chart.empty.after actions).add retention f := after_append _ _ _
  have hides : (Chart.empty.after (actions ++ [.add retention f])).Hides f.key ↔
      record.hidden = true :=
    ⟨fun ⟨r, hl, hh⟩ => Option.some.inj (hl.symm.trans hr) ▸ hh, fun hh => ⟨record, hr, hh⟩⟩
  rw [sourcesSingle_append]
  rw [hadd] at hr
  cases hl : (Chart.empty.after actions).lookup? f.key with
  | none =>
    have hnew : ∀ g ∈ findings actions, g.key ≠ f.key := fun g hg hk => by
      obtain ⟨old, ho⟩ := (hcollects.holds_iff f.key).2 (Finding.mem_keys.2 ⟨g, hg, hk⟩)
      rw [hl] at ho
      cases ho
    rw [lookup?_add_of_none _ _ _ hl] at hr
    cases hr
    rw [oneFormulaSeen_iff (mt hides.1 Bool.false_ne_true), findings_append_add]
    have hone := oneFormula_append_of_new hnew
    have hsources : SourcesSingle (findings actions) f.key := fun g hg hk => absurd hk (hnew g hg)
    simp only [Record.ofFinding, hone, hsources, true_and, and_true, forall_const]
  | some old =>
    rw [lookup?_add_of_lookup? _ _ _ hl] at hr
    cases hr
    rw [Record.singleFormula_extend, h _ old hl]
    have hhidden : (old.extend retention f).hidden = old.hidden := rfl
    cases hh : old.hidden with
    | true =>
      rw [oneFormulaSeen_append_of_hides (hides.2 (hhidden.trans hh)),
        Record.agrees_of_eq_nil ((Made.empty.after actions).emptied _ old hl hh)]
      simp only [and_true, forall_const]
      exact and_right_comm
    | false =>
      -- the derivation that is compared with stands for all that were found before
      obtain ⟨d, hd, hagrees⟩ := Record.exists_agrees_iff (hstocked _ old hl hh)
      rw [← derivationsOf_of_lookup? hl] at hd
      obtain ⟨g, hg, hgk, rfl⟩ := hcollects.derivations f.key d hd
      have hvisible : ¬ (Chart.empty.after actions).Hides f.key := by
        rintro ⟨r, hr, hrh⟩
        rw [Option.some.inj (hr.symm.trans hl), hh] at hrh
        cases hrh
      rw [hagrees, oneFormulaSeen_iff hvisible,
        oneFormulaSeen_iff (mt hides.1 (by rw [hhidden, hh]; exact Bool.false_ne_true)),
        findings_append_add, oneFormula_append_iff hg hgk]
      simp only [forall_const]
      exact and_and_and_comm

theorem vouches_after (hbeam : ∀ cell k, .keepBest cell k ∈ actions → 1 ≤ k) :
    (Chart.empty.after actions).Vouches actions := by
  induction actions using List.reverseRecOn with
  | nil => exact nofun
  | append_singleton actions action ih =>
    have hbeam' : ∀ cell k, .keepBest cell k ∈ actions → 1 ≤ k := fun cell k hm =>
      hbeam cell k (List.mem_append_left _ hm)
    have hold := ih hbeam'
    cases action with
    | add retention f =>
      intro key record hr
      rw [findings_append_add]
      by_cases hkey : f.key = key
      · subst hkey
        exact hold.add_self (stocked_after hbeam') retention f hr
      · have hsources : SourcesSingle (findings actions ++ [f]) key ↔
            SourcesSingle (findings actions) key := by
          rw [sourcesSingle_append]
          simp only [hkey, false_imp_iff, and_true]
        rw [after_append] at hr
        rw [hold key record ((lookup?_add_of_ne _ _ _ hkey).symm.trans hr), hsources,
          oneFormulaSeen_append_of_iff]
        rw [findings_append_add, oneFormula_append_of_ne hkey]
    | truncate cell k =>
      refine hold.trims ?_ (findings_append_truncate actions cell k)
      rw [after_append]
      exact trims_truncate _ cell k
    | keepBest cell k =>
      refine hold.trims ?_ (findings_append_keepBest actions cell k)
      rw [after_append]
      exact trims_keepBest _ cell k

end Vouches

/-- Whatever is done to an empty chart, as long as no beam empties a record that may be read, a
record is flagged just when all findings for its key came from single sources and all that were
made before it was hidden had the same formula. For a record that is not hidden, these are all
findings for its key. -/
theorem singleFormula_iff {actions : List Action}
    (hbeam : ∀ cell k, .keepBest cell k ∈ actions → 1 ≤ k) {record : Record}
    (hr : record ∈ (Chart.empty.after actions).records) :
    (record.singleFormula = true ↔
      SourcesSingle (findings actions) record.key ∧ OneFormulaSeen actions record.key) ∧
    (record.hidden = false →
      (record.singleFormula = true ↔
        SourcesSingle (findings actions) record.key ∧
          OneFormula (findings actions) record.key)) := by
  have hmade := Made.empty.after actions
  have hl := hmade.lookup?_iff.2 ⟨hr, rfl⟩
  have hflag := vouches_after hbeam record.key record hl
  refine ⟨hflag, fun hh => ?_⟩
  rw [hflag, oneFormulaSeen_iff]
  rintro ⟨r, hr, hrh⟩
  rw [Option.some.inj (hr.symm.trans hl), hh] at hrh
  cases hrh

/-! ### An example -/

def relapseCell : Cell :=
  .floating 0 1

/-- A meaning of the cell comes up as a number. -/
def relapseFinding (meaning : MeaningId) (n : Int) : Finding where
  key := ⟨relapseCell, meaning⟩
  derivation := .ofFormula ⟨0, ⟨"$ROOT", 0⟩, [], true, .constant (.value (.number n))⟩
    relapseCell.span [] (.value (.number n))
  ingredient := ⟨relapseCell, 0, none, none⟩
  sources := []
  sourcesSingle := true

/-- A meaning comes up, is hidden, and comes up once more as another formula. -/
def relapse : List Action :=
  [.add .representative (relapseFinding 0 1), .truncate relapseCell 0,
    .add .representative (relapseFinding 0 2)]

/-- Afterwards another meaning comes up as two formulas, of which one is dropped. -/
def relapseAndDrop : List Action :=
  relapse ++ [.add .all (relapseFinding 1 3), .add .all (relapseFinding 1 4),
    .keepBest relapseCell 1]

/-- The first meaning, which is hidden, is flagged by what was seen of it, and the second one is not
flagged. -/
theorem singleFormula_iff_relapse :
    (∀ cell k, .keepBest cell k ∈ relapseAndDrop → 1 ≤ k) ∧
    (Chart.empty.after relapseAndDrop).records.map (fun r => (r.singleFormula, r.hidden)) =
      [(true, true), (false, false)] ∧
    ∀ record ∈ (Chart.empty.after relapseAndDrop).records,
      (record.singleFormula = true ↔ SourcesSingle (findings relapseAndDrop) record.key ∧
        OneFormulaSeen relapseAndDrop record.key) ∧
      (record.hidden = false →
        (record.singleFormula = true ↔ SourcesSingle (findings relapseAndDrop) record.key ∧
          OneFormula (findings relapseAndDrop) record.key)) := by
  have hbeam : ∀ cell k, .keepBest cell k ∈ relapseAndDrop → 1 ≤ k := fun cell k hm => by
    simp only [relapseAndDrop, relapse, List.cons_append, List.nil_append, List.mem_cons,
      reduceCtorEq, Action.keepBest.injEq, List.not_mem_nil, or_false, false_or] at hm
    exact hm.2.ge
  exact ⟨hbeam, by decide +kernel, fun record hr => singleFormula_iff hbeam hr⟩

/-- A record may be flagged although its derivations had different formulas. -/
theorem singleFormula_relapse :
    (∀ cell k, .keepBest cell k ∈ relapse → 1 ≤ k) ∧
    ∃ record ∈ (Chart.empty.after relapse).records,
      record.singleFormula = true ∧ ¬ OneFormula (findings relapse) record.key := by
  have hbeam : ∀ cell k, .keepBest cell k ∈ relapse → 1 ≤ k := fun cell k hm => by
    simp [relapse] at hm
  have hflags : (Chart.empty.after relapse).records.map (fun r => (r.singleFormula, r.key)) =
      [(true, ⟨relapseCell, 0⟩)] := by decide +kernel
  obtain ⟨record, hr, he⟩ :=
    List.mem_map.1 (hflags ▸ List.mem_singleton_self (true, (⟨relapseCell, 0⟩ : BackPointer)))
  obtain ⟨hflag, hkey⟩ := Prod.mk.inj he
  refine ⟨hbeam, record, hr, hflag, fun hone => ?_⟩
  have hsame := hone (relapseFinding 0 1) List.mem_cons_self (relapseFinding 0 2)
    (List.mem_cons_of_mem _ List.mem_cons_self) hkey.symm hkey.symm
  exact absurd hsame (by decide)

end Chart

end GuidedChart
