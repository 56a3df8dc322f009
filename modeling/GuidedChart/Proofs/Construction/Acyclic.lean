import GuidedChart.Proofs.Construction.Schedule
import GuidedChart.Proofs.Provenance

/-!
# No result is built from itself

Back-pointers go down in the order of cells (`Chart.Descends`): what a legal step finds is built
from its sources, and what is lifted goes from an anchored cell to a floating one. That holds from
whatever table a pass starts (`Task.not_transGen_back`), so the provenance of any roots of a
finished chart exists (`Task.exists_provenance`).
-/

namespace GuidedChart

open Relation (TransGen)

/-- Do the back-pointers of every record lead to earlier cells? -/
def Chart.Descends (chart : Chart) (grammar : Grammar) : Prop :=
  ∀ key source, chart.Back key source → grammar.rank source.cell < grammar.rank key.cell

theorem Chart.Descends.not_transGen {chart : Chart} {grammar : Grammar} (h : chart.Descends grammar)
    (key : BackPointer) : ¬ TransGen chart.Back key key := by
  have hlt : ∀ a b, TransGen chart.Back a b → grammar.rank b.cell < grammar.rank a.cell := by
    intro a b hab
    induction hab with
    | single hb => exact h _ _ hb
    | tail _ hb ih => exact lt_trans (h _ _ hb) ih
  exact fun hk => lt_irrefl _ (hlt key key hk)

namespace Task

variable {task : Task} {step : Step} {work : Work} {groups : List (List Finding)}

/-- A finding is built from the sources of its step, or it is lifted from another one of its
meaning. -/
theorem cells_of_mem (hkeyed : work.chart.Keyed)
    (h : List.Forall₂ (task.Attempts step work) (work.readings step) groups) {f : Finding}
    (hf : f ∈ groups.flatten) :
    (f.key.cell = step.target ∧ ∀ source ∈ f.sources, source.cell ∈ step.sources) ∨
      f.key.cell ∈ task.lift? step.target ∧ ∃ g ∈ groups.flatten, g.key.cell = step.target ∧
        f.sources = [g.key] := by
  obtain ⟨children, hc, single, -, -, g, hg, hfinds, hlift⟩ := exists_finds_of_mem h hf
  rcases hlift with rfl | ⟨hl, hcell, -⟩
  · refine Or.inl ⟨hfinds.cell, fun source hs => ?_⟩
    rw [hfinds.sources] at hs
    obtain ⟨child, hchild, rfl⟩ := List.mem_map.1 hs
    obtain ⟨cell, hcell, hm⟩ := Work.exists_cell_of_mem_readings hc hchild
    rwa [Work.cell_of_mem_children hkeyed hm]
  · exact Or.inr ⟨hcell, g, hg, hfinds.cell, hl.sources⟩

theorem descends_runStep (hkeyed : work.chart.Keyed)
    (hd : work.chart.Descends task.parser.grammar) (hlegal : step.Legal task.parser.grammar) :
    (task.runStep work step).chart.Descends task.parser.grammar := by
  obtain ⟨groups, hall, hg⟩ := task.exists_attempts_runStep step hkeyed
  intro key source hb
  rw [Chart.Back, hg.chart, Chart.mem_backPointersOf_addAll] at hb
  rcases hb with hb | ⟨f, hf, rfl, hsource⟩
  · exact hd key source hb
  · rcases cells_of_mem hkeyed hall hf with ⟨hcell, hsources⟩ | ⟨hcell, g, -, htarget, hsources⟩
    · rw [hcell]
      exact hlegal.rank _ (hsources source hsource)
    · rw [hsources, List.mem_singleton] at hsource
      obtain ⟨hanchored, -, hlift⟩ := eq_of_mem_lift? hcell
      rw [hsource, htarget, hlift]
      cases htarget' : step.target with
      | anchored category start stop => exact Grammar.rank_lift_lt
      | floating category depth =>
        rw [htarget'] at hanchored
        cases hanchored

theorem Descends.settle (hd : work.chart.Descends task.parser.grammar) :
    (task.settle work).chart.Descends task.parser.grammar := by
  intro key source hb
  rw [Chart.Back, (task.settles_settle work).chart.backPointersOf] at hb
  exact hd key source hb

variable {useful : CategoryId → Nat → Bool} {table : MeaningTable} {cancelAt : Option Nat}

theorem descends_workAfter (h : task.parser.grammar.Accepted) (n : Nat) :
    (task.workAfter useful table cancelAt n).chart.Descends task.parser.grammar :=
  workAfter_induction_of_wellKept (P := fun w => w.chart.Descends task.parser.grammar)
    (fun _ hsteps _ hstep _ hw hd =>
      descends_runStep hw.keyed hd (legal_of_mem_plan h hsteps hstep))
    (fun _ hd => Descends.settle hd) (fun _ _ hb => nomatch hb) n

theorem sized_run (task : Task) (useful : CategoryId → Nat → Bool) (table : MeaningTable)
    (cancelAt : Option Nat) : (task.runWith useful table cancelAt).chart.Sized := by
  obtain ⟨n, hn⟩ := task.exists_endsAt_run useful table cancelAt
  rw [hn.chart]
  exact (wellKept_workAfter n).sized

/-- Nothing in the chart of a pass is built from itself, however the pass ended. -/
theorem not_transGen_back (task : Task) (useful : CategoryId → Nat → Bool) (table : MeaningTable)
    (cancelAt : Option Nat) (h : task.parser.grammar.Accepted) (key : BackPointer) :
    ¬ TransGen (task.runWith useful table cancelAt).chart.Back key key := by
  obtain ⟨n, hn⟩ := task.exists_endsAt_run useful table cancelAt
  rw [hn.chart]
  exact (descends_workAfter h n).not_transGen key

/-- Any roots have a provenance in the chart of a pass, however the pass ended. -/
theorem exists_provenance (task : Task) (useful : CategoryId → Nat → Bool)
    (cancelAt : Option Nat) (h : task.parser.grammar.Accepted) (ht : table.RefersBack)
    (roots : List BackPointer) :
    ∃ allowed, (task.runWith useful table cancelAt).chart.provenance roots = .ok allowed ∧
      ∀ i, i ∈ allowed.toList ↔ ∃ key, (task.runWith useful table cancelAt).chart.Behind roots key ∧
        i ∈ (task.runWith useful table cancelAt).chart.ingredientsOf key := by
  obtain ⟨n, hn⟩ := task.exists_endsAt_run useful table cancelAt
  rw [hn.chart]
  exact Chart.exists_provenance (sound_workAfter ht n).sized
    (descends_workAfter h n).not_transGen roots

end Task

end GuidedChart
