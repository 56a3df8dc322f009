import GuidedChart.Execution
import Mathlib.Algebra.Ring.Int.Defs
import Mathlib.Data.List.Infix

/-!
# Execution and evaluation over the integers

What a formula evaluates to is said by rules that know nothing of errors or of an order of steps:
all arguments evaluate, and the function gives a value for their values. A function that no rule
names gives nothing, nor does one whose arguments have the wrong number or kind. Sums and products
are those of unbounded integers, and their rules ask that what stands after each step of adding or
multiplying, from left to right, is a word of 64 bits. Main statement: execution succeeds with a
value exactly if the formula evaluates to it, and a formula of machine numbers only comes to
machine numbers only (`Formula.execute_eq_ok_iff_evaluates`).
-/

namespace GuidedChart

/-! ## The reference -/

/-- A word of 64 bits in two's complement. -/
def IsWord (n : Int) : Prop :=
  -0x8000000000000000 ≤ n ∧ n < 0x8000000000000000

instance (n : Int) : Decidable (IsWord n) :=
  inferInstanceAs (Decidable (_ ∧ _))

/-- The operands of an arithmetic function: its arguments, or the items of its only argument, and
all of them numbers. -/
inductive Operands : List Value → List Int → Prop
  | arguments (ns : List Int) : Operands (ns.map .number) ns
  | items (ns : List Int) : Operands [.list (ns.map .number)] ns

/-- The value a function of a name gives for arguments. What stands after a step of a sum or a
product is the sum or the product of two operands or more from the left. -/
inductive Gives : String → List Value → Value → Prop
  | sum {args : List Value} {ns : List Int} : Operands args ns → ns ≠ [] →
      (∀ part, part <+: ns → 2 ≤ part.length → IsWord part.sum) →
      Gives "+" args (.number ns.sum)
  | product {args : List Value} {ns : List Int} : Operands args ns → ns ≠ [] →
      (∀ part, part <+: ns → 2 ≤ part.length → IsWord part.prod) →
      Gives "*" args (.number ns.prod)
  -- what stands after a choice is one of the operands, and so no step can leave the words
  | greatest {args : List Value} {ns : List Int} {m : Int} : Operands args ns → m ∈ ns →
      (∀ n ∈ ns, n ≤ m) → Gives "max" args (.number m)
  | least {args : List Value} {ns : List Int} {m : Int} : Operands args ns → m ∈ ns →
      (∀ n ∈ ns, m ≤ n) → Gives "min" args (.number m)
  | negation {args : List Value} {n : Int} : Operands args [n] → IsWord (-n) →
      Gives "-" args (.number (-n))
  | difference {args : List Value} {m n : Int} : Operands args [m, n] → IsWord (m - n) →
      Gives "-" args (.number (m - n))
  | quotient {args : List Value} {m n : Int} : Operands args [m, n] → n ≠ 0 →
      IsWord (m.tdiv n) → Gives "/" args (.number (m.tdiv n))
  | count (items : List Value) : Gives "count" [.list items] (.number items.length)
  | list (args : List Value) : Gives "list" args (.list args)
  | equality (v w : Value) : Gives "=" [v, w] (.bool (v = w))

mutual

/-- The value of a formula over the integers. -/
inductive Formula.Evaluates : Formula → Value → Prop
  | value (v : Value) : Formula.Evaluates (.value v) v
  | call {name : String} {args : List Formula} {values : List Value} {v : Value} :
      Formula.EvaluatesAll args values → Gives name values v →
      Formula.Evaluates (.call name args) v

/-- The values of formulas, one for each. -/
inductive Formula.EvaluatesAll : List Formula → List Value → Prop
  | nil : Formula.EvaluatesAll [] []
  | cons {f : Formula} {fs : List Formula} {v : Value} {vs : List Value} :
      Formula.Evaluates f v → Formula.EvaluatesAll fs vs →
      Formula.EvaluatesAll (f :: fs) (v :: vs)

end

/-- A value a machine can hold: its numbers are words, and so are the lengths of its lists. -/
inductive Value.IsRepresentable : Value → Prop
  | number {n : Int} : IsWord n → Value.IsRepresentable (.number n)
  | bool (b : Bool) : Value.IsRepresentable (.bool b)
  | str (s : String) : Value.IsRepresentable (.str s)
  | entity (name : String) : Value.IsRepresentable (.entity name)
  | list {items : List Value} : IsWord items.length → (∀ v ∈ items, Value.IsRepresentable v) →
      Value.IsRepresentable (.list items)

/-- A formula a machine can hold. -/
inductive Formula.IsRepresentable : Formula → Prop
  | value {v : Value} : v.IsRepresentable → Formula.IsRepresentable (.value v)
  | call (name : String) {args : List Formula} : IsWord args.length →
      (∀ f ∈ args, Formula.IsRepresentable f) → Formula.IsRepresentable (.call name args)

/-! ## Arithmetic on words -/

namespace Operation

theorem inWord_eq_ok_iff {function : String} {n r : Int} :
    inWord function n = .ok r ↔ IsWord n ∧ n = r := by
  unfold inWord IsWord
  cases h : Decimal.word? n with
  | some m =>
    obtain ⟨rfl, hword⟩ := Decimal.word?_eq_some_iff.1 h
    simp [hword]
  | none =>
    have hnot : ¬ (-0x8000000000000000 ≤ n ∧ n < 0x8000000000000000) := fun hword => by
      simp [Decimal.word?_eq_some_iff.2 ⟨rfl, hword⟩] at h
    simp [hnot]

/-- Steps from a number on succeed if what stands after each of them is a word. -/
theorem foldlM_inWord_eq_ok_iff {function : String} {op : Int → Int → Int} {n r : Int}
    {ns : List Int} :
    ns.foldlM (fun m n => inWord function (op m n)) n = .ok r ↔
      (∀ part, part <+: ns → part ≠ [] → IsWord (part.foldl op n)) ∧ ns.foldl op n = r := by
  induction ns generalizing n with
  | nil => simp [pure, Except.pure]
  | cons m ns ih =>
    rw [List.foldlM_cons]
    cases hstep : inWord function (op n m) with
    | error e =>
      have hnot : ¬ IsWord (op n m) := fun hword => by
        simp [inWord_eq_ok_iff.2 ⟨hword, rfl⟩] at hstep
      refine iff_of_false nofun fun h => hnot ?_
      simpa using h.1 [m] (by simp) (by simp)
    | ok k =>
      obtain ⟨hword, rfl⟩ := inWord_eq_ok_iff.1 hstep
      refine ih.trans (and_congr_left fun _ =>
        ⟨fun h part hpart hne => ?_, fun h part hpart hne => ?_⟩)
      · obtain rfl | ⟨rest, rfl, hrest⟩ := List.prefix_cons_iff.1 hpart
        · exact absurd rfl hne
        · obtain rfl | hrestne := eq_or_ne rest []
          · exact hword
          · exact h rest hrest hrestne
      · exact h (m :: part) (List.cons_prefix_cons.2 ⟨rfl, hpart⟩) (by simp)

/-- The numbers add up, or multiply, to a total, and so does every part from the left. -/
theorem combine_inWord_eq_ok_iff {function : String} {op : Int → Int → Int}
    {total : List Int → Int} (htotal : ∀ n ns, total (n :: ns) = ns.foldl op n) {ns : List Int}
    {r : Int} :
    combine function (fun m n => inWord function (op m n)) ns = .ok r ↔
      ns ≠ [] ∧ (∀ part, part <+: ns → 2 ≤ part.length → IsWord (total part)) ∧ total ns = r := by
  cases ns with
  | nil => simp [combine]
  | cons n ns =>
    simp only [combine, foldlM_inWord_eq_ok_iff, htotal, ne_eq, reduceCtorEq, not_false_eq_true,
      true_and]
    refine and_congr_left fun _ => ⟨fun h part hpart hlength => ?_, fun h part hpart hne => ?_⟩
    · obtain rfl | ⟨rest, rfl, hrest⟩ := List.prefix_cons_iff.1 hpart
      · simp at hlength
      · rw [htotal]
        exact h rest hrest (by rintro rfl; simp at hlength)
    · rw [← htotal]
      refine h (n :: part) (List.cons_prefix_cons.2 ⟨rfl, hpart⟩) ?_
      have := List.length_pos_iff.2 hne
      simp only [List.length_cons]
      omega

theorem sum_cons_eq_foldl (n : Int) (ns : List Int) : (n :: ns).sum = ns.foldl (· + ·) n := by
  simp [List.sum_eq_foldl]

theorem prod_cons_eq_foldl (n : Int) (ns : List Int) : (n :: ns).prod = ns.foldl (· * ·) n := by
  simp [List.prod_eq_foldl]

/-- A choice of one of two numbers, made from left to right, never fails. -/
theorem combine_choice_eq_ok_iff {function : String} {choice : Int → Int → Int} {ns : List Int}
    {r : Int} :
    combine function (fun m n => .ok (choice m n)) ns = .ok r ↔
      ∃ n rest, ns = n :: rest ∧ rest.foldl choice n = r := by
  cases ns with
  | nil => simp [combine]
  | cons n rest =>
    have hpure : rest.foldlM (fun m n => (.ok (choice m n) : Except ExecutionError Int)) n =
        .ok (rest.foldl choice n) := List.foldlM_pure
    simp [combine, hpure]

theorem combine_max_eq_ok_iff {function : String} {ns : List Int} {r : Int} :
    combine function (fun m n => .ok (if m ≤ n then n else m)) ns = .ok r ↔
      r ∈ ns ∧ ∀ n ∈ ns, n ≤ r := by
  have hmax : (fun m n : Int => if m ≤ n then n else m) = Max.max := by
    funext m n
    exact (Int.max_def m n).symm
  rw [combine_choice_eq_ok_iff, hmax, ← List.max?_eq_some_iff]
  cases ns with
  | nil => simp
  | cons n rest =>
    rw [List.max?_cons', Option.some.injEq]
    simp

theorem combine_min_eq_ok_iff {function : String} {ns : List Int} {r : Int} :
    combine function (fun m n => .ok (if m ≤ n then m else n)) ns = .ok r ↔
      r ∈ ns ∧ ∀ n ∈ ns, r ≤ n := by
  have hmin : (fun m n : Int => if m ≤ n then m else n) = Min.min := by
    funext m n
    exact (Int.min_def m n).symm
  rw [combine_choice_eq_ok_iff, hmin, ← List.min?_eq_some_iff]
  cases ns with
  | nil => simp
  | cons n rest =>
    rw [List.min?_cons', Option.some.injEq]
    simp

/-! ## Operands -/

theorem numbers_eq_ok_iff {function : String} {vs : List Value} {ns : List Int} :
    numbers function vs = .ok ns ↔ ns.map .number = vs := by
  induction vs generalizing ns with
  | nil => simp [numbers, eq_comm]
  | cons v vs ih =>
    cases v with
    | number n =>
      cases hrest : numbers function vs with
      | error e =>
        refine iff_of_false (by simp [numbers, hrest, Except.map]) fun h => ?_
        obtain ⟨m, ms, rfl, -, hms⟩ := List.map_eq_cons_iff.1 h
        simp [ih.2 hms] at hrest
      | ok ms =>
        have hms : ms.map Value.number = vs := ih.1 hrest
        have hinj : Function.Injective Value.number := fun _ _ h => Value.number.inj h
        rw [numbers, hrest, ← hms, ← List.map_cons, (List.map_injective_iff.2 hinj).eq_iff]
        simp [Except.map, eq_comm]
    | _ =>
      refine iff_of_false nofun fun h => ?_
      obtain ⟨m, ms, -, hv, -⟩ := List.map_eq_cons_iff.1 h
      exact nomatch hv

theorem numbers_operands_eq_ok_iff {function : String} {args : List Value} {ns : List Int} :
    numbers function (operands args) = .ok ns ↔ Operands args ns := by
  rw [numbers_eq_ok_iff]
  constructor
  · intro h
    unfold operands at h
    split at h
    · exact h ▸ .items ns
    · exact h ▸ .arguments ns
  · rintro (_ | _)
    · unfold operands
      split
      · rename_i items hitems
        obtain ⟨m, ms, -, hv, -⟩ := List.map_eq_cons_iff.1 hitems
        exact nomatch hv
      · rfl
    · rfl

theorem apply_eq_ok_iff {op : Operation} {args : List Value} {v : Value} :
    op.apply args = .ok v ↔
      ∃ ns r, Operands args ns ∧ op.onNumbers ns = .ok r ∧ .number r = v := by
  unfold apply
  cases hnumbers : numbers op.name (operands args) with
  | error e =>
    refine iff_of_false nofun ?_
    rintro ⟨ns, r, hargs, -⟩
    simp [numbers_operands_eq_ok_iff.2 hargs] at hnumbers
  | ok ns =>
    have hargs : ∀ ms, Operands args ms ↔ ns = ms := fun ms => by
      rw [← numbers_operands_eq_ok_iff, hnumbers, Except.ok.injEq]
    cases hr : op.onNumbers ns <;> simp [hargs, hr, bind, Except.bind, pure, Except.pure]

theorem sub_eq_ok_iff {ns : List Int} {r : Int} :
    sub.onNumbers ns = .ok r ↔
      (∃ n, ns = [n] ∧ IsWord (-n) ∧ -n = r) ∨
        ∃ m n, ns = [m, n] ∧ IsWord (m - n) ∧ m - n = r := by
  match ns with
  | [] => simp [onNumbers]
  | [n] => simp [onNumbers, inWord_eq_ok_iff]
  | [m, n] => simp [onNumbers, inWord_eq_ok_iff]
  | _ :: _ :: _ :: _ => simp [onNumbers]

theorem div_eq_ok_iff {ns : List Int} {r : Int} :
    div.onNumbers ns = .ok r ↔
      ∃ m n, ns = [m, n] ∧ n ≠ 0 ∧ IsWord (m.tdiv n) ∧ m.tdiv n = r := by
  match ns with
  | [] | [_] => simp [onNumbers]
  | [m, n] => by_cases hn : n = 0 <;> simp [onNumbers, inWord_eq_ok_iff, hn]
  | _ :: _ :: _ :: _ => simp [onNumbers]

end Operation

/-! ## Functions -/

namespace Builtin

theorem count_eq_ok_iff {args : List Value} {v : Value} :
    count.apply args = .ok v ↔ ∃ items, args = [.list items] ∧ .number items.length = v := by
  match args with
  | [.list _] | [.number _] | [.bool _] | [.str _] | [.entity _] | [] | _ :: _ :: _ =>
    simp [apply]

theorem eq_eq_ok_iff {args : List Value} {v : Value} :
    eq.apply args = .ok v ↔ ∃ x y, args = [x, y] ∧ .bool (x = y) = v := by
  match args with
  | [_, _] | [] | [_] | _ :: _ :: _ :: _ => simp [apply]

theorem gives_of_apply {b : Builtin} {args : List Value} {v : Value} (h : b.apply args = .ok v) :
    Gives b.name args v := by
  cases b with
  | arithmetic op =>
    obtain ⟨ns, r, hargs, hr, rfl⟩ := Operation.apply_eq_ok_iff.1 h
    cases op with
    | add =>
      obtain ⟨hne, hsteps, rfl⟩ :=
        (Operation.combine_inWord_eq_ok_iff Operation.sum_cons_eq_foldl).1 hr
      exact .sum hargs hne hsteps
    | mul =>
      obtain ⟨hne, hsteps, rfl⟩ :=
        (Operation.combine_inWord_eq_ok_iff Operation.prod_cons_eq_foldl).1 hr
      exact .product hargs hne hsteps
    | max =>
      obtain ⟨hmem, hle⟩ := Operation.combine_max_eq_ok_iff.1 hr
      exact .greatest hargs hmem hle
    | min =>
      obtain ⟨hmem, hle⟩ := Operation.combine_min_eq_ok_iff.1 hr
      exact .least hargs hmem hle
    | sub =>
      obtain ⟨n, rfl, hword, rfl⟩ | ⟨m, n, rfl, hword, rfl⟩ := Operation.sub_eq_ok_iff.1 hr
      · exact .negation hargs hword
      · exact .difference hargs hword
    | div =>
      obtain ⟨m, n, rfl, hn, hword, rfl⟩ := Operation.div_eq_ok_iff.1 hr
      exact .quotient hargs hn hword
  | count =>
    obtain ⟨items, rfl, rfl⟩ := count_eq_ok_iff.1 h
    exact .count items
  | list =>
    cases h
    exact .list args
  | eq =>
    obtain ⟨x, y, rfl, rfl⟩ := eq_eq_ok_iff.1 h
    exact .equality x y

theorem apply_of_gives {name : String} {args : List Value} {v : Value} (h : Gives name args v) :
    ∃ b, ofName? name = some b ∧ b.apply args = .ok v := by
  have harithmetic (op : Operation) {ns : List Int} {r : Int} (hargs : Operands args ns)
      (hr : op.onNumbers ns = .ok r) :
      ∃ b, ofName? op.name = some b ∧ b.apply args = .ok (.number r) :=
    ⟨.arithmetic op, ofName?_name (.arithmetic op),
      Operation.apply_eq_ok_iff.2 ⟨ns, r, hargs, hr, rfl⟩⟩
  cases h with
  | sum hargs hne hsteps =>
    exact harithmetic .add hargs
      ((Operation.combine_inWord_eq_ok_iff Operation.sum_cons_eq_foldl).2 ⟨hne, hsteps, rfl⟩)
  | product hargs hne hsteps =>
    exact harithmetic .mul hargs
      ((Operation.combine_inWord_eq_ok_iff Operation.prod_cons_eq_foldl).2 ⟨hne, hsteps, rfl⟩)
  | greatest hargs hmem hle =>
    exact harithmetic .max hargs (Operation.combine_max_eq_ok_iff.2 ⟨hmem, hle⟩)
  | least hargs hmem hle =>
    exact harithmetic .min hargs (Operation.combine_min_eq_ok_iff.2 ⟨hmem, hle⟩)
  | negation hargs hword =>
    exact harithmetic .sub hargs (Operation.sub_eq_ok_iff.2 (.inl ⟨_, rfl, hword, rfl⟩))
  | difference hargs hword =>
    exact harithmetic .sub hargs
      (Operation.sub_eq_ok_iff.2 (.inr ⟨_, _, rfl, hword, rfl⟩))
  | quotient hargs hn hword =>
    exact harithmetic .div hargs
      (Operation.div_eq_ok_iff.2 ⟨_, _, rfl, hn, hword, rfl⟩)
  | count items => exact ⟨.count, ofName?_name .count, rfl⟩
  | list => exact ⟨.list, ofName?_name .list, rfl⟩
  | equality v w => exact ⟨.eq, ofName?_name .eq, rfl⟩

end Builtin

/-! ## Formulas -/

namespace Formula

theorem execute_call_eq_ok_iff {name : String} {args : List Formula} {v : Value} :
    (call name args).execute = .ok v ↔
      ∃ values, executeAll args = .ok values ∧ Gives name values v := by
  rw [execute_call]
  cases executeAll args with
  | error e => simp [Except.bind]
  | ok values =>
    simp only [Except.bind, Except.ok.injEq, exists_eq_left']
    constructor
    · intro h
      split at h
      · rename_i b hb
        have hname : b.name = name := by simpa using List.find?_some hb
        exact hname ▸ Builtin.gives_of_apply h
      · cases h
    · intro h
      obtain ⟨b, hb, hv⟩ := Builtin.apply_of_gives h
      rw [hb]
      exact hv

mutual

theorem execute_eq_ok_iff : (f : Formula) → {v : Value} → (f.execute = .ok v ↔ f.Evaluates v)
  | .value w, v => by
    rw [execute_value, Except.ok.injEq]
    constructor
    · rintro rfl
      exact .value w
    · rintro ⟨_⟩
      rfl
  | .call name args, v => by
    rw [execute_call_eq_ok_iff]
    constructor
    · rintro ⟨values, hvalues, hv⟩
      exact .call ((executeAll_eq_ok_iff args).1 hvalues) hv
    · rintro (_ | ⟨hvalues, hv⟩)
      exact ⟨_, (executeAll_eq_ok_iff args).2 hvalues, hv⟩

theorem executeAll_eq_ok_iff :
    (fs : List Formula) → {vs : List Value} → (executeAll fs = .ok vs ↔ EvaluatesAll fs vs)
  | [], vs => by
    simp only [executeAll, Except.ok.injEq]
    constructor
    · rintro rfl
      exact .nil
    · rintro ⟨⟩
      rfl
  | f :: fs, vs => by
    have hf {v : Value} : f.execute = .ok v ↔ f.Evaluates v := execute_eq_ok_iff f
    have hfs {vs : List Value} : executeAll fs = .ok vs ↔ EvaluatesAll fs vs :=
      executeAll_eq_ok_iff fs
    simp only [executeAll]
    constructor
    · intro h
      cases hv : f.execute with
      | error e => simp [hv, bind, Except.bind] at h
      | ok v =>
        cases hvs : executeAll fs with
        | error e => simp [hv, hvs, bind, Except.bind] at h
        | ok rest =>
          simp only [hv, hvs, bind, Except.bind, pure, Except.pure, Except.ok.injEq] at h
          exact h ▸ .cons (hf.1 hv) (hfs.1 hvs)
    · rintro (_ | ⟨hv, hvs⟩)
      simp [hf.2 hv, hfs.2 hvs, bind, Except.bind, pure, Except.pure]

end

end Formula

/-! ## Machine numbers -/

theorem Operands.isWord {args : List Value} {ns : List Int} (h : Operands args ns)
    (hargs : ∀ v ∈ args, v.IsRepresentable) : ∀ n ∈ ns, IsWord n := by
  have hnumbers (hns : ∀ v ∈ ns.map Value.number, v.IsRepresentable) : ∀ n ∈ ns, IsWord n := by
    intro n hn
    cases hns _ (List.mem_map_of_mem hn) with
    | number hword => exact hword
  cases h with
  | arguments => exact hnumbers hargs
  | items =>
    cases hargs _ (List.mem_singleton_self _) with
    | list _ hitems => exact hnumbers hitems

/-- A total is a word if the first number is one and every part of two numbers or more comes to
one. -/
theorem isWord_total {total : List Int → Int} {ns : List Int} (hone : ∀ n, total [n] = n)
    (hne : ns ≠ []) (hparts : ∀ part, part <+: ns → 2 ≤ part.length → IsWord (total part))
    (hns : ∀ n ∈ ns, IsWord n) : IsWord (total ns) := by
  match ns with
  | [n] =>
    rw [hone]
    exact hns n (by simp)
  | _ :: _ :: _ => exact hparts _ (List.prefix_refl _) (by simp)

theorem Gives.isRepresentable {name : String} {args : List Value} {v : Value}
    (h : Gives name args v) (hlength : IsWord args.length)
    (hargs : ∀ w ∈ args, w.IsRepresentable) : v.IsRepresentable := by
  cases h with
  | sum hoperands hne hparts =>
    exact .number (isWord_total (fun n => by simp) hne hparts (hoperands.isWord hargs))
  | product hoperands hne hparts =>
    exact .number (isWord_total (fun n => by simp) hne hparts (hoperands.isWord hargs))
  | greatest hoperands hm => exact .number (hoperands.isWord hargs _ hm)
  | least hoperands hm => exact .number (hoperands.isWord hargs _ hm)
  | negation _ hword => exact .number hword
  | difference _ hword => exact .number hword
  | quotient _ _ hword => exact .number hword
  | count items =>
    cases hargs _ (List.mem_singleton_self _) with
    | list hcount _ => exact .number hcount
  | list => exact .list hlength hargs
  | equality x y => exact .bool _

namespace Formula

theorem EvaluatesAll.length_eq {fs : List Formula} {vs : List Value} (h : EvaluatesAll fs vs) :
    vs.length = fs.length := by
  induction fs generalizing vs with
  | nil =>
    obtain ⟨⟩ := h
    rfl
  | cons f fs ih =>
    obtain _ | ⟨_, hvs⟩ := h
    simp [ih hvs]

mutual

theorem Evaluates.isRepresentable :
    {f : Formula} → {v : Value} → f.Evaluates v → f.IsRepresentable → v.IsRepresentable
  | _, _, .value _, .value hv => hv
  | _, _, .call hvalues hgives, .call _ hlength hargs =>
    hgives.isRepresentable (hvalues.length_eq ▸ hlength) (hvalues.isRepresentable hargs)

theorem EvaluatesAll.isRepresentable :
    {fs : List Formula} → {vs : List Value} → EvaluatesAll fs vs →
      (∀ f ∈ fs, f.IsRepresentable) → ∀ v ∈ vs, v.IsRepresentable
  | _, _, .nil, _ => by simp
  | _, _, .cons hv hvs, hfs =>
    List.forall_mem_cons.2 ⟨hv.isRepresentable (hfs _ List.mem_cons_self),
      hvs.isRepresentable fun f hf => hfs f (List.mem_cons_of_mem _ hf)⟩

end

/-- Execution succeeds with a value exactly if the formula evaluates to it over the integers, with
no step of its arithmetic outside a word; and what comes of machine numbers are machine
numbers. -/
theorem execute_eq_ok_iff_evaluates (f : Formula) (v : Value) :
    (f.execute = .ok v ↔ f.Evaluates v) ∧
      (f.IsRepresentable → f.execute = .ok v → v.IsRepresentable) :=
  ⟨f.execute_eq_ok_iff, fun hf hv => (f.execute_eq_ok_iff.1 hv).isRepresentable hf⟩

/-- A product that is the least word, and the greatest word added to it. -/
def atTheEdge : Formula :=
  .call "+"
    [.call "*" [.value (.number (-0x4000000000000000)), .value (.number 2)],
      .value (.number 0x7fffffffffffffff)]

theorem atTheEdge_isRepresentable : atTheEdge.IsRepresentable := by
  have hnumber {n : Int} (hn : IsWord n) : (Formula.value (.number n)).IsRepresentable :=
    .value (.number hn)
  have hproduct : (Formula.call "*"
      [.value (.number (-0x4000000000000000)), .value (.number 2)]).IsRepresentable :=
    .call _ (by decide) (by simpa using ⟨hnumber (by decide), hnumber (by decide)⟩)
  exact .call _ (by decide) (by simpa using ⟨hproduct, hnumber (by decide)⟩)

theorem execute_eq_ok_iff_evaluates_atTheEdge :
    atTheEdge.IsRepresentable ∧ atTheEdge.execute = .ok (.number (-1)) ∧
      atTheEdge.Evaluates (.number (-1)) ∧ (Value.number (-1)).IsRepresentable := by
  have hvalue : atTheEdge.execute = .ok (.number (-1)) := by rfl
  have h := execute_eq_ok_iff_evaluates atTheEdge (.number (-1))
  exact ⟨atTheEdge_isRepresentable, hvalue, h.1.1 hvalue, h.2 atTheEdge_isRepresentable hvalue⟩

/-- A sum that is a word has no value if it leaves the words on the way. -/
example (v : Value) :
    ¬ (Formula.call "+" [.value (.number 0x7fffffffffffffff), .value (.number 1),
      .value (.number (-1))]).Evaluates v := by
  rw [← execute_eq_ok_iff]
  exact nofun

end Formula

end GuidedChart
