import GuidedChart.Coded
import GuidedChart.Value.Basic

/-!
# Codes of values

The code of a value begins with its kind and says how long the rest of it is, so a code is never the
beginning of another one. Main statement: whatever follows two codes, the values are told apart
(`code_append_inj`).
-/

namespace GuidedChart.Value

/-- The code points of a text, after their number. -/
def codeText (s : String) : List Nat :=
  s.toList.length :: s.toList.map Char.toNat

mutual

def code : Value → List Nat
  | .number (.ofNat n) => [0, n]
  | .number (.negSucc n) => [1, n]
  | .bool false => [2]
  | .bool true => [3]
  | .str s => 4 :: codeText s
  | .entity name => 5 :: codeText name
  | .list items => 6 :: items.length :: codeAll items

def codeAll : List Value → List Nat
  | [] => []
  | v :: vs => code v ++ codeAll vs

end

theorem codeText_append_inj {s t : String} {xs ys : List Nat}
    (h : codeText s ++ xs = codeText t ++ ys) : s = t ∧ xs = ys := by
  simp only [codeText, List.cons_append, List.cons.injEq] at h
  have hs := List.append_inj h.2 (by rw [List.length_map, List.length_map, h.1])
  exact ⟨String.toList_inj.1 (List.map_inj_right (fun _ _ => Char.toNat_inj.1) |>.1 hs.1), hs.2⟩

theorem code_number_append_inj {n : Int} {w : Value} {xs ys : List Nat}
    (h : code (.number n) ++ xs = code w ++ ys) : .number n = w ∧ xs = ys := by
  cases n <;> cases w with
  | number m => cases m <;> simp_all [code]
  | bool b => cases b <;> simp_all [code]
  | _ => simp_all [code]

theorem code_bool_append_inj {b : Bool} {w : Value} {xs ys : List Nat}
    (h : code (.bool b) ++ xs = code w ++ ys) : .bool b = w ∧ xs = ys := by
  cases b <;> cases w with
  | number m => cases m <;> simp_all [code]
  | bool c => cases c <;> simp_all [code]
  | _ => simp_all [code]

theorem code_str_append_inj {s : String} {w : Value} {xs ys : List Nat}
    (h : code (.str s) ++ xs = code w ++ ys) : .str s = w ∧ xs = ys := by
  cases w with
  | number m => cases m <;> simp_all [code]
  | bool c => cases c <;> simp_all [code]
  | str t =>
    simp only [code, List.cons_append, List.cons.injEq, true_and] at h
    simpa using codeText_append_inj h
  | _ => simp_all [code]

theorem code_entity_append_inj {s : String} {w : Value} {xs ys : List Nat}
    (h : code (.entity s) ++ xs = code w ++ ys) : .entity s = w ∧ xs = ys := by
  cases w with
  | number m => cases m <;> simp_all [code]
  | bool c => cases c <;> simp_all [code]
  | entity t =>
    simp only [code, List.cons_append, List.cons.injEq, true_and] at h
    simpa using codeText_append_inj h
  | _ => simp_all [code]

mutual

/-- Two values with one code are one value, whatever follows their codes. -/
theorem code_append_inj (v : Value) {w : Value} {xs ys : List Nat}
    (h : code v ++ xs = code w ++ ys) : v = w ∧ xs = ys := by
  match v with
  | .number _ => exact code_number_append_inj h
  | .bool _ => exact code_bool_append_inj h
  | .str _ => exact code_str_append_inj h
  | .entity _ => exact code_entity_append_inj h
  | .list items =>
    cases w with
    | number m => cases m <;> simp_all [code]
    | bool c => cases c <;> simp_all [code]
    | list others =>
      simp only [code, List.cons_append, List.cons.injEq, true_and] at h
      have hitems := codeAll_append_inj items h.1 h.2
      exact ⟨congrArg _ hitems.1, hitems.2⟩
    | _ => simp_all [code]

theorem codeAll_append_inj (vs : List Value) {ws : List Value} {xs ys : List Nat}
    (hlen : vs.length = ws.length) (h : codeAll vs ++ xs = codeAll ws ++ ys) :
    vs = ws ∧ xs = ys := by
  match vs, ws with
  | [], [] => exact ⟨rfl, h⟩
  | v :: vs, w :: ws =>
    simp only [codeAll, List.append_assoc] at h
    have hv := code_append_inj v h
    have hvs := codeAll_append_inj vs (Nat.succ.inj hlen) hv.2
    exact ⟨by rw [hv.1, hvs.1], hvs.2⟩

end

instance : Coded Value where
  code := code
  code_injective {v w} h := by
    rw [← List.append_nil (code v), ← List.append_nil (code w)] at h
    exact (code_append_inj v h).1

end GuidedChart.Value
