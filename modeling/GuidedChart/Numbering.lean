import GuidedChart.Coded
import Std.Data.TreeMap.Lemmas

/-!
# Numberings

Distinct items, each with a number: how many items were there before it. An item keeps its number,
and adding it a second time changes nothing.

A numbering is seen as the list of its items (`toList`). Main statements: no item is in the list
twice (`nodup_toList`), the number of an item is its place in the list (`number?_eq_some_iff`), and
an item that is new goes to the end (`toList_insert_of_not_mem`).
-/

namespace GuidedChart

/-- Distinct items, numbered in the order in which they were first added. -/
structure Numbering (α : Type) [Coded α] where
  /-- The items, each at the place of its number. -/
  items : Array α
  numbers : Std.TreeMap (List Nat) Nat
  numbers_iff : ∀ (a : α) (i : Nat), numbers[Coded.code a]? = some i ↔ items[i]? = some a

namespace Numbering

variable {α : Type} [Coded α]

def empty : Numbering α where
  items := #[]
  numbers := ∅
  numbers_iff := by simp

def size (numbering : Numbering α) : Nat :=
  numbering.items.size

def toList (numbering : Numbering α) : List α :=
  numbering.items.toList

def item? (numbering : Numbering α) (number : Nat) : Option α :=
  numbering.items[number]?

def number? (numbering : Numbering α) (a : α) : Option Nat :=
  numbering.numbers[Coded.code a]?

def contains (numbering : Numbering α) (a : α) : Bool :=
  (numbering.number? a).isSome

/-- The numbering with one item more, which is not there yet. -/
def push (numbering : Numbering α) (a : α) (h : numbering.number? a = none) : Numbering α :=
  let number := numbering.items.size
  { items := numbering.items.push a
    numbers := numbering.numbers.insert (Coded.code a) number
    numbers_iff := fun b i => by
      have hb := numbering.numbers_iff b i
      have hn : ∀ k : Nat, numbering.items[k]? ≠ some a := fun k hk => by
        rw [number?, (numbering.numbers_iff a k).2 hk] at h
        exact Option.some_ne_none k h
      rw [Std.TreeMap.getElem?_insert, Array.getElem?_push]
      by_cases he : a = b
      · subst he
        by_cases hi : i = number
        · simp [number, hi]
        · simp [number, hi, hn, Ne.symm hi]
      · have hc : Coded.code a ≠ Coded.code b := fun hc => he (Coded.code_injective hc)
        by_cases hi : i = number
        · subst hi
          simp [number, hc, he, hb]
        · simp [hc, number, hi, hb] }

/-- The numbering with an item, which gets the next number if it is new. -/
def insert (numbering : Numbering α) (a : α) : Numbering α :=
  match h : numbering.number? a with
  | some _ => numbering
  | none => numbering.push a h

def insertAll (numbering : Numbering α) (as : List α) : Numbering α :=
  as.foldl insert numbering

def ofList (as : List α) : Numbering α :=
  empty.insertAll as

/-! ### Numbers and places -/

@[simp]
theorem length_toList (numbering : Numbering α) : numbering.toList.length = numbering.size := by
  simp [toList, size]

theorem item?_eq_getElem?_toList (numbering : Numbering α) (i : Nat) :
    numbering.item? i = numbering.toList[i]? := by
  rw [item?, toList, Array.getElem?_toList]

theorem number?_eq_some_iff {numbering : Numbering α} {a : α} {i : Nat} :
    numbering.number? a = some i ↔ numbering.toList[i]? = some a := by
  rw [← item?_eq_getElem?_toList]
  exact numbering.numbers_iff a i

theorem number?_lt_size {numbering : Numbering α} {a : α} {i : Nat}
    (h : numbering.number? a = some i) : i < numbering.size := by
  rw [← length_toList]
  exact (List.getElem?_eq_some_iff.1 (number?_eq_some_iff.1 h)).1

theorem contains_iff_mem {numbering : Numbering α} {a : α} :
    numbering.contains a = true ↔ a ∈ numbering.toList := by
  rw [contains, Option.isSome_iff_exists, List.mem_iff_getElem?]
  exact exists_congr fun i => number?_eq_some_iff

theorem number?_eq_none_iff {numbering : Numbering α} {a : α} :
    numbering.number? a = none ↔ a ∉ numbering.toList := by
  rw [← contains_iff_mem, contains, Bool.not_eq_true, Option.isSome_eq_false_iff,
    Option.isNone_iff_eq_none]

theorem nodup_toList (numbering : Numbering α) : numbering.toList.Nodup := by
  rw [List.nodup_iff_pairwise_ne, List.pairwise_iff_getElem]
  intro i j hi hj hij he
  have h₁ := number?_eq_some_iff.2 (List.getElem?_eq_getElem hi)
  have h₂ := number?_eq_some_iff.2 (List.getElem?_eq_getElem hj)
  rw [he, h₂] at h₁
  exact absurd (Option.some.inj h₁) (by omega)

/-! ### Adding items -/

@[simp]
theorem toList_empty : (empty : Numbering α).toList = [] := rfl

@[simp]
theorem toList_push (numbering : Numbering α) (a : α) (h : numbering.number? a = none) :
    (numbering.push a h).toList = numbering.toList ++ [a] := by
  simp [push, toList]

theorem number?_push_self (numbering : Numbering α) (a : α) (h : numbering.number? a = none) :
    (numbering.push a h).number? a = some numbering.size := by
  simp [push, number?, size]

theorem number?_push_of_ne (numbering : Numbering α) {a b : α} (h : numbering.number? a = none)
    (hb : a ≠ b) : (numbering.push a h).number? b = numbering.number? b := by
  have hc : Coded.code a ≠ Coded.code b := fun hc => hb (Coded.code_injective hc)
  simp [push, number?, Std.TreeMap.getElem?_insert, hc]

theorem insert_of_mem {numbering : Numbering α} {a : α} (h : a ∈ numbering.toList) :
    numbering.insert a = numbering := by
  unfold insert
  split
  · rfl
  · rename_i hn
    exact absurd h (number?_eq_none_iff.1 hn)

theorem insert_of_number?_eq_none {numbering : Numbering α} {a : α}
    (h : numbering.number? a = none) : numbering.insert a = numbering.push a h := by
  unfold insert
  split
  · rename_i i hi
    exact absurd (hi.symm.trans h) (Option.some_ne_none i)
  · rfl

theorem toList_insert_of_not_mem {numbering : Numbering α} {a : α} (h : a ∉ numbering.toList) :
    (numbering.insert a).toList = numbering.toList ++ [a] := by
  rw [insert_of_number?_eq_none (number?_eq_none_iff.2 h), toList_push]

theorem size_insert_of_not_mem {numbering : Numbering α} {a : α} (h : a ∉ numbering.toList) :
    (numbering.insert a).size = numbering.size + 1 := by
  rw [← length_toList, toList_insert_of_not_mem h, List.length_append, length_toList,
    List.length_singleton]

theorem mem_insert {numbering : Numbering α} {a b : α} :
    b ∈ (numbering.insert a).toList ↔ b ∈ numbering.toList ∨ b = a := by
  by_cases h : a ∈ numbering.toList
  · rw [insert_of_mem h]
    exact ⟨Or.inl, fun hb => hb.elim id fun he => he ▸ h⟩
  · rw [toList_insert_of_not_mem h, List.mem_append, List.mem_singleton]

theorem contains_insert [DecidableEq α] {numbering : Numbering α} {a b : α} :
    (numbering.insert a).contains b = (numbering.contains b || decide (a = b)) := by
  rw [Bool.eq_iff_iff, Bool.or_eq_true, decide_eq_true_iff, contains_iff_mem, contains_iff_mem,
    mem_insert, eq_comm]

theorem mem_insertAll {numbering : Numbering α} {as : List α} {b : α} :
    b ∈ (numbering.insertAll as).toList ↔ b ∈ numbering.toList ∨ b ∈ as := by
  induction as generalizing numbering with
  | nil => simp [insertAll]
  | cons a as ih =>
    rw [insertAll, List.foldl_cons, ← insertAll, ih, mem_insert, List.mem_cons, or_assoc]

theorem mem_ofList {as : List α} {b : α} : b ∈ (ofList as).toList ↔ b ∈ as := by
  simp [ofList, mem_insertAll]

end Numbering

end GuidedChart
