/-
# Hash maps of counters that hand out references

A kernel hash map returns from a lookup a reference to the element it finds, and
the element can be replaced or removed while the reference is held.  Elements
are told apart by a stamp, given out in the order of their creation: a reference
is the stamp of its element, and it is live as long as the map holds an element
with that stamp under the key.  An addition through a reference that is not live
goes to memory no later operation reads.

Every operation is one atomic step.  Its law is an account of the value under
the key: what it adds is found again, up to a loss that the state before it
determines (`valueAt_fetchAndAdd`, `valueAt_updateElem`).
-/
import Mathlib

namespace ElemMap

/-- An element: its stamp and its counter. -/
structure Elem : Type where
  stamp : ℕ
  value : UInt64
  deriving DecidableEq, Repr

/-- A map: the elements it holds, and the stamp of the next one. -/
structure Map (K : Type) : Type where
  elems : Finmap fun _ : K => Elem
  next : ℕ

variable {K : Type} [DecidableEq K]

/-! ## Operations -/

/-- The map without elements. -/
def Map.empty : Map K := ⟨∅, 0⟩

/-- A reference to the element of a key, if there is one. -/
def Map.lookupElem (m : Map K) (k : K) : Option ℕ := (m.elems.lookup k).map Elem.stamp

/-- An atomic addition through a reference to an element of the key. -/
def Map.fetchAndAdd (m : Map K) (k : K) (stamp : ℕ) (x : UInt64) : Map K :=
  match m.elems.lookup k with
  | some elem =>
      if elem.stamp = stamp then
        { m with elems := m.elems.insert k { elem with value := elem.value + x } }
      else m
  | none => m

/-- An insertion or an overwriting, with a new element.  It fails for a new key
when the map holds `maxEntries` elements. -/
def Map.updateElem (maxEntries : ℕ) (m : Map K) (k : K) (x : UInt64) : Map K :=
  if k ∈ m.elems ∨ m.elems.keys.card < maxEntries then
    { elems := m.elems.insert k ⟨m.next, x⟩, next := m.next + 1 }
  else m

/-- A removal, with the value removed. -/
def Map.lookupAndDelete (m : Map K) (k : K) : Option UInt64 × Map K :=
  match m.elems.lookup k with
  | some elem => (some elem.value, { m with elems := m.elems.erase k })
  | none => (none, m)

/-! ## Accounts -/

/-- The value under a key, zero when there is none. -/
def Map.valueAt (m : Map K) (k : K) : ℕ :=
  match m.elems.lookup k with
  | some elem => elem.value.toNat
  | none => 0

/-- What an addition loses: all of it when the reference is not live, and
`2 ^ 64` when the counter wraps around. -/
def Map.lostByAdd (m : Map K) (k : K) (stamp : ℕ) (x : UInt64) : ℕ :=
  match m.elems.lookup k with
  | some elem =>
      if elem.stamp = stamp then
        if elem.value.toNat + x.toNat < 2 ^ 64 then 0 else 2 ^ 64
      else x.toNat
  | none => x.toNat

/-- What an update loses: the value it overwrites, or all of it when it fails. -/
def Map.lostByUpdate (maxEntries : ℕ) (m : Map K) (k : K) (x : UInt64) : ℕ :=
  match m.elems.lookup k with
  | some elem => elem.value.toNat
  | none => if m.elems.keys.card < maxEntries then 0 else x.toNat

/-- An addition loses nothing exactly if it adds nothing, or goes to a live element
without a wrap-around. -/
theorem lostByAdd_eq_zero_iff {m : Map K} {k : K} {stamp : ℕ} {x : UInt64} :
    m.lostByAdd k stamp x = 0 ↔ x = 0 ∨ ∃ elem, m.elems.lookup k = some elem
      ∧ elem.stamp = stamp ∧ elem.value.toNat + x.toNat < 2 ^ 64 := by
  have hx : x.toNat = 0 ↔ x = 0 := by rw [← UInt64.toNat_inj, UInt64.toNat_zero]
  unfold Map.lostByAdd
  cases m.elems.lookup k with
  | none => simp [hx]
  | some elem =>
      have helem : elem.value.toNat < 2 ^ 64 := elem.value.toNat_lt
      simp only [Option.some.injEq, exists_eq_left', ← hx]
      split_ifs with hlive hwrap
      · simp only [hlive, hwrap, and_self, or_true]
      · -- a wrap-around loses even though the reference is live, so `x` is not zero
        simp only [hlive, hwrap, and_false, or_false]
        exact iff_of_false (by norm_num) (by omega)
      · simp only [hlive, false_and, or_false]

/-- An update loses nothing exactly if it overwrites no value and does not fail
with one to insert. -/
theorem lostByUpdate_eq_zero_iff {maxEntries : ℕ} {m : Map K} {k : K} {x : UInt64} :
    m.lostByUpdate maxEntries k x = 0
      ↔ (∀ elem, m.elems.lookup k = some elem → elem.value = 0)
        ∧ (k ∉ m.elems → m.elems.keys.card < maxEntries ∨ x = 0) := by
  have hzero (y : UInt64) : y.toNat = 0 ↔ y = 0 := by rw [← UInt64.toNat_inj, UInt64.toNat_zero]
  unfold Map.lostByUpdate
  cases hlookup : m.elems.lookup k with
  | none =>
      have hmem : k ∉ m.elems := Finmap.lookup_eq_none.1 hlookup
      by_cases hroom : m.elems.keys.card < maxEntries <;> simp [hroom, hmem, hzero]
  | some elem =>
      have hmem : k ∈ m.elems := Finmap.mem_of_lookup_eq_some hlookup
      simp [hmem, hzero]

/-- Inserting an element puts its value under its key, and leaves the others. -/
theorem valueAt_insert (elems : Finmap fun _ : K => Elem) (next : ℕ) (k k' : K) (elem : Elem) :
    (Map.mk (elems.insert k elem) next).valueAt k'
      = if k' = k then elem.value.toNat else (Map.mk elems next).valueAt k' := by
  unfold Map.valueAt
  by_cases h : k' = k
  · rw [if_pos h, h, Finmap.lookup_insert]
  · rw [if_neg h, Finmap.lookup_insert_of_ne _ h]

/-- The account of an addition. -/
theorem valueAt_fetchAndAdd (m : Map K) (k : K) (stamp : ℕ) (x : UInt64) :
    (m.fetchAndAdd k stamp x).valueAt k + m.lostByAdd k stamp x = m.valueAt k + x.toNat := by
  unfold Map.fetchAndAdd Map.lostByAdd
  cases hlookup : m.elems.lookup k with
  | none => rfl
  | some elem =>
      have hvalue : m.valueAt k = elem.value.toNat := by rw [Map.valueAt, hlookup]
      by_cases hlive : elem.stamp = stamp
      · have helem : elem.value.toNat < 2 ^ 64 := elem.value.toNat_lt
        have hx : x.toNat < 2 ^ 64 := x.toNat_lt
        simp only [if_pos hlive, valueAt_insert, hvalue, UInt64.toNat_add]
        split_ifs <;> omega
      · simp only [if_neg hlive]

theorem valueAt_fetchAndAdd_ne (m : Map K) {k k' : K} (stamp : ℕ) (x : UInt64) (h : k' ≠ k) :
    (m.fetchAndAdd k stamp x).valueAt k' = m.valueAt k' := by
  unfold Map.fetchAndAdd
  cases m.elems.lookup k with
  | none => rfl
  | some elem =>
      dsimp only
      split_ifs
      · rw [valueAt_insert, if_neg h]
      · rfl

/-- The account of an update. -/
theorem valueAt_updateElem (maxEntries : ℕ) (m : Map K) (k : K) (x : UInt64) :
    (m.updateElem maxEntries k x).valueAt k + m.lostByUpdate maxEntries k x
      = m.valueAt k + x.toNat := by
  unfold Map.updateElem Map.lostByUpdate
  cases hlookup : m.elems.lookup k with
  | some elem =>
      have hvalue : m.valueAt k = elem.value.toNat := by rw [Map.valueAt, hlookup]
      have hmem : k ∈ m.elems := Finmap.mem_of_lookup_eq_some hlookup
      rw [if_pos (Or.inl hmem), valueAt_insert, if_pos rfl, hvalue, Nat.add_comm]
  | none =>
      have hvalue : m.valueAt k = 0 := by rw [Map.valueAt, hlookup]
      have hmem : k ∉ m.elems := Finmap.lookup_eq_none.1 hlookup
      by_cases hroom : m.elems.keys.card < maxEntries
      · simp only [if_pos (Or.inr hroom), valueAt_insert, ↓reduceIte, if_pos hroom, hvalue,
          Nat.zero_add, Nat.add_zero]
      · simp only [if_neg (not_or.2 ⟨hmem, hroom⟩), if_neg hroom]

theorem valueAt_updateElem_ne (maxEntries : ℕ) (m : Map K) {k k' : K} (x : UInt64)
    (h : k' ≠ k) : (m.updateElem maxEntries k x).valueAt k' = m.valueAt k' := by
  unfold Map.updateElem
  split_ifs
  · rw [valueAt_insert, if_neg h]
    rfl
  · rfl

/-- The account of a removal: the value removed is the value that was there. -/
theorem valueAt_lookupAndDelete (m : Map K) (k k' : K) :
    (m.lookupAndDelete k).2.valueAt k'
        + (if k' = k then ((m.lookupAndDelete k).1.map UInt64.toNat).getD 0 else 0)
      = m.valueAt k' := by
  unfold Map.lookupAndDelete Map.valueAt
  cases hlookup : m.elems.lookup k with
  | none => by_cases h : k' = k <;> simp [h]
  | some elem =>
      by_cases h : k' = k
      · subst h
        simp [hlookup]
      · simp [h]

/-! ## Totals -/

/-- All values of a map, added up. -/
def Map.total (m : Map K) : ℕ := ∑ k ∈ m.elems.keys, m.valueAt k

/-- Keys without an element play no part. -/
theorem total_eq_sum {m : Map K} {keys : Finset K} (h : m.elems.keys ⊆ keys) :
    m.total = ∑ k ∈ keys, m.valueAt k := by
  refine Finset.sum_subset h fun k _ hk => ?_
  have hnone : m.elems.lookup k = none := Finmap.lookup_eq_none.2 fun hmem => hk (Finmap.mem_keys.2 hmem)
  rw [Map.valueAt, hnone]

/-- A map that has more under one key only has so much more in total. -/
theorem total_le_add {m m' : Map K} {k : K} {x : ℕ}
    (h : ∀ k', m'.valueAt k' ≤ m.valueAt k' + if k = k' then x else 0) :
    m'.total ≤ m.total + x := by
  let keys : Finset K := insert k (m.elems.keys ∪ m'.elems.keys)
  have hm : m.elems.keys ⊆ keys := Finset.subset_union_left.trans (Finset.subset_insert _ _)
  have hm' : m'.elems.keys ⊆ keys := Finset.subset_union_right.trans (Finset.subset_insert _ _)
  have hx : ∑ k' ∈ keys, (if k = k' then x else 0) = x := by
    rw [Finset.sum_ite_eq, if_pos (Finset.mem_insert_self k _)]
  rw [total_eq_sum hm, total_eq_sum hm', ← hx, ← Finset.sum_add_distrib]
  exact Finset.sum_le_sum fun k' _ => h k'

/-- A removal takes what it returns out of the total. -/
theorem total_lookupAndDelete (m : Map K) (k : K) :
    (m.lookupAndDelete k).2.total + ((m.lookupAndDelete k).1.map UInt64.toNat).getD 0
      = m.total := by
  let keys : Finset K := insert k (m.elems.keys ∪ (m.lookupAndDelete k).2.elems.keys)
  have hm : m.elems.keys ⊆ keys := Finset.subset_union_left.trans (Finset.subset_insert _ _)
  have hm' : (m.lookupAndDelete k).2.elems.keys ⊆ keys :=
    Finset.subset_union_right.trans (Finset.subset_insert _ _)
  rw [total_eq_sum hm, total_eq_sum hm',
    ← Finset.sum_congr rfl fun k' _ => valueAt_lookupAndDelete m k k', Finset.sum_add_distrib,
    Finset.sum_ite_eq', if_pos (Finset.mem_insert_self k _)]

end ElemMap
