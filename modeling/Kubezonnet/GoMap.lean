/-
# Go maps

A Go map is a finite map; two maps are equal when every lookup agrees.  A
`range` loop visits the entries in an order the language leaves open, so a loop
over a map is a fold whose step commutes with itself, and its result does not
depend on the order.

`deleteWhere` is the loop that deletes some of the entries it ranges over, and
`addTo` is the update `m[k] += x` of a map of counters.
-/
import Mathlib

/-- A Go map from `K` to `V`. -/
abbrev GoMap (K V : Type) : Type := Finmap (fun _ : K => V)

namespace GoMap

variable {K V : Type} [DecidableEq K]

/-! ## Lookups after an update -/

/-- A lookup after an insertion. -/
theorem lookup_insert_ite (m : GoMap K V) (k k' : K) (v : V) :
    (m.insert k v).lookup k' = if k' = k then some v else m.lookup k' := by
  by_cases h : k' = k
  · rw [if_pos h, h, Finmap.lookup_insert]
  · rw [if_neg h, Finmap.lookup_insert_of_ne _ h]

/-- A lookup after a deletion. -/
theorem lookup_erase_ite (m : GoMap K V) (k k' : K) :
    (m.erase k).lookup k' = if k' = k then none else m.lookup k' := by
  by_cases h : k' = k
  · rw [if_pos h, h, Finmap.lookup_erase]
  · rw [if_neg h, Finmap.lookup_erase_ne h]

/-! ## Deleting while ranging -/

/-- One iteration of a loop that deletes the entries satisfying `p`. -/
def deleteStep (p : K → V → Bool) (acc : GoMap K V) (k : K) (v : V) : GoMap K V :=
  if p k v then acc.erase k else acc

/-- The iterations of a deleting loop commute. -/
theorem deleteStep_comm (p : K → V → Bool) (acc : GoMap K V) (k₁ : K) (v₁ : V)
    (k₂ : K) (v₂ : V) :
    deleteStep p (deleteStep p acc k₁ v₁) k₂ v₂
      = deleteStep p (deleteStep p acc k₂ v₂) k₁ v₁ := by
  unfold deleteStep
  split_ifs
  · exact Finmap.erase_erase
  all_goals rfl

/-- `for k, v := range m { if p(k, v) { delete(m, k) } }`. -/
def deleteWhere (m : GoMap K V) (p : K → V → Bool) : GoMap K V :=
  m.foldl (deleteStep p) (deleteStep_comm p) m

/-- A lookup after the deleting loop has gone through a list of entries. -/
theorem lookup_foldl_deleteStep (p : K → V → Bool) (es : List (Sigma fun _ : K => V))
    (acc : GoMap K V) (k : K) :
    (es.foldl (fun m e => deleteStep p m e.1 e.2) acc).lookup k
      = if es.any (fun e => decide (e.1 = k) && p e.1 e.2) then none else acc.lookup k := by
  induction es generalizing acc with
  | nil => simp
  | cons e es ih =>
      rw [List.foldl_cons, ih, List.any_cons]
      by_cases hes : es.any (fun e => decide (e.1 = k) && p e.1 e.2)
      · simp [hes]
      · rw [if_neg hes, deleteStep]
        by_cases hk : e.1 = k
        · cases hp : p e.1 e.2 <;> simp [hk, hes]
        · have hne : k ≠ e.1 := Ne.symm hk
          cases hp : p e.1 e.2 <;> simp [hk, hes, hne]

/-- The deleting loop removes exactly the entries that satisfy the condition. -/
theorem lookup_deleteWhere (m : GoMap K V) (p : K → V → Bool) (k : K) :
    (m.deleteWhere p).lookup k
      = (m.lookup k).bind fun v => if p k v then none else some v := by
  induction m using Finmap.induction_on with
  | H l =>
      have hmem : ∀ v, (⟨k, v⟩ : Sigma fun _ : K => V) ∈ l.entries
          ↔ Finmap.lookup k l.toFinmap = some v := fun v => by
        rw [Finmap.lookup_toFinmap]
        exact List.mem_dlookup_iff l.nodupKeys |>.symm
      have hfold : Finmap.lookup k (GoMap.deleteWhere l.toFinmap p) = _ :=
        lookup_foldl_deleteStep p l.entries l.toFinmap k
      rw [hfold]
      cases hk : Finmap.lookup k l.toFinmap with
      | none => simp
      | some v =>
          have hany : l.entries.any (fun e => decide (e.1 = k) && p e.1 e.2) = p k v := by
            rw [Bool.eq_iff_iff, List.any_eq_true]
            constructor
            · rintro ⟨⟨k', v'⟩, he, hp⟩
              simp only [Bool.and_eq_true, decide_eq_true_eq] at hp
              obtain ⟨rfl, hp⟩ := hp
              rw [hmem, hk, Option.some.injEq] at he
              rwa [he]
            · intro hp
              exact ⟨⟨k, v⟩, (hmem v).2 hk, by simpa using hp⟩
          rw [hany, Option.bind_some]

/-! ## Counters -/

/-- `m[k] += x`, with a missing counter read as zero. -/
def addTo (m : GoMap K UInt64) (k : K) (x : UInt64) : GoMap K UInt64 :=
  m.insert k ((m.lookup k).getD 0 + x)

theorem lookup_addTo_self (m : GoMap K UInt64) (k : K) (x : UInt64) :
    (m.addTo k x).lookup k = some ((m.lookup k).getD 0 + x) :=
  Finmap.lookup_insert _

theorem lookup_addTo_ne (m : GoMap K UInt64) {k k' : K} (x : UInt64) (h : k' ≠ k) :
    (m.addTo k x).lookup k' = m.lookup k' :=
  Finmap.lookup_insert_of_ne _ h

end GoMap
