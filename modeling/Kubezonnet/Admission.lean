/-
# Counting in a map of bounded size

A map of counters with room for `capacity` keys takes a stream of amounts under
keys.  An amount under a key that the map has is added to its counter, and one
under a new key is inserted while there is room and dropped otherwise.

No key is ever removed, so the map admits the keys that appear first, and what
comes under an admitted key is counted from its first appearance on
(`counts_foldl`).
-/
import Mathlib

namespace Admission

variable {K V : Type} [DecidableEq K]

/-! ## Keys in order of appearance -/

/-- The keys of a stream, each at its first appearance. -/
def keysOf (flows : List (K × V)) : List K := (flows.map Prod.fst).eraseDups

theorem mem_keysOf {flows : List (K × V)} {k : K} :
    k ∈ keysOf flows ↔ k ∈ flows.map Prod.fst :=
  List.mem_eraseDups

/-- One more amount adds its key at the end, unless the key has appeared before. -/
theorem keysOf_concat (flows : List (K × V)) (flow : K × V) :
    keysOf (flows ++ [flow])
      = if flow.1 ∈ keysOf flows then keysOf flows else keysOf flows ++ [flow.1] := by
  have happend : keysOf (flows ++ [flow])
      = keysOf flows ++ (([flow.1] : List K).removeAll (flows.map Prod.fst)).eraseDups := by
    unfold keysOf
    rw [List.map_append, List.eraseDups_append]
    rfl
  rw [happend]
  split_ifs with hseen
  · rw [mem_keysOf] at hseen
    simp [List.removeAll, hseen]
  · rw [mem_keysOf] at hseen
    simp [List.removeAll, hseen, List.eraseDups_cons]

theorem nodup_keysOf (flows : List (K × V)) : (keysOf flows).Nodup := by
  induction flows using List.reverseRecOn with
  | nil => exact List.nodup_nil
  | append_singleton flows flow ih =>
      rw [keysOf_concat]
      split_ifs with hseen
      · exact ih
      · exact ih.append (List.nodup_singleton _) (List.disjoint_singleton.2 hseen)

/-- Renamed keys appear in the same order. -/
theorem keysOf_map {f : K → K} (hf : Function.Injective f) (flows : List (K × V)) :
    keysOf (flows.map fun flow => (f flow.1, flow.2)) = (keysOf flows).map f := by
  induction flows using List.reverseRecOn with
  | nil => rfl
  | append_singleton flows flow ih =>
      have hseen : f flow.1 ∈ (keysOf flows).map f ↔ flow.1 ∈ keysOf flows :=
        List.mem_map_of_injective hf
      rw [List.map_append, List.map_singleton, keysOf_concat, keysOf_concat, ih]
      by_cases hmem : flow.1 ∈ keysOf flows
      · rw [if_pos hmem, if_pos (hseen.2 hmem)]
      · rw [if_neg hmem, if_neg fun h => hmem (hseen.1 h), List.map_append, List.map_singleton]

/-! ## Totals -/

variable (add : V → V → V)

/-- The amounts under a key, added up in their order. -/
def totalOf (k : K) (flows : List (K × V)) : Option V :=
  flows.foldl
    (fun total flow => if flow.1 = k then some (total.elim flow.2 fun v => add v flow.2) else total)
    none

theorem totalOf_concat (k : K) (flows : List (K × V)) (flow : K × V) :
    totalOf add k (flows ++ [flow])
      = if flow.1 = k then some ((totalOf add k flows).elim flow.2 fun v => add v flow.2)
        else totalOf add k flows :=
  List.foldl_concat _ _ _ _

/-- A key has a total exactly if it appears. -/
theorem isSome_totalOf {k : K} {flows : List (K × V)} :
    (totalOf add k flows).isSome ↔ k ∈ keysOf flows := by
  rw [mem_keysOf]
  induction flows using List.reverseRecOn with
  | nil => simp [totalOf]
  | append_singleton flows flow ih =>
      rw [totalOf_concat, List.map_append, List.mem_append]
      by_cases hk : flow.1 = k
      · simp [hk]
      · have hne : k ≠ flow.1 := fun h => hk h.symm
        simp [hk, hne, ih]

/-! ## The map -/

variable (capacity : ℕ)

/-- The map after an amount: added, inserted if there is room, or dropped. -/
def count (m : Finmap fun _ : K => V) (flow : K × V) : Finmap fun _ : K => V :=
  match m.lookup flow.1 with
  | some v => m.insert flow.1 (add v flow.2)
  | none => if m.keys.card < capacity then m.insert flow.1 flow.2 else m

/-- The keys that are admitted: the first ones to appear, as many as there is room for. -/
def admitted (flows : List (K × V)) : List K := (keysOf flows).take capacity

/-- The map has exactly the admitted keys, each with the total of all that came
under it. -/
def Counts (flows : List (K × V)) (m : Finmap fun _ : K => V) : Prop :=
  ∀ k, m.lookup k = if k ∈ admitted capacity flows then totalOf add k flows else none

variable {add capacity} {flows : List (K × V)} {m : Finmap fun _ : K => V} {k : K}

theorem Counts.lookup_of_notMem (h : Counts add capacity flows m)
    (hadm : k ∉ admitted capacity flows) : m.lookup k = none := by
  rw [h k, if_neg hadm]

/-- The map is as large as the list of the admitted keys is long. -/
theorem Counts.card_keys (h : Counts add capacity flows m) :
    m.keys.card = (admitted capacity flows).length := by
  have hkeys : m.keys = (admitted capacity flows).toFinset := by
    ext k
    rw [Finmap.mem_keys, ← Finmap.lookup_isSome, h k, List.mem_toFinset]
    split_ifs with hadm
    · rw [isSome_totalOf]
      exact iff_of_true (List.mem_of_mem_take hadm) hadm
    · exact iff_of_false (by simp) hadm
  rw [hkeys]
  exact List.toFinset_card_of_nodup ((nodup_keysOf flows).sublist (List.take_sublist _ _))

/-- While a key that has appeared is not admitted, there is no room. -/
theorem length_admitted_of_notMem (hseen : k ∈ keysOf flows)
    (hadm : k ∉ admitted capacity flows) : (admitted capacity flows).length = capacity := by
  unfold admitted at hadm ⊢
  rw [List.length_take, Nat.min_eq_left]
  by_contra hlt
  rw [List.take_of_length_le (by omega)] at hadm
  exact hadm hseen

/-- A key that has appeared before changes nothing about who is admitted. -/
theorem admitted_concat_seen {v : V} (hseen : k ∈ keysOf flows) :
    admitted capacity (flows ++ [(k, v)]) = admitted capacity flows := by
  unfold admitted
  rw [keysOf_concat, if_pos hseen]

/-- A new key is admitted exactly while there is room. -/
theorem admitted_concat_new {v : V} (hnew : k ∉ keysOf flows) :
    admitted capacity (flows ++ [(k, v)])
      = if (admitted capacity flows).length < capacity then admitted capacity flows ++ [k]
        else admitted capacity flows := by
  unfold admitted
  rw [keysOf_concat, if_neg hnew, List.length_take]
  split_ifs with hroom
  · have hlen : (keysOf flows).length < capacity := by omega
    have hlen' : (keysOf flows ++ [k]).length ≤ capacity := by
      rw [List.length_append, List.length_singleton]
      omega
    rw [List.take_of_length_le hlen', List.take_of_length_le hlen.le]
  · exact List.take_append_of_le_length (by omega)

/-- An amount under an admitted key is added to its counter. -/
theorem Counts.count_admitted (h : Counts add capacity flows m) {v : V}
    (hadm : k ∈ admitted capacity flows) :
    Counts add capacity (flows ++ [(k, v)]) (count add capacity m (k, v)) := by
  have hseen : k ∈ keysOf flows := List.mem_of_mem_take hadm
  obtain ⟨total, htotal⟩ := Option.isSome_iff_exists.1 ((isSome_totalOf add).2 hseen)
  have hlookup : m.lookup k = some total := by rw [h k, if_pos hadm, htotal]
  intro k'
  rw [admitted_concat_seen hseen, totalOf_concat, count, hlookup]
  by_cases hk : k = k'
  · subst hk
    rw [Finmap.lookup_insert, if_pos hadm, if_pos rfl, htotal]
    rfl
  · rw [Finmap.lookup_insert_of_ne _ (Ne.symm hk), h k', if_neg hk]

/-- An amount under a key that came too late is dropped. -/
theorem Counts.count_late (h : Counts add capacity flows m) {v : V} (hseen : k ∈ keysOf flows)
    (hadm : k ∉ admitted capacity flows) :
    Counts add capacity (flows ++ [(k, v)]) (count add capacity m (k, v)) := by
  have hfull : ¬ m.keys.card < capacity := by
    rw [h.card_keys, length_admitted_of_notMem hseen hadm]
    exact lt_irrefl capacity
  intro k'
  rw [admitted_concat_seen hseen, totalOf_concat, count, h.lookup_of_notMem hadm]
  show Finmap.lookup k' (if m.keys.card < capacity then _ else m) = _
  rw [if_neg hfull, h k']
  by_cases hk : k = k'
  · subst hk
    rw [if_neg hadm, if_neg hadm]
  · rw [if_neg hk]

/-- An amount under a new key gets a counter if there is room. -/
theorem Counts.count_new (h : Counts add capacity flows m) {v : V} (hnew : k ∉ keysOf flows) :
    Counts add capacity (flows ++ [(k, v)]) (count add capacity m (k, v)) := by
  have hadm : k ∉ admitted capacity flows := fun hmem => hnew (List.mem_of_mem_take hmem)
  have hnone : totalOf add k flows = none := by
    rw [← Option.not_isSome_iff_eq_none, isSome_totalOf]
    exact hnew
  intro k'
  rw [admitted_concat_new hnew, totalOf_concat, count, h.lookup_of_notMem hadm]
  show Finmap.lookup k' (if m.keys.card < capacity then _ else m) = _
  rw [h.card_keys]
  by_cases hroom : (admitted capacity flows).length < capacity
  · rw [if_pos hroom, if_pos hroom]
    by_cases hk : k = k'
    · subst hk
      rw [Finmap.lookup_insert, if_pos (List.mem_append_right _ List.mem_cons_self), if_pos rfl,
        hnone]
      rfl
    · have hmem : k' ∈ admitted capacity flows ++ [k] ↔ k' ∈ admitted capacity flows := by
        rw [List.mem_append, List.mem_singleton]
        exact or_iff_left (Ne.symm hk)
      rw [Finmap.lookup_insert_of_ne _ (Ne.symm hk), h k', if_congr hmem rfl rfl, if_neg hk]
  · rw [if_neg hroom, if_neg hroom, h k']
    by_cases hk : k = k'
    · subst hk
      rw [if_neg hadm, if_neg hadm]
    · rw [if_neg hk]

/-- The map counts any stream: it admits the keys that appear first, and what
comes under an admitted key is counted from the start. -/
theorem counts_foldl (flows : List (K × V)) :
    Counts add capacity flows (flows.foldl (count add capacity) ∅) := by
  induction flows using List.reverseRecOn with
  | nil =>
      intro k
      have hnil : k ∉ admitted capacity ([] : List (K × V)) := by simp [admitted, keysOf]
      rw [if_neg hnil]
      exact Finmap.lookup_empty k
  | append_singleton flows flow ih =>
      obtain ⟨k, v⟩ := flow
      rw [List.foldl_concat]
      by_cases hseen : k ∈ keysOf flows
      · by_cases hadm : k ∈ admitted capacity flows
        · exact ih.count_admitted hadm
        · exact ih.count_late hseen hadm
      · exact ih.count_new hseen

end Admission
