/-
# Accounting over whole runs

The statistics at the end of a run, in terms of the history of the run alone.
`moments` lists the atomic steps of a run, each with the state it is taken in:
the events, with a payload taken entry by entry.  A key's counter is present
exactly when some entry was attributed to the key since the last deletion of a
pod with that key, and is then the sum of the traffic of these entries modulo
`2 ^ 64` (`statistics_run`).

A counter is one observation of the state: each moment updates it by itself
(`lookup_statistics_event`, `lookup_statistics_account`), so it follows the moments of the run
(`lookup_statistics_moments`), and `Runs.foldl_resetCounter` gives its closed
form.
-/
import Kubezonnet.ServerActions

open Payload Runs Kube

namespace Server

/-! ## The moments of a run -/

/-- An atomic step of a run: an event other than a payload, or one entry of a payload. -/
inductive Moment : Type where
  | event (e : Event) : Moment
  | entry (entry : Entry) : Moment

/-- The entries of a payload, each with the state it is processed in. -/
def entryMoments : State → List Entry → List (State × Moment)
  | _, [] => []
  | s, entry :: data => (s, .entry entry) :: entryMoments (handleEntry s [] entry).1 data

/-- The moments of a run, each with the state before it. -/
def moments : State → List Event → Option (List (State × Moment))
  | _, [] => some []
  | s, .payload data :: es => do
      let rest ← moments (handleEntries data s []).1 es
      some (entryMoments s data ++ rest)
  | s, e :: es => do
      let s' ← step s e
      let rest ← moments s' es
      some ((s, .event e) :: rest)

/-- The moment deletes a pod with the key `k`. -/
def deletesKey (k : PodKey) : State × Moment → Bool
  | (_, .event (.podDelete (.pod pod))) => podKey pod = k
  | _ => false

/-- The traffic of an entry that is attributed to `k` in the state it is processed in. -/
def attributedTraffic (k : PodKey) : State × Moment → Option UInt64
  | (s, .entry entry) => if s.attribution entry = some k then some entry.traffic else none
  | _ => none

/-- The traffic of the entries attributed to `k` since the last deletion of `k`. -/
def attributedSince (k : PodKey) (ms : List (State × Moment)) : List UInt64 :=
  (sinceLast (deletesKey k) ms).filterMap (attributedTraffic k)

/-! ## One moment -/

/-- What a moment does to the counter of a key. -/
def counterAfter (k : PodKey) : Option UInt64 → State × Moment → Option UInt64 :=
  resetCounter (deletesKey k) (attributedTraffic k)

/-- An entry adds its traffic to the counter of the key it is attributed to, and
touches no other counter. -/
theorem lookup_statistics_account (s : State) (entry : Entry) (k : PodKey) :
    (s.account entry).statistics.lookup k
      = counterAfter k (s.statistics.lookup k) (s, .entry entry) := by
  simp only [counterAfter, resetCounter, deletesKey, attributedTraffic, State.account,
    Bool.false_eq_true, if_false]
  cases hattr : s.attribution entry with
  | none => simp
  | some k' =>
      by_cases hk : k = k'
      · subst hk
        simp [GoMap.lookup_addTo_self]
      · have hk' : k' ≠ k := fun h => hk h.symm
        simp [GoMap.lookup_addTo_ne _ _ hk, hk']

/-- Of the events that are not payloads, only the deletion of a pod touches a
counter, and only that of its own key. -/
theorem lookup_statistics_event (s : State) (e : Event) (he : ∀ data, e ≠ .payload data)
    (k : PodKey) :
    (s.next e).statistics.lookup k
      = counterAfter k (s.statistics.lookup k) (s, .event e) := by
  have hregister : ∀ pod : Pod, (s.act (.register pod)).statistics.lookup k
      = s.statistics.lookup k := fun pod => by rw [statistics_register]
  cases e with
  | podAdd obj => cases obj with
    | pod pod => exact hregister pod
    | node node => rfl
    | deletedFinalStateUnknown key obj => rfl
  | podUpdate oldObj newObj => cases newObj with
    | pod pod => exact hregister pod
    | node node => rfl
    | deletedFinalStateUnknown key obj => rfl
  | podDelete obj => cases obj with
    | pod pod =>
        simp only [State.next, Event.action, counterAfter, resetCounter, deletesKey,
          attributedTraffic, statistics_unregister, GoMap.lookup_erase_ite]
        by_cases hk : k = podKey pod
        · simp [hk]
        · have hk' : podKey pod ≠ k := fun h => hk h.symm
          simp [hk, hk']
    | node node => rfl
    | deletedFinalStateUnknown key obj => rfl
  | nodeAdd obj => cases obj <;> rfl
  | nodeUpdate oldObj newObj => cases newObj <;> rfl
  | nodeDelete obj => cases obj <;> rfl
  | payload data => exact absurd rfl (he data)

/-! ## Whole runs -/

/-- The counter of a key follows the entries of a payload. -/
theorem lookup_statistics_entryMoments (k : PodKey) (data : List Entry) (s : State) :
    (Runs.run State.account s data).statistics.lookup k
      = (entryMoments s data).foldl (counterAfter k) (s.statistics.lookup k) := by
  induction data generalizing s with
  | nil => rfl
  | cons entry data ih =>
      rw [Runs.run_cons, ih, entryMoments, List.foldl_cons, handleEntry_fst,
        lookup_statistics_account]

/-- An event that is not a payload is one moment. -/
theorem moments_cons {s : State} {e : Event} {es : List Event} (he : ∀ data, e ≠ .payload data) :
    moments s (e :: es)
      = (step s e).bind fun s' => (moments s' es).bind fun rest => some ((s, .event e) :: rest) := by
  cases e with
  | payload data => exact absurd rfl (he data)
  | _ => rfl

/-- The counter of a key follows the moments of a run. -/
theorem lookup_statistics_moments (k : PodKey) (es : List Event) (s : State) :
    ∃ ms, moments s es = some ms
      ∧ (Runs.run State.next s es).statistics.lookup k
        = ms.foldl (counterAfter k) (s.statistics.lookup k) := by
  induction es generalizing s with
  | nil => exact ⟨[], rfl, rfl⟩
  | cons e es ih =>
      obtain ⟨ms, hms, hlookup⟩ := ih (s.next e)
      rw [Runs.run_cons, hlookup]
      by_cases he : ∃ data, e = .payload data
      · obtain ⟨data, rfl⟩ := he
        refine ⟨entryMoments s data ++ ms, ?_, ?_⟩
        · have hms' : moments (handleEntries data s []).1 es = some ms := hms
          rw [moments, hms']
          rfl
        · have hreport : s.next (.payload data) = Runs.run State.account s data :=
            act_report s data
          rw [List.foldl_append, hreport, lookup_statistics_entryMoments]
      · have hne : ∀ data, e ≠ .payload data := fun data h => he ⟨data, h⟩
        refine ⟨(s, .event e) :: ms, ?_, ?_⟩
        · rw [moments_cons hne, step_eq, Option.bind_some, hms]
          rfl
        · rw [List.foldl_cons, lookup_statistics_event s e hne]

/-- Adding up 64-bit counters wraps around like the sum of their values does. -/
theorem foldl_add_eq_ofNat (xs : List UInt64) :
    xs.foldl (· + ·) 0 = UInt64.ofNat (xs.map UInt64.toNat).sum := by
  induction xs using List.reverseRecOn with
  | nil => rfl
  | append_singleton xs x ih =>
      rw [List.foldl_concat, ih, List.map_append, List.sum_append, UInt64.ofNat_add]
      simp

/-- Main result: after every run the statistics hold, for every key with an
entry attributed to it since the key was last deleted, the sum of the traffic of
these entries modulo `2 ^ 64`, and nothing else.  No event but a payload or the
deletion of a pod of that key changes the counter of a key. -/
theorem statistics_run (es : List Event) :
    ∃ s ms, run es = some s ∧ moments State.empty es = some ms
      ∧ (∀ k, s.statistics.lookup k
          = if attributedSince k ms = [] then none
            else some (UInt64.ofNat ((attributedSince k ms).map UInt64.toNat).sum))
      ∧ (∀ (t t' : State) (e : Event) (k : PodKey), step t e = some t' →
          (∀ data, e ≠ .payload data) → (∀ pod, e = .podDelete (.pod pod) → podKey pod ≠ k) →
          t'.statistics.lookup k = t.statistics.lookup k) := by
  -- the moments are those of every key alike; any key gives them
  obtain ⟨ms, hms, -⟩ := lookup_statistics_moments ⟨"", ""⟩ es State.empty
  refine ⟨_, ms, run_eq es, hms, fun k => ?_, ?_⟩
  · obtain ⟨ms', hms', hlookup⟩ := lookup_statistics_moments k es State.empty
    obtain rfl : ms = ms' := Option.some.inj (hms.symm.trans hms')
    have hempty : Finmap.lookup k State.empty.statistics = none := Finmap.lookup_empty k
    rw [hlookup, hempty, counterAfter, foldl_resetCounter, ← foldl_add_eq_ofNat]
    rfl
  · intro t t' e k hstep hpayload hdelete
    rw [step_eq, Option.some.injEq] at hstep
    subst hstep
    have hreset : deletesKey k (t, .event e) = false := by
      unfold deletesKey
      split
      · rename_i pod heq
        simp only [Prod.mk.injEq, Moment.event.injEq] at heq
        exact decide_eq_false (hdelete pod heq.2)
      · rfl
    rw [lookup_statistics_event t e hpayload, counterAfter, resetCounter, hreset]
    simp [attributedTraffic]

end Server
