/-
# Stale addresses in the pod index

An address is stale when the pod index still maps it to a pod that is gone, or
that no longer lists it.  `handlePod` overwrites the recorded addresses of a pod
and only ever adds to the pod index, and `onPodDelete` passes over the address
that is the host address of the object at hand.  So a run is free of stale
addresses exactly when no pod event lets go of an address of its pod in one of
these two ways (`noStale_iff`).
-/
import Kubezonnet.ServerActions

open Kube WordBytes

namespace Server

/-- Every address in the pod index is recorded for the pod it is mapped to. -/
def State.NoStale (s : State) : Prop :=
  ∀ ip k, s.podIpIndex.lookup ip = some k →
    ∃ info, s.podIndex.lookup k = some info ∧ ip ∈ info.ips

/-- What an action must not do to an address that is mapped to its pod: a pod
that is added or updated still lists the address, and a pod that is deleted
does not have it as its host address. -/
def State.KeepsAddresses (s : State) : Action → Prop
  | .register pod => ∀ ip, s.podIpIndex.lookup ip = some (podKey pod) → ip ∈ pod.words
  | .unregister pod => ∀ ip, s.podIpIndex.lookup ip = some (podKey pod) → ¬ pod.IsHost ip
  | _ => True

/-! ## One action -/

/-- The addresses of an index without stale addresses are recorded. -/
theorem State.NoStale.mem_recorded {s : State} (h : s.NoStale) {ip : UInt32} {k : PodKey}
    (hip : s.podIpIndex.lookup ip = some k) : ip ∈ s.recorded k := by
  obtain ⟨info, hinfo, hmem⟩ := h ip k hip
  rw [State.recorded, hinfo]
  exact hmem

/-- Registering a pod leaves no stale address exactly if the pod still lists the
addresses that are mapped to it. -/
theorem noStale_register_iff {s : State} (h : s.NoStale) (pod : Pod) :
    (s.act (.register pod)).NoStale ↔ s.KeepsAddresses (.register pod) := by
  constructor
  · intro hnext ip hip
    have hstill : (s.act (.register pod)).podIpIndex.lookup ip = some (podKey pod) := by
      rw [lookup_podIpIndex_register, hip, ite_self]
    obtain ⟨info, hinfo, hmem⟩ := hnext ip _ hstill
    rw [podIndex_register, Finmap.lookup_insert, Option.some.injEq] at hinfo
    rw [← hinfo] at hmem
    exact hmem
  · intro hkeep ip k hip
    rw [podIndex_register, GoMap.lookup_insert_ite]
    rw [lookup_podIpIndex_register] at hip
    by_cases hnew : ip ∈ pod.words ∧ ¬ pod.IsHost ip
    · rw [if_pos hnew, Option.some.injEq] at hip
      rw [if_pos hip.symm]
      exact ⟨_, rfl, hnew.1⟩
    · -- the address was mapped before, and its record may just have been overwritten
      rw [if_neg hnew] at hip
      by_cases hk : k = podKey pod
      · subst hk
        rw [if_pos rfl]
        exact ⟨_, rfl, hkeep ip hip⟩
      · rw [if_neg hk]
        exact h ip k hip

/-- Unregistering a pod leaves no stale address exactly if none of the addresses
mapped to it is the host address of the object at hand. -/
theorem noStale_unregister_iff {s : State} (h : s.NoStale) (pod : Pod) :
    (s.act (.unregister pod)).NoStale ↔ s.KeepsAddresses (.unregister pod) := by
  constructor
  · intro hnext ip hip hhost
    have hstill : (s.act (.unregister pod)).podIpIndex.lookup ip = some (podKey pod) := by
      rw [lookup_podIpIndex_unregister, if_neg (fun hcond => hcond.2 hhost), hip]
    obtain ⟨info, hinfo, -⟩ := hnext ip _ hstill
    rw [podIndex_unregister, Finmap.lookup_erase] at hinfo
    cases hinfo
  · intro hkeep ip k hip
    rw [lookup_podIpIndex_unregister] at hip
    rw [podIndex_unregister, GoMap.lookup_erase_ite]
    by_cases hgone : ip ∈ s.recorded (podKey pod) ∧ ¬ pod.IsHost ip
    · rw [if_pos hgone] at hip
      cases hip
    · -- what the loop leaves of the pod's addresses would be host addresses
      rw [if_neg hgone] at hip
      have hk : k ≠ podKey pod := by
        rintro rfl
        exact hgone ⟨h.mem_recorded hip, hkeep ip hip⟩
      rw [if_neg hk]
      exact h ip k hip

/-- An action that changes neither the pod index nor the pods leaves no stale address. -/
theorem State.NoStale.congr {s s' : State} (hip : s'.podIpIndex = s.podIpIndex)
    (hpod : s'.podIndex = s.podIndex) : s'.NoStale ↔ s.NoStale := by
  unfold State.NoStale
  rw [hip, hpod]

/-- An action leaves no stale address exactly if it keeps the addresses of its pod. -/
theorem noStale_act_iff {s : State} (h : s.NoStale) (a : Action) :
    (s.act a).NoStale ↔ s.KeepsAddresses a := by
  cases a with
  | register pod => exact noStale_register_iff h pod
  | unregister pod => exact noStale_unregister_iff h pod
  | setZone node zone => exact iff_of_true h trivial
  | dropNode node => exact iff_of_true h trivial
  | report data =>
      obtain ⟨hip, -, hpod, -⟩ := report_indexes s data
      exact iff_of_true ((State.NoStale.congr hip hpod).2 h) trivial
  | ignore => exact iff_of_true h trivial

/-! ## Whole runs -/

/-- Main result: a run is free of stale addresses, from its first state to its
last, exactly if each of its events keeps the addresses of its pod. -/
theorem noStale_iff (es : List Event) :
    (∀ pre s, pre <+: es → run pre = some s → s.NoStale)
      ↔ ∀ pre e s, pre ++ [e] <+: es → run pre = some s → s.KeepsAddresses e.action := by
  have hempty : State.empty.NoStale := by
    intro ip k hip
    rw [State.empty, Finmap.lookup_empty] at hip
    cases hip
  have hstep : ∀ (s : State) (e : Event), s.NoStale →
      ((s.next e).NoStale ↔ s.KeepsAddresses e.action) := fun s e h => noStale_act_iff h e.action
  have hruns : Runs.Always State.next State.NoStale State.empty es
      ↔ Runs.Guarded State.next (fun s e => s.KeepsAddresses e.action) State.empty es :=
    Runs.always_iff_guarded hstep hempty es
  constructor
  · intro h pre e s hpre hs
    have halways : Runs.Always State.next State.NoStale State.empty es :=
      fun pre' hpre' => h pre' _ hpre' (run_eq pre')
    rw [run_eq, Option.some.injEq] at hs
    subst hs
    exact hruns.1 halways pre e hpre
  · intro h pre s hpre hs
    have hguarded : Runs.Guarded State.next (fun s e => s.KeepsAddresses e.action)
        State.empty es := fun pre' e hpre' => h pre' e _ hpre' (run_eq pre')
    rw [run_eq, Option.some.injEq] at hs
    subst hs
    exact hruns.2 hguarded pre hpre

/-- A pod whose address changes from `10.0.0.1` to `10.0.0.2` stays in the index
under its old address. -/
theorem not_noStale_changed_address :
    let old : Pod := ⟨"default", "a", "n", "192.168.0.1", ["10.0.0.1"]⟩
    let new : Pod := { old with podIPs := ["10.0.0.2"] }
    ∃ s, run [.podAdd (.pod old), .podUpdate (.pod old) (.pod new)] = some s ∧ ¬ s.NoStale := by
  intro old new
  refine ⟨_, run_eq _, fun h => ?_⟩
  obtain ⟨info, hinfo, hmem⟩ := h (word32 10 0 0 1) (podKey old) (by decide)
  have hnew : info = ⟨"n", [word32 10 0 0 2]⟩ := by
    rw [← Option.some.injEq, ← hinfo]
    decide
  rw [hnew] at hmem
  exact absurd hmem (by decide)

end Server
