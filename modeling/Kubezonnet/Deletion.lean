/-
# Deletions

The informer announces a deletion with the deleted object or, when its watch
missed the deletion, with a `DeletedFinalStateUnknown` around the last known
object.  `onPodDelete` and `onNodeDelete` handle the first form only: the second
is not a `*v1.Pod` or `*v1.Node`, so the handler returns and everything about the
object stays (`next_unknown`).  And `onPodDelete` passes over an address that is
the host address of the object at hand, also where it had filed the address
under the pod.  `deletion_cleans_iff` says exactly when a deletion cleans up.

`onPodDelete` removes by address and does not look at the pod that the address
is mapped to, as `onNodeDelete` does.  `deletion_local_iff` says exactly when it
leaves the addresses of other pods alone.
-/
import Kubezonnet.ServerActions

open Kube

namespace Server

/-! ## Notifications -/

/-- The notification, in either form, of the deletion of a pod. -/
inductive DeletesPod : Obj → Pod → Prop
  | object (pod : Pod) : DeletesPod (.pod pod) pod
  | unknown (key : String) (pod : Pod) : DeletesPod (.deletedFinalStateUnknown key (.pod pod)) pod

/-- The notification, in either form, of the deletion of a node. -/
inductive DeletesNode : Obj → Node → Prop
  | object (node : Node) : DeletesNode (.node node) node
  | unknown (key : String) (node : Node) :
      DeletesNode (.deletedFinalStateUnknown key (.node node)) node

/-- Nothing of the pod is left, and none of the addresses recorded for it in `s`
leads to it. -/
structure PodCleaned (s s' : State) (k : PodKey) : Prop where
  podIndex : s'.podIndex.lookup k = none
  statistics : s'.statistics.lookup k = none
  podIpIndex : ∀ ip ∈ s.recorded k, s'.podIpIndex.lookup ip ≠ some k

/-- Nothing of the node is left. -/
structure NodeCleaned (s' : State) (node : String) : Prop where
  nodeIndex : s'.nodeIndex.lookup node = none
  nodeIpIndex : ∀ ip, s'.nodeIpIndex.lookup ip ≠ some node

/-- When the deletion of a pod cleans up: for the object itself, if no recorded
address that leads to the pod is the host address of the object; for an object
in an unknown final state, if there is nothing to clean up. -/
def State.CleansPod (s : State) : Obj → Prop
  | .pod pod => ∀ ip ∈ s.recorded (podKey pod), pod.IsHost ip →
      s.podIpIndex.lookup ip ≠ some (podKey pod)
  | .deletedFinalStateUnknown _ (.pod pod) =>
      s.podIndex.lookup (podKey pod) = none ∧ s.statistics.lookup (podKey pod) = none
  | _ => True

/-- When the deletion of a node cleans up: for the object itself, always; for an
object in an unknown final state, if there is nothing to clean up. -/
def State.CleansNode (s : State) : Obj → Prop
  | .deletedFinalStateUnknown _ (.node node) =>
      s.nodeIndex.lookup node.name = none ∧ ∀ ip, s.nodeIpIndex.lookup ip ≠ some node.name
  | _ => True

/-! ## One deletion -/

/-- A handler ignores an object in an unknown final state. -/
theorem next_unknown (s : State) (key : String) (obj : Obj) :
    s.next (.podDelete (.deletedFinalStateUnknown key obj)) = s
      ∧ s.next (.nodeDelete (.deletedFinalStateUnknown key obj)) = s := ⟨rfl, rfl⟩

/-- The object itself cleans up its pod exactly if no recorded address is spared. -/
theorem podCleaned_object_iff (s : State) (pod : Pod) :
    PodCleaned s (s.next (.podDelete (.pod pod))) (podKey pod) ↔ s.CleansPod (.pod pod) := by
  show PodCleaned s (s.act (.unregister pod)) (podKey pod) ↔ _
  constructor
  · -- an address that the loop passes over is where it was before
    intro h ip hip hhost
    have hspared := h.podIpIndex ip hip
    rw [lookup_podIpIndex_unregister, if_neg (fun hcond => hcond.2 hhost)] at hspared
    exact hspared
  · intro h
    refine ⟨?_, ?_, fun ip hip => ?_⟩
    · rw [podIndex_unregister, Finmap.lookup_erase]
    · rw [statistics_unregister, Finmap.lookup_erase]
    · rw [lookup_podIpIndex_unregister]
      by_cases hhost : pod.IsHost ip
      · rw [if_neg (fun hcond => hcond.2 hhost)]
        exact h ip hip hhost
      · rw [if_pos ⟨hip, hhost⟩]
        exact nofun

/-- An object in an unknown final state cleans up its pod exactly if nothing is there. -/
theorem podCleaned_unknown_iff (s : State) (key : String) (pod : Pod) :
    PodCleaned s (s.next (.podDelete (.deletedFinalStateUnknown key (.pod pod)))) (podKey pod)
      ↔ s.CleansPod (.deletedFinalStateUnknown key (.pod pod)) := by
  rw [(next_unknown s key (.pod pod)).1]
  constructor
  · exact fun h => ⟨h.podIndex, h.statistics⟩
  · rintro ⟨hpod, hstat⟩
    refine ⟨hpod, hstat, fun ip hip => ?_⟩
    -- a pod that is not known has no recorded address
    rw [State.recorded, hpod] at hip
    cases hip

/-- The object itself always cleans up its node. -/
theorem nodeCleaned_object (s : State) (node : Node) :
    NodeCleaned (s.next (.nodeDelete (.node node))) node.name := by
  constructor
  · show (s.nodeIndex.erase node.name).lookup node.name = none
    rw [Finmap.lookup_erase]
  · intro ip
    show (s.act (.dropNode node.name)).nodeIpIndex.lookup ip ≠ some node.name
    rw [lookup_nodeIpIndex_dropNode]
    split_ifs with hcond
    · exact nofun
    · exact hcond

/-- An object in an unknown final state cleans up its node exactly if nothing is there. -/
theorem nodeCleaned_unknown_iff (s : State) (key : String) (node : Node) :
    NodeCleaned (s.next (.nodeDelete (.deletedFinalStateUnknown key (.node node)))) node.name
      ↔ s.CleansNode (.deletedFinalStateUnknown key (.node node)) := by
  rw [(next_unknown s key (.node node)).2]
  constructor
  · exact fun h => ⟨h.nodeIndex, h.nodeIpIndex⟩
  · exact fun h => ⟨h.1, h.2⟩

/-! ## Whole runs -/

/-- Main result: after any run, exactly when the notification of a deletion, in
either form, cleans up the pod or the node it is about. -/
theorem deletion_cleans_iff (es : List Event) :
    ∃ s, run es = some s
      ∧ (∀ obj pod, DeletesPod obj pod → ∃ s', run (es ++ [.podDelete obj]) = some s'
          ∧ (PodCleaned s s' (podKey pod) ↔ s.CleansPod obj))
      ∧ (∀ obj node, DeletesNode obj node → ∃ s', run (es ++ [.nodeDelete obj]) = some s'
          ∧ (NodeCleaned s' node.name ↔ s.CleansNode obj)) := by
  refine ⟨_, run_eq es, fun obj pod hobj => ⟨_, run_concat_eq es _, ?_⟩,
    fun obj node hobj => ⟨_, run_concat_eq es _, ?_⟩⟩
  · cases hobj with
    | object pod => exact podCleaned_object_iff _ pod
    | unknown key pod => exact podCleaned_unknown_iff _ key pod
  · cases hobj with
    | object node => exact iff_of_true (nodeCleaned_object _ node) trivial
    | unknown key node => exact nodeCleaned_unknown_iff _ key node

/-- A pod whose deletion the watch missed stays in the index. -/
theorem not_podCleaned_missed_deletion :
    let pod : Pod := ⟨"default", "a", "n", "192.168.0.1", ["10.0.0.1"]⟩
    let obj : Obj := .deletedFinalStateUnknown "default/a" (.pod pod)
    DeletesPod obj pod ∧ ∃ s s', run [.podAdd (.pod pod)] = some s
      ∧ run [.podAdd (.pod pod), .podDelete obj] = some s' ∧ ¬ PodCleaned s s' (podKey pod) := by
  intro pod obj
  refine ⟨DeletesPod.unknown _ pod, _, _, run_eq _, run_eq _, fun h => ?_⟩
  exact absurd h.podIndex (by decide)

/-! ## Other pods -/

/-- Every address that is mapped to another pod than `k` stays mapped to it. -/
def KeepsOthers (s s' : State) (k : PodKey) : Prop :=
  ∀ ip k', k' ≠ k → s.podIpIndex.lookup ip = some k' → s'.podIpIndex.lookup ip = some k'

/-- No address that is recorded for the pod is mapped to another pod, unless it
is the host address of the object at hand. -/
def State.RecordsOwn (s : State) (pod : Pod) : Prop :=
  ∀ ip ∈ s.recorded (podKey pod), ¬ pod.IsHost ip →
    ∀ k, s.podIpIndex.lookup ip = some k → k = podKey pod

/-- The deletion of a pod leaves the addresses of other pods alone exactly if
none of them is recorded for the pod as well. -/
theorem keepsOthers_iff (s : State) (pod : Pod) :
    KeepsOthers s (s.act (.unregister pod)) (podKey pod) ↔ s.RecordsOwn pod := by
  constructor
  · intro h ip hip hhost k hk
    by_contra hne
    have hkept := h ip k hne hk
    rw [lookup_podIpIndex_unregister, if_pos ⟨hip, hhost⟩] at hkept
    cases hkept
  · intro h ip k hne hk
    rw [lookup_podIpIndex_unregister]
    split_ifs with hgone
    · exact absurd (h ip hgone.1 hgone.2 k hk) hne
    · exact hk

/-- Main result: after any run, exactly when the deletion of a pod leaves every
address that is mapped to another pod mapped to it. -/
theorem deletion_local_iff (es : List Event) (pod : Pod) :
    ∃ s s', run es = some s ∧ run (es ++ [.podDelete (.pod pod)]) = some s'
      ∧ (KeepsOthers s s' (podKey pod) ↔ s.RecordsOwn pod) :=
  ⟨_, _, run_eq es, run_concat_eq es _, keepsOthers_iff _ pod⟩

/-- A finished pod whose address was given to another pod: its deletion takes the
address from the other pod. -/
theorem not_keepsOthers_reused_address :
    let finished : Pod := ⟨"default", "a", "n", "192.168.0.1", ["10.0.0.1"]⟩
    let live : Pod := ⟨"default", "b", "n", "192.168.0.1", ["10.0.0.1"]⟩
    let es : List Event := [.podAdd (.pod finished), .podAdd (.pod live)]
    ∃ s s', run es = some s ∧ run (es ++ [.podDelete (.pod finished)]) = some s'
      ∧ ¬ KeepsOthers s s' (podKey finished) := by
  intro finished live es
  refine ⟨_, _, run_eq _, run_eq _, fun h => ?_⟩
  have hlost := h 0x0A000001 (podKey live) (by decide) (by decide)
  exact absurd hlost (by decide)

end Server
