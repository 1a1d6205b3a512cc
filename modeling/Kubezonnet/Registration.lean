/-
# What registering a pod registers

`handlePod` files the addresses of a pod in the pod index or, for its host
address, in the node index, and `handlePayload` looks an address up in the pod
index first.  Neither clears what an earlier event has left in the other index or
under the same address.

* `finds_handlePod_iff`: right after `handlePod` the pod is found at each of its
  addresses, and its node at its host address unless the pod index still has a
  pod there;
* `initialList_iff`: of the pods of a list that have the same address the one
  delivered last is found there, whether it has finished or not.
-/
import Kubezonnet.ServerActions

open GoNet Kube WordBytes

namespace Server

/-! ## The lookup order -/

/-- The key that the lookup order of `handlePayload` selects for an address. -/
def State.selected (s : State) (ip : UInt32) : Option PodKey :=
  match s.podIpIndex.lookup ip with
  | some k => some k
  | none => (s.nodeIpIndex.lookup ip).map nodeKey

/-- The key of an address that resolves is the one selected. -/
theorem selected_of_resolve {s : State} {ip : UInt32} {k : PodKey} {zone : String}
    (h : s.resolve ip = some (k, zone)) : s.selected ip = some k := by
  unfold State.selected
  rcases resolve_cases h with ⟨hip, -⟩ | ⟨hip, node, hnode, rfl, -⟩
  · rw [hip]
  · rw [hip, hnode]
    rfl

/-! ## One registration -/

/-- The pod is found at each of its IPv4 addresses but the host address, and its
node at the host address, if that is not `0.0.0.0`. -/
def State.Finds (s : State) (pod : Pod) : Prop :=
  ∀ x y z w, [x, y, z, w] ∈ pod.addrs →
    (parseIPv4 pod.hostIP ≠ some [x, y, z, w] →
        s.selected (word32 x y z w) = some (podKey pod))
      ∧ (parseIPv4 pod.hostIP = some [x, y, z, w] → [x, y, z, w] ≠ [0, 0, 0, 0] →
        s.selected (word32 x y z w) = some (nodeKey pod.nodeName))

/-- The pod index has no pod at the host address of the pod, or one that goes by
the key of the node. -/
def State.LeavesHost (s : State) (pod : Pod) : Prop :=
  ∀ x y z w, [x, y, z, w] ∈ pod.addrs → pod.IsHostAddr [x, y, z, w] →
    ∀ k, s.podIpIndex.lookup (word32 x y z w) = some k → k = nodeKey pod.nodeName

/-- A registered pod is selected at an address that is not its host address. -/
theorem selected_register_pod (s : State) {pod : Pod} {x y z w : UInt8}
    (hmem : [x, y, z, w] ∈ pod.addrs) (hhost : ¬ pod.IsHostAddr [x, y, z, w]) :
    (s.act (.register pod)).selected (word32 x y z w) = some (podKey pod) := by
  have hown : word32 x y z w ∈ pod.words ∧ ¬ pod.IsHost (word32 x y z w) :=
    ⟨word32_mem_words.2 hmem, mt isHost_word32.1 hhost⟩
  unfold State.selected
  rw [lookup_podIpIndex_register, if_pos hown]

/-- At the host address of a registered pod the pod index decides as before, and
only without an entry there the node is selected. -/
theorem selected_register_host (s : State) {pod : Pod} {x y z w : UInt8}
    (hmem : [x, y, z, w] ∈ pod.addrs) (hhost : pod.IsHostAddr [x, y, z, w]) :
    (s.act (.register pod)).selected (word32 x y z w)
      = match s.podIpIndex.lookup (word32 x y z w) with
        | some k => some k
        | none => some (nodeKey pod.nodeName) := by
  have hnode : word32 x y z w ∈ pod.words ∧ pod.IsHost (word32 x y z w) :=
    ⟨word32_mem_words.2 hmem, isHost_word32.2 hhost⟩
  have hown : ¬ (word32 x y z w ∈ pod.words ∧ ¬ pod.IsHost (word32 x y z w)) :=
    fun h => h.2 hnode.2
  unfold State.selected
  rw [lookup_podIpIndex_register, if_neg hown, lookup_nodeIpIndex_register, if_pos hnode]
  rfl

/-- Registering a pod makes it found exactly if the pod index has no other pod at
its host address. -/
theorem finds_register_iff (s : State) (pod : Pod) :
    (s.act (.register pod)).Finds pod ↔ s.LeavesHost pod := by
  constructor
  · intro h x y z w hmem hhost k hk
    have hfound := (h x y z w hmem).2 hhost.1 hhost.2
    rw [selected_register_host s hmem hhost, hk] at hfound
    exact Option.some.inj hfound
  · intro h x y z w hmem
    refine ⟨fun hne => selected_register_pod s hmem fun hhost => hne hhost.1, fun heq hzero => ?_⟩
    rw [selected_register_host s hmem ⟨heq, hzero⟩]
    cases hk : s.podIpIndex.lookup (word32 x y z w) with
    | none => rfl
    | some k => rw [h x y z w hmem ⟨heq, hzero⟩ k hk]

/-- Main result: after any run, exactly when the pod that `handlePod` has just
registered is found by the lookup order of `handlePayload`. -/
theorem finds_handlePod_iff (es : List Event) (pod : Pod) :
    ∃ s s', run es = some s ∧ handlePod (.pod pod) s = some s'
      ∧ (s'.Finds pod ↔ s.LeavesHost pod) := by
  refine ⟨_, (Runs.run State.next State.empty es).act (.register pod), run_eq es, ?_,
    finds_register_iff _ pod⟩
  exact step_eq _ (.podAdd (.pod pod))

/-- A host-network pod that is first seen before its host address is set: its node
is not found at the address. -/
theorem not_finds_late_host_address :
    let pending : Pod := ⟨"kube-system", "proxy", "n", "", ["192.168.0.1"]⟩
    let running : Pod := { pending with hostIP := "192.168.0.1" }
    ∃ s s', run [.podAdd (.pod pending)] = some s ∧ handlePod (.pod running) s = some s'
      ∧ ¬ s'.Finds running := by
  intro pending running
  refine ⟨_, (Runs.run State.next State.empty [.podAdd (.pod pending)]).act (.register running),
    run_eq _, step_eq _ (.podAdd (.pod running)), fun h => ?_⟩
  have hnode := (h 192 168 0 1 (by decide)).2 (by decide) (by decide)
  exact absurd hnode (by decide)

/-! ## The initial list -/

/-- The pod lists the address, and not as its host address. -/
def ListsOwn (pod : Pod) (v4 : List UInt8) : Prop := v4 ∈ pod.addrs ∧ ¬ pod.IsHostAddr v4

instance (pod : Pod) (v4 : List UInt8) : Decidable (ListsOwn pod v4) :=
  inferInstanceAs (Decidable (_ ∧ _))

/-- What adding a pod writes to the pod index at an address. -/
def ownerWritten (v4 : List UInt8) (pod : Pod) : Option PodKey :=
  if ListsOwn pod v4 then some (podKey pod) else none

/-- After a list of pods is added the pod index has, at every address, the last
one of them that lists it. -/
theorem podIpIndex_initialList (order : List Pod) :
    ∃ s, run (order.map fun pod => .podAdd (.pod pod)) = some s
      ∧ ∀ x y z w, s.podIpIndex.lookup (word32 x y z w)
        = Runs.lastWrite (ownerWritten [x, y, z, w]) order := by
  refine ⟨_, run_eq _, fun x y z w => ?_⟩
  have hadds : Runs.run State.next State.empty (order.map fun pod => .podAdd (.pod pod))
      = Runs.run (fun s pod => s.act (.register pod)) State.empty order := List.foldl_map
  have hstep : ∀ (s : State) (pod : Pod),
      (s.act (.register pod)).podIpIndex.lookup (word32 x y z w)
        = (ownerWritten [x, y, z, w] pod).or (s.podIpIndex.lookup (word32 x y z w)) := by
    intro s pod
    have hown : word32 x y z w ∈ pod.words ∧ ¬ pod.IsHost (word32 x y z w)
        ↔ ListsOwn pod [x, y, z, w] := and_congr word32_mem_words (not_congr isHost_word32)
    rw [lookup_podIpIndex_register, if_congr hown rfl rfl, ownerWritten]
    split_ifs <;> rfl
  rw [hadds, Runs.run_lastWrite (fun s : State => s.podIpIndex.lookup (word32 x y z w)) hstep]
  exact Option.or_none

/-- Main result: when every address is listed by at most one unfinished pod, and
in whatever order the pods are added, an unfinished pod has its address in the
pod index exactly if no finished pod that lists the address is added after it. -/
theorem initialList_iff (finished : Pod → Prop) (pods order : List Pod) (horder : order.Perm pods)
    (hkeys : (pods.map podKey).Nodup)
    (hunique : ∀ v4, ∀ p ∈ pods, ∀ q ∈ pods, ¬ finished p → ¬ finished q →
      ListsOwn p v4 → ListsOwn q v4 → p = q) :
    ∃ s, run (order.map fun pod => .podAdd (.pod pod)) = some s
      ∧ ∀ l p r, order = l ++ p :: r → ¬ finished p →
        ∀ x y z w, ListsOwn p [x, y, z, w] →
          (s.podIpIndex.lookup (word32 x y z w) = some (podKey p)
            ↔ ∀ q ∈ r, finished q → ¬ ListsOwn q [x, y, z, w]) := by
  obtain ⟨s, hs, hlookup⟩ := podIpIndex_initialList order
  refine ⟨s, hs, ?_⟩
  rintro l p r rfl hp x y z w hlists
  -- no later pod has the key of `p`
  have hnodup : ((l ++ p :: r).map podKey).Nodup := (horder.map podKey).nodup_iff.2 hkeys
  have hlater : ∀ q ∈ r, podKey q ≠ podKey p := by
    intro q hq heq
    rw [List.map_append, List.map_cons, List.nodup_append] at hnodup
    exact (List.nodup_cons.1 hnodup.2.1).1 (heq ▸ List.mem_map_of_mem hq)
  have hmem : ∀ q ∈ p :: r, q ∈ pods := fun q hq =>
    horder.subset (List.mem_append_right _ hq)
  have hwritten : ownerWritten [x, y, z, w] p = some (podKey p) := if_pos hlists
  have hlast : s.podIpIndex.lookup (word32 x y z w)
      = (Runs.lastWrite (ownerWritten [x, y, z, w]) r).or (some (podKey p)) := by
    rw [hlookup, List.append_cons, Runs.lastWrite_append, Runs.lastWrite_append,
      Runs.lastWrite_singleton, hwritten]
    rfl
  rw [hlast]
  constructor
  · intro h q hq _ hqlists
    cases hr : Runs.lastWrite (ownerWritten [x, y, z, w]) r with
    | none =>
        have hnone := Runs.lastWrite_eq_none_iff.1 hr q hq
        rw [ownerWritten, if_pos hqlists] at hnone
        cases hnone
    | some k =>
        -- the address went to a later pod, and has its key
        obtain ⟨q', hq', hk⟩ := Runs.exists_of_lastWrite_eq_some hr
        rw [ownerWritten] at hk
        split_ifs at hk
        rw [hr, ← hk] at h
        exact hlater q' hq' (Option.some.inj h)
  · intro h
    have hnone : Runs.lastWrite (ownerWritten [x, y, z, w]) r = none := by
      refine Runs.lastWrite_eq_none_iff.2 fun q hq => if_neg fun hqlists => ?_
      by_cases hfin : finished q
      · exact h q hq hfin hqlists
      · have heq : q = p := hunique _ q (hmem q (List.mem_cons_of_mem _ hq)) p
          (hmem p List.mem_cons_self) hfin hp hqlists hlists
        exact hlater q hq (congrArg podKey heq)
    rw [hnone]
    rfl

/-- The pods that share an address in the runs below: one has finished. -/
def finishedPod : Pod := ⟨"default", "a", "n", "192.168.0.1", ["10.0.0.1"]⟩

/-- The other one has the address now. -/
def livePod : Pod := { finishedPod with name := "b" }

/-- The live pod alone lists an address without having finished. -/
theorem unique_livePod (v4 : List UInt8) :
    ∀ p ∈ [finishedPod, livePod], ∀ q ∈ [finishedPod, livePod], ¬ p = finishedPod →
      ¬ q = finishedPod → ListsOwn p v4 → ListsOwn q v4 → p = q := by
  intro p hp q hq hpfin hqfin _ _
  have hlive : ∀ pod ∈ [finishedPod, livePod], ¬ pod = finishedPod → pod = livePod := by
    intro pod hpod hfin
    rcases List.mem_cons.1 hpod with rfl | hpod
    · exact absurd rfl hfin
    · exact List.mem_singleton.1 hpod
  rw [hlive p hp hpfin, hlive q hq hqfin]

/-- The live pod is found at its address when it is added last. -/
theorem initialList_iff_live_last :
    ∃ s, run ([finishedPod, livePod].map fun pod => .podAdd (.pod pod)) = some s
      ∧ s.podIpIndex.lookup (word32 10 0 0 1) = some (podKey livePod) := by
  obtain ⟨s, hs, hiff⟩ := initialList_iff (fun pod => pod = finishedPod) [finishedPod, livePod]
    [finishedPod, livePod] (List.Perm.refl _) (by decide) unique_livePod
  refine ⟨s, hs, (hiff [finishedPod] livePod [] rfl (by decide) 10 0 0 1 (by decide)).2 ?_⟩
  exact fun q hq => absurd hq List.not_mem_nil

/-- The finished pod is found at the address when it is added last. -/
theorem initialList_finished_last :
    ([finishedPod, livePod].map podKey).Nodup
      ∧ [livePod, finishedPod].Perm [finishedPod, livePod]
      ∧ (∀ v4, ∀ p ∈ [finishedPod, livePod], ∀ q ∈ [finishedPod, livePod], ¬ p = finishedPod →
        ¬ q = finishedPod → ListsOwn p v4 → ListsOwn q v4 → p = q)
      ∧ ListsOwn livePod [10, 0, 0, 1]
      ∧ ∃ s, run ([livePod, finishedPod].map fun pod => .podAdd (.pod pod)) = some s
        ∧ s.podIpIndex.lookup (word32 10 0 0 1) = some (podKey finishedPod)
        ∧ podKey finishedPod ≠ podKey livePod := by
  refine ⟨by decide, List.Perm.swap _ _ _, unique_livePod, by decide, _, run_eq _, ?_, by decide⟩
  decide

end Server
