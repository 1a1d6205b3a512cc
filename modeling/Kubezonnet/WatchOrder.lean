/-
# The order of the two watches

The pods and the nodes are watched by two goroutines, so the server sees an
interleaving of a stream `P` of pod events and a stream `N` of node events.  The
streams meet in one place only: the pod stream files host addresses under the
name of a node, and the deletion of a node takes the addresses filed under its
name so far.  Everything else follows one of the streams (`pods_interleaving`,
`zones_interleaving`).

A pod is found by its address and its node's zone is looked up last, so it is
found whichever way the streams cross.  A host address is lost for good when the
node is deleted and comes back under its name after the pod was seen.  So the
order matters exactly when some address ends up as the host address of a node
that has been deleted in `N` and has a zone again at the end
(`resolve_interleaving_iff`).
-/
import Kubezonnet.Cluster

open Kube WordBytes
open Runs (Interleaving)

namespace Server

/-! ## The two streams -/

/-- An event of the pod informer. -/
def Event.IsPodEvent : Event → Prop
  | .podAdd _ | .podUpdate _ _ | .podDelete _ => True
  | _ => False

/-- An event of the node informer. -/
def Event.IsNodeEvent : Event → Prop
  | .nodeAdd _ | .nodeUpdate _ _ | .nodeDelete _ => True
  | _ => False

/-- The stream deletes the node. -/
def Drops (N : List Event) (node : String) : Prop := ∃ e ∈ N, e.action = .dropNode node

/-- What a pod event can do. -/
theorem Event.IsPodEvent.action {e : Event} (he : e.IsPodEvent) :
    (∃ pod, e.action = .register pod) ∨ (∃ pod, e.action = .unregister pod)
      ∨ e.action = .ignore := by
  cases e with
  | podAdd obj => cases obj <;> simp [Event.action]
  | podUpdate oldObj newObj => cases newObj <;> simp [Event.action]
  | podDelete obj => cases obj <;> simp [Event.action]
  | _ => exact absurd he id

/-- What a node event can do. -/
theorem Event.IsNodeEvent.action {e : Event} (he : e.IsNodeEvent) :
    (∃ node zone, e.action = .setZone node zone) ∨ (∃ node, e.action = .dropNode node)
      ∨ e.action = .ignore := by
  cases e with
  | nodeAdd obj => cases obj <;> simp [Event.action]
  | nodeUpdate oldObj newObj => cases newObj <;> simp [Event.action]
  | nodeDelete obj => cases obj <;> simp [Event.action]
  | _ => exact absurd he id

/-! ## One event of each stream -/

namespace Cluster

/-- A node event leaves the pods and their addresses alone, and takes addresses
from nodes but gives none. -/
theorem next_nodeEvent {e : Event} (he : e.IsNodeEvent) (c : Cluster) :
    (c.next e).pods = c.pods ∧ (c.next e).podAt = c.podAt
      ∧ ∀ v4 node, (c.next e).nodeAt v4 = some node → c.nodeAt v4 = some node := by
  unfold next
  rcases he.action with ⟨node, zone, ha⟩ | ⟨node, ha⟩ | ha
  · rw [ha]
    exact ⟨rfl, rfl, fun _ _ h => h⟩
  · rw [ha]
    refine ⟨rfl, rfl, fun v4 n h => ?_⟩
    change (if c.nodeAt v4 = some node then none else c.nodeAt v4) = some n at h
    split_ifs at h
    exact h
  · rw [ha]
    exact ⟨rfl, rfl, fun _ _ h => h⟩

/-- A node event that does not delete the node takes no address from it. -/
theorem next_nodeEvent_keeps {e : Event} (he : e.IsNodeEvent) {node : String}
    (hdrop : e.action ≠ .dropNode node) {c : Cluster} {v4 : List UInt8}
    (h : c.nodeAt v4 = some node) : (c.next e).nodeAt v4 = some node := by
  unfold next
  rcases he.action with ⟨n, zone, ha⟩ | ⟨n, ha⟩ | ha
  · rw [ha]
    exact h
  · have hn : some node ≠ some n := fun heq => hdrop (by rw [ha, Option.some.inj heq])
    rw [ha]
    show (if c.nodeAt v4 = some n then none else c.nodeAt v4) = some node
    rw [h, if_neg hn]
  · rw [ha]
    exact h

/-- A pod event leaves the zones alone. -/
theorem zones_next_podEvent {e : Event} (he : e.IsPodEvent) (c : Cluster) :
    (c.next e).zones = c.zones := by
  unfold next
  rcases he.action with ⟨pod, ha⟩ | ⟨pod, ha⟩ | ha <;> rw [ha] <;> rfl

/-- The zones after a node event depend on the zones before it alone. -/
theorem zones_next_nodeEvent {e : Event} (he : e.IsNodeEvent) {c d : Cluster}
    (h : c.zones = d.zones) : (c.next e).zones = (d.next e).zones := by
  unfold next
  rcases he.action with ⟨node, zone, ha⟩ | ⟨node, ha⟩ | ha
  · rw [ha]
    show Function.update c.zones node _ = Function.update d.zones node _
    rw [h]
  · rw [ha]
    show Function.update c.zones node _ = Function.update d.zones node _
    rw [h]
  · rw [ha]
    exact h

/-- The pods and their addresses after a pod event depend on the pods and their
addresses before it alone. -/
theorem pods_next_podEvent {e : Event} (he : e.IsPodEvent) {c d : Cluster}
    (hpods : c.pods = d.pods) (hpodAt : c.podAt = d.podAt) :
    (c.next e).pods = (d.next e).pods ∧ (c.next e).podAt = (d.next e).podAt := by
  unfold next
  rcases he.action with ⟨pod, ha⟩ | ⟨pod, ha⟩ | ha
  · rw [ha]
    simp only [act, hpods, hpodAt, and_self]
  · have haddrs : c.addrsOf (podKey pod) = d.addrsOf (podKey pod) := by
      unfold addrsOf
      rw [hpods]
    rw [ha]
    constructor
    · show Function.update c.pods _ _ = Function.update d.pods _ _
      rw [hpods]
    · funext v4
      show (if v4 ∈ c.addrsOf (podKey pod) ∧ ¬ pod.IsHostAddr v4 then none else c.podAt v4)
        = if v4 ∈ d.addrsOf (podKey pod) ∧ ¬ pod.IsHostAddr v4 then none else d.podAt v4
      simp only [haddrs, hpodAt]
  · rw [ha]
    exact ⟨hpods, hpodAt⟩

/-- A pod event gives an address to a node, or leaves it where it is, whatever
the cluster. -/
theorem nodeAt_next_podEvent {e : Event} (he : e.IsPodEvent) (v4 : List UInt8) :
    (∃ node, ∀ c : Cluster, (c.next e).nodeAt v4 = some node)
      ∨ ∀ c : Cluster, (c.next e).nodeAt v4 = c.nodeAt v4 := by
  unfold next
  rcases he.action with ⟨pod, ha⟩ | ⟨pod, ha⟩ | ha
  · rw [ha]
    by_cases hhost : v4 ∈ pod.addrs ∧ pod.IsHostAddr v4
    · exact Or.inl ⟨pod.nodeName, fun c => if_pos hhost⟩
    · exact Or.inr fun c => if_neg hhost
  · rw [ha]
    exact Or.inr fun c => rfl
  · rw [ha]
    exact Or.inr fun c => rfl

/-- A pod event keeps an implication between what two clusters say about a host address. -/
theorem nodeAt_imp_podEvent {e : Event} (he : e.IsPodEvent) {v4 : List UInt8} {node : String}
    {c d : Cluster} (h : c.nodeAt v4 = some node → d.nodeAt v4 = some node) :
    (c.next e).nodeAt v4 = some node → (d.next e).nodeAt v4 = some node := by
  rcases nodeAt_next_podEvent he v4 with ⟨n, hn⟩ | hsame
  · rw [hn c, hn d]
    exact id
  · rw [hsame c, hsame d]
    exact h

end Cluster

/-! ## Interleaved streams -/

section Streams

variable {P N : List Event} (hP : ∀ e ∈ P, e.IsPodEvent) (hN : ∀ e ∈ N, e.IsNodeEvent)
include hP hN

/-- After an interleaving the pods and their addresses are those after the pod stream. -/
theorem pods_interleaving {es : List Event} (h : Interleaving P N es) :
    (Cluster.after es).pods = (Cluster.after P).pods
      ∧ (Cluster.after es).podAt = (Cluster.after P).podAt := by
  refine h.related (R := fun c d : Cluster => c.pods = d.pods ∧ c.podAt = d.podAt) ?_ ?_ ⟨rfl, rfl⟩
  · rintro e he c d ⟨hpods, hpodAt⟩
    exact Cluster.pods_next_podEvent (hP e he) hpods hpodAt
  · rintro e he c d ⟨hpods, hpodAt⟩
    obtain ⟨h1, h2, -⟩ := Cluster.next_nodeEvent (hN e he) c
    exact ⟨h1.trans hpods, h2.trans hpodAt⟩

/-- After an interleaving the zones are those after the node stream. -/
theorem zones_interleaving {es : List Event} (h : Interleaving P N es) :
    (Cluster.after es).zones = (Cluster.after N).zones := by
  refine h.symm.related (R := fun c d : Cluster => c.zones = d.zones) ?_ ?_ rfl
  · intro e he c d hR
    exact Cluster.zones_next_nodeEvent (hN e he) hR
  · intro e he c d hR
    rw [Cluster.zones_next_podEvent (hP e he) c]
    exact hR

/-- After an interleaving the host addresses are some of those after the pod stream. -/
theorem nodeAt_of_interleaving {es : List Event} (h : Interleaving P N es) (v4 : List UInt8)
    (node : String) :
    (Cluster.after es).nodeAt v4 = some node → (Cluster.after P).nodeAt v4 = some node := by
  refine h.related (R := fun c d : Cluster => c.nodeAt v4 = some node → d.nodeAt v4 = some node)
    ?_ ?_ id
  · intro e he c d hR
    exact Cluster.nodeAt_imp_podEvent (hP e he) hR
  · intro e he c d hR hc
    exact hR ((Cluster.next_nodeEvent (hN e he) c).2.2 v4 node hc)

/-- After an interleaving a node that is never deleted has all the addresses it
has after the pod stream. -/
theorem nodeAt_interleaving_of_stays {es : List Event} (h : Interleaving P N es) (v4 : List UInt8)
    {node : String} (hstays : ¬ Drops N node) :
    (Cluster.after P).nodeAt v4 = some node → (Cluster.after es).nodeAt v4 = some node := by
  refine h.related (R := fun c d : Cluster => d.nodeAt v4 = some node → c.nodeAt v4 = some node)
    ?_ ?_ id
  · intro e he c d hR
    exact Cluster.nodeAt_imp_podEvent (hP e he) hR
  · intro e he c d hR hd
    have hne : e.action ≠ .dropNode node := fun ha => hstays ⟨e, he, ha⟩
    exact Cluster.next_nodeEvent_keeps (hN e he) hne (hR hd)

end Streams

/-- Node events alone give no address to a node. -/
theorem nodeAt_of_run_nodeEvents {N : List Event} (hN : ∀ e ∈ N, e.IsNodeEvent) {c : Cluster}
    {v4 : List UInt8} {node : String} (h : (Runs.run Cluster.next c N).nodeAt v4 = some node) :
    c.nodeAt v4 = some node := by
  induction N generalizing c with
  | nil => exact h
  | cons e N ih =>
      have htail := ih (fun e' he' => hN e' (List.mem_cons_of_mem _ he')) h
      exact (Cluster.next_nodeEvent (hN e List.mem_cons_self) c).2.2 v4 node htail

/-- After the deletion of a node, node events alone leave it without an address. -/
theorem nodeAt_ne_of_drops {N : List Event} (hN : ∀ e ∈ N, e.IsNodeEvent) {node : String}
    (hdrop : Drops N node) (c : Cluster) (v4 : List UInt8) :
    (Runs.run Cluster.next c N).nodeAt v4 ≠ some node := by
  obtain ⟨e, he, ha⟩ := hdrop
  obtain ⟨N₁, N₂, rfl⟩ := List.append_of_mem he
  have hN₂ : ∀ e' ∈ N₂, e'.IsNodeEvent := fun e' he' =>
    hN e' (List.mem_append_right _ (List.mem_cons_of_mem _ he'))
  rw [Runs.run_append, Runs.run_cons]
  intro h
  have hdropped := nodeAt_of_run_nodeEvents hN₂ h
  -- the deletion itself leaves the node without an address
  rw [Cluster.next, ha] at hdropped
  change (if _ = some node then none else _) = some node at hdropped
  split_ifs at hdropped with hcond
  exact hcond hdropped

/-- When the pod events come last, the host addresses are those after the pod stream. -/
theorem nodeAt_pods_last {P N : List Event} (hP : ∀ e ∈ P, e.IsPodEvent)
    (hN : ∀ e ∈ N, e.IsNodeEvent) (v4 : List UInt8) :
    (Cluster.after (N ++ P)).nodeAt v4 = (Cluster.after P).nodeAt v4 := by
  have hnone : (Cluster.after N).nodeAt v4 = none := by
    rw [Option.eq_none_iff_forall_ne_some]
    intro node h
    have hempty : Cluster.empty.nodeAt v4 = some node := nodeAt_of_run_nodeEvents hN h
    cases hempty
  unfold Cluster.after at hnone ⊢
  rw [Runs.run_append]
  generalize Runs.run Cluster.next Cluster.empty N = c at hnone
  have hP' : Interleaving P [] P := by
    have happend := Interleaving.append P ([] : List Event)
    rwa [List.append_nil] at happend
  refine hP'.related (R := fun c d : Cluster => c.nodeAt v4 = d.nodeAt v4)
    (fun e he c d hR => ?_) (fun e he => absurd he List.not_mem_nil) hnone
  rcases Cluster.nodeAt_next_podEvent (hP e he) v4 with ⟨n, hn⟩ | hsame
  · rw [hn, hn]
  · rw [hsame, hsame]
    exact hR

/-! ## Order independence -/

/-- The two streams never disagree about a host address: no address that belongs
to no pod ends up as the host address of a node that `N` deletes and that has a
zone at the end. -/
def HostAddressesSettled (P N : List Event) : Prop :=
  ∀ x y z w node, (Cluster.after P).podAt [x, y, z, w] = none →
    (Cluster.after P).nodeAt [x, y, z, w] = some node → Drops N node →
    (Cluster.after N).zones node = none

/-- The server resolves an address like the cluster of its run. -/
theorem resolve_of_run {es : List Event} {s : State} (hs : run es = some s) (x y z w : UInt8) :
    s.resolve (word32 x y z w) = (Cluster.after es).resolve [x, y, z, w] := by
  obtain ⟨s', hs', hrep⟩ := run_represents es
  obtain rfl : s = s' := Option.some.inj (hs.symm.trans hs')
  exact hrep.resolve_eq x y z w

section Streams

variable {P N : List Event} (hP : ∀ e ∈ P, e.IsPodEvent) (hN : ∀ e ∈ N, e.IsNodeEvent)
include hP hN

/-- If the streams never disagree about a host address, an address resolves to
what the two streams alone determine. -/
theorem resolve_interleaving (h : HostAddressesSettled P N) {es : List Event}
    (hes : Interleaving P N es) (x y z w : UInt8) :
    (Cluster.after es).resolve [x, y, z, w]
      = { Cluster.after P with zones := (Cluster.after N).zones }.resolve [x, y, z, w] := by
  obtain ⟨hpods, hpodAt⟩ := pods_interleaving hP hN hes
  have hsub := nodeAt_of_interleaving hP hN hes [x, y, z, w]
  unfold Cluster.resolve
  rw [hpods, hpodAt, zones_interleaving hP hN hes]
  cases hpod : (Cluster.after P).podAt [x, y, z, w] with
  | some k => rfl
  | none =>
      show Option.bind _ _ = Option.bind _ _
      cases hnode : (Cluster.after P).nodeAt [x, y, z, w] with
      | none =>
          have hes_none : (Cluster.after es).nodeAt [x, y, z, w] = none := by
            rw [Option.eq_none_iff_forall_ne_some]
            intro node hnode'
            rw [hsub node hnode'] at hnode
            cases hnode
          rw [hes_none]
      | some node =>
          by_cases hdrop : Drops N node
          · -- the address may be lost, but the node has no zone
            have hzone : (Cluster.after N).zones node = none := h x y z w node hpod hnode hdrop
            cases hes_node : (Cluster.after es).nodeAt [x, y, z, w] with
            | none => simp [hzone]
            | some node' =>
                rw [hsub node' hes_node] at hnode
                rw [hnode]
          · rw [nodeAt_interleaving_of_stays hP hN hes _ hdrop hnode]

/-- A host address that the streams disagree about resolves to its node when the
pods come last, and to nothing when the nodes come last. -/
theorem resolve_unsettled {x y z w : UInt8} {node zone : String}
    (hpod : (Cluster.after P).podAt [x, y, z, w] = none)
    (hnode : (Cluster.after P).nodeAt [x, y, z, w] = some node) (hdrop : Drops N node)
    (hzone : (Cluster.after N).zones node = some zone) :
    (Cluster.after (N ++ P)).resolve [x, y, z, w] = some (nodeKey node, zone)
      ∧ (Cluster.after (P ++ N)).resolve [x, y, z, w] = none := by
  have hlast : Interleaving P N (N ++ P) := (Interleaving.append N P).symm
  have hfirst : Interleaving P N (P ++ N) := Interleaving.append P N
  constructor
  · obtain ⟨-, hpodAt⟩ := pods_interleaving hP hN hlast
    unfold Cluster.resolve
    rw [hpodAt, hpod, zones_interleaving hP hN hlast, nodeAt_pods_last hP hN, hnode]
    show Option.map _ ((Cluster.after N).zones node) = _
    rw [hzone]
    rfl
  · obtain ⟨-, hpodAt⟩ := pods_interleaving hP hN hfirst
    have hlost : (Cluster.after (P ++ N)).nodeAt [x, y, z, w] = none := by
      rw [Option.eq_none_iff_forall_ne_some]
      intro node' hnode'
      have heq : some node = some node' :=
        hnode.symm.trans (nodeAt_of_interleaving hP hN hfirst _ node' hnode')
      rw [← Option.some.inj heq] at hnode'
      unfold Cluster.after at hnode'
      rw [Runs.run_append] at hnode'
      exact nodeAt_ne_of_drops hN hdrop _ _ hnode'
    unfold Cluster.resolve
    rw [hpodAt, hpod, hlost]
    rfl

end Streams

/-- Main result: every two interleavings of a pod stream and a node stream
resolve every address alike exactly if the streams never disagree about a host
address. -/
theorem resolve_interleaving_iff (P N : List Event) (hP : ∀ e ∈ P, e.IsPodEvent)
    (hN : ∀ e ∈ N, e.IsNodeEvent) :
    (∀ es es' s s', Interleaving P N es → Interleaving P N es' →
        run es = some s → run es' = some s' → ∀ ip, s.resolve ip = s'.resolve ip)
      ↔ HostAddressesSettled P N := by
  constructor
  · intro h x y z w node hpod hnode hdrop
    rw [Option.eq_none_iff_forall_ne_some]
    intro zone hzone
    obtain ⟨hlast, hfirst⟩ := resolve_unsettled hP hN hpod hnode hdrop hzone
    have heq := h (N ++ P) (P ++ N) _ _ (Interleaving.append N P).symm (Interleaving.append P N)
      (run_eq _) (run_eq _) (word32 x y z w)
    rw [resolve_of_run (run_eq _), resolve_of_run (run_eq _), hlast, hfirst] at heq
    cases heq
  · intro h es es' s s' hes hes' hs hs' ip
    obtain ⟨x, y, z, w, rfl⟩ := exists_word32 ip
    rw [resolve_of_run hs, resolve_of_run hs', resolve_interleaving hP hN h hes,
      resolve_interleaving hP hN h hes']

/-- A pod on the network of its node, seen before or after the node is deleted
and comes back: its address is lost, or found. -/
theorem resolve_recreated_node :
    let pod : Pod := ⟨"kube-system", "proxy", "n", "192.168.0.1", ["192.168.0.1"]⟩
    let node : Obj := .node ⟨"n", (∅ : GoMap String String).insert "topology.kubernetes.io/zone" "a"⟩
    let P : List Event := [.podAdd (.pod pod)]
    let N : List Event := [.nodeAdd node, .nodeDelete node, .nodeAdd node]
    Interleaving P N (P ++ N) ∧ Interleaving P N (N ++ P)
      ∧ ∃ s s', run (P ++ N) = some s ∧ run (N ++ P) = some s'
        ∧ s.resolve (word32 192 168 0 1) = none
        ∧ s'.resolve (word32 192 168 0 1) = some (nodeKey "n", "a") := by
  intro pod node P N
  refine ⟨Interleaving.append P N, (Interleaving.append N P).symm, _, _, run_eq _, run_eq _, ?_, ?_⟩
  · decide
  · decide

/-- Two streams with a node that stays. -/
theorem resolve_interleaving_iff_staying_node :
    let pod : Pod := ⟨"kube-system", "proxy", "n", "192.168.0.1", ["192.168.0.1"]⟩
    let P : List Event := [.podAdd (.pod pod)]
    let N : List Event := [.nodeAdd (.node ⟨"n", ∅⟩)]
    (∀ es es' s s', Interleaving P N es → Interleaving P N es' →
        run es = some s → run es' = some s' → ∀ ip, s.resolve ip = s'.resolve ip)
      ↔ HostAddressesSettled P N := by
  intro pod P N
  refine resolve_interleaving_iff P N (fun e he => ?_) (fun e he => ?_)
  · rw [List.mem_singleton.1 he]
    exact trivial
  · rw [List.mem_singleton.1 he]
    exact trivial

end Server
