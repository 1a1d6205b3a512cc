/-
# The history of a node address

`handlePod` files the host address of a pod under the name of its node, and
`onNodeDelete` takes out the addresses filed under the name of the node.  Nothing
else touches `nodeIpIndex`.  So an address belongs to a node exactly if the last
pod that listed it as its host address was on the node, and the node has not been
deleted since (`nodeIpIndex_history`).
-/
import Kubezonnet.ServerActions

open Kube WordBytes

namespace Server

/-! ## What concerns an address -/

/-- The event is a call of `handlePod` for a pod on the node that lists the
address as its host address. -/
def Event.ListsHost (node : String) (v4 : List UInt8) (e : Event) : Prop :=
  ∃ pod, e.action = .register pod ∧ v4 ∈ pod.addrs ∧ pod.IsHostAddr v4 ∧ pod.nodeName = node

/-- The event ends what an address has to do with the node: a pod lists it as its
host address, or the node is deleted. -/
def Event.EndsHost (node : String) (v4 : List UInt8) (e : Event) : Prop :=
  (∃ other, e.ListsHost other v4) ∨ e.action = .dropNode node

/-- The event deletes a pod or another node, or sets the labels of a node. -/
def Event.SparesNode (node : String) : Event → Prop
  | .podDelete _ | .nodeAdd _ | .nodeUpdate _ _ => True
  | .nodeDelete (.node other) => other.name ≠ node
  | _ => False

theorem listsHost_of_register {e : Event} {pod : Pod} (ha : e.action = .register pod)
    {node : String} {v4 : List UInt8} :
    e.ListsHost node v4 ↔ v4 ∈ pod.addrs ∧ pod.IsHostAddr v4 ∧ pod.nodeName = node := by
  constructor
  · rintro ⟨pod', ha', hlists⟩
    obtain rfl : pod = pod' := Action.register.inj (ha.symm.trans ha')
    exact hlists
  · exact fun hlists => ⟨pod, ha, hlists⟩

/-- An event that is not a registration lists no host address. -/
theorem not_listsHost_of_action {e : Event} {node : String} {v4 : List UInt8}
    (hpod : ∀ pod, e.action ≠ .register pod) : ¬ e.ListsHost node v4 := by
  rintro ⟨pod, ha, -⟩
  exact hpod pod ha

/-- Unless it is a registration or the deletion of the node, an event ends nothing. -/
theorem not_endsHost_of_action {e : Event} {node : String} {v4 : List UInt8}
    (hpod : ∀ pod, e.action ≠ .register pod) (hnode : e.action ≠ .dropNode node) :
    ¬ e.EndsHost node v4 := by
  rintro (⟨other, hlists⟩ | hdrop)
  · exact not_listsHost_of_action hpod hlists
  · exact hnode hdrop

/-- An event that spares a node is neither. -/
theorem Event.SparesNode.action {e : Event} {node : String} (h : e.SparesNode node) :
    (∀ pod, e.action ≠ .register pod) ∧ e.action ≠ .dropNode node := by
  rcases e with obj | ⟨_, obj⟩ | obj | obj | ⟨_, obj⟩ | obj | data
  · exact absurd h id
  · exact absurd h id
  · cases obj <;> simp [Event.action]
  · cases obj <;> simp [Event.action]
  · cases obj <;> simp [Event.action]
  · rcases obj with pod | other | _
    · exact absurd h id
    · constructor
      · intro pod ha
        cases ha
      · exact fun ha => h (Action.dropNode.inj ha)
    · exact absurd h id
  · exact absurd h id

/-! ## One event -/

/-- An event that neither registers a pod nor deletes the node leaves its addresses alone. -/
theorem lookup_nodeIpIndex_next_spared {s : State} {e : Event} {node : String}
    (hpod : ∀ pod, e.action ≠ .register pod) (hnode : e.action ≠ .dropNode node) (ip : UInt32) :
    (s.next e).nodeIpIndex.lookup ip = some node ↔ s.nodeIpIndex.lookup ip = some node := by
  unfold State.next
  cases ha : e.action with
  | register pod => exact absurd ha (hpod pod)
  | dropNode other =>
      have hne : other ≠ node := fun heq => hnode (heq ▸ ha)
      rw [lookup_nodeIpIndex_dropNode]
      split_ifs with hlookup
      · rw [hlookup, Option.some.injEq]
        exact iff_of_false (by simp) hne
      · exact Iff.rfl
  | report data => rw [(report_indexes s data).2.1]
  | _ => exact Iff.rfl

/-- The registration of a pod files the addresses that it lists as host addresses. -/
theorem lookup_nodeIpIndex_next_register {s : State} {e : Event} {pod : Pod}
    (ha : e.action = .register pod) (x y z w : UInt8) (node : String) :
    (s.next e).nodeIpIndex.lookup (word32 x y z w) = some node
      ↔ e.ListsHost node [x, y, z, w]
        ∨ s.nodeIpIndex.lookup (word32 x y z w) = some node ∧ ¬ e.EndsHost node [x, y, z, w] := by
  have hhost : word32 x y z w ∈ pod.words ∧ pod.IsHost (word32 x y z w)
      ↔ [x, y, z, w] ∈ pod.addrs ∧ pod.IsHostAddr [x, y, z, w] :=
    and_congr word32_mem_words isHost_word32
  have hends : e.EndsHost node [x, y, z, w]
      ↔ [x, y, z, w] ∈ pod.addrs ∧ pod.IsHostAddr [x, y, z, w] := by
    constructor
    · rintro (⟨other, hlists⟩ | hdrop)
      · obtain ⟨hmem, haddr, -⟩ := (listsHost_of_register ha).1 hlists
        exact ⟨hmem, haddr⟩
      · rw [ha] at hdrop
        cases hdrop
    · exact fun h => Or.inl ⟨pod.nodeName, (listsHost_of_register ha).2 ⟨h.1, h.2, rfl⟩⟩
  rw [State.next, ha, lookup_nodeIpIndex_register, if_congr hhost rfl rfl, hends,
    listsHost_of_register ha, ← and_assoc]
  split_ifs with h
  · rw [Option.some.injEq]
    simp only [h, true_and, not_true_eq_false, and_false, or_false]
  · simp only [h, false_and, not_false_eq_true, and_true, false_or]

/-- An address belongs to a node after an event if the event lists it for the
node, or if it did before and the event does not end that. -/
theorem lookup_nodeIpIndex_next (s : State) (e : Event) (x y z w : UInt8) (node : String) :
    (s.next e).nodeIpIndex.lookup (word32 x y z w) = some node
      ↔ e.ListsHost node [x, y, z, w]
        ∨ s.nodeIpIndex.lookup (word32 x y z w) = some node ∧ ¬ e.EndsHost node [x, y, z, w] := by
  by_cases hpod : ∃ pod, e.action = .register pod
  · obtain ⟨pod, ha⟩ := hpod
    exact lookup_nodeIpIndex_next_register ha x y z w node
  · rw [not_exists] at hpod
    rw [or_iff_right (not_listsHost_of_action hpod)]
    by_cases hnode : e.action = .dropNode node
    · -- the addresses of the node are taken out
      have hends : e.EndsHost node [x, y, z, w] := Or.inr hnode
      rw [State.next, hnode, lookup_nodeIpIndex_dropNode]
      split_ifs with hlookup
      · exact iff_of_false (by simp) fun h => h.2 hends
      · exact iff_of_false hlookup fun h => hlookup h.1
    · rw [and_iff_left (not_endsHost_of_action hpod hnode), lookup_nodeIpIndex_next_spared hpod hnode]

/-! ## Whole runs -/

/-- Main result: after any run an address belongs to a node exactly if the last
pod that listed it as its host address was on the node, and the node has not been
deleted since.  Deletions of pods and of other nodes and labels of nodes change no
address of a node, and its own deletion removes them all. -/
theorem nodeIpIndex_history (es : List Event) :
    ∃ s, run es = some s
      ∧ (∀ x y z w node, s.nodeIpIndex.lookup (word32 x y z w) = some node
        ↔ ∃ pre e post, es = pre ++ e :: post ∧ e.ListsHost node [x, y, z, w]
          ∧ (∀ e' ∈ post, ∀ other, ¬ e'.ListsHost other [x, y, z, w])
          ∧ ∀ e' ∈ post, e'.action ≠ .dropNode node)
      ∧ (∀ e node, e.SparesNode node → ∃ s', run (es ++ [e]) = some s'
        ∧ ∀ ip, s'.nodeIpIndex.lookup ip = some node ↔ s.nodeIpIndex.lookup ip = some node)
      ∧ ∀ node : Node, ∃ s', run (es ++ [.nodeDelete (.node node)]) = some s'
        ∧ ∀ ip, s'.nodeIpIndex.lookup ip ≠ some node.name := by
  refine ⟨_, run_eq es, fun x y z w node => ?_, fun e node he => ⟨_, run_concat_eq es e, ?_⟩,
    fun node => ⟨_, run_concat_eq es _, fun ip hlookup => ?_⟩⟩
  · rw [Runs.run_iff_since (P := fun s : State => s.nodeIpIndex.lookup (word32 x y z w) = some node)
      (fun s e => lookup_nodeIpIndex_next s e x y z w node) (by simp [State.empty]) es]
    simp only [Runs.Since, Event.EndsHost, not_or, not_exists, forall₂_and, ne_eq]
  · exact lookup_nodeIpIndex_next_spared he.action.1 he.action.2
  · have hdrop := lookup_nodeIpIndex_dropNode (Runs.run State.next State.empty es) node.name ip
    have hsome := hdrop.symm.trans hlookup
    split_ifs at hsome with hbefore
    exact hbefore hsome

end Server
