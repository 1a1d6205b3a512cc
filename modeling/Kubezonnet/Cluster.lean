/-
# The cluster the events describe

The indexes of the server serve one purpose: to say, for the address of a flow,
which pod or node it stands for.  `Cluster` states that purpose without the
encoding: addresses are the four bytes that an address string denotes, and the
four indexes are functions.

* `pods`: the latest object of every live pod;
* `podAt`: the pod an address was last given to and not taken from since;
* `nodeAt`: the node that last claimed an address as its host address, until
  that node is deleted;
* `zones`: the zone of every live node.

The server represents the cluster in every state (`run_represents`), and an
address resolves in the server as it does in the cluster (`resolve_eq`).
-/
import Kubezonnet.ServerActions

open Kube WordBytes

namespace Server

/-! ## The cluster -/

/-- What the events so far say about the cluster. -/
@[ext]
structure Cluster : Type where
  pods : PodKey → Option Pod
  podAt : List UInt8 → Option PodKey
  nodeAt : List UInt8 → Option String
  zones : String → Option String

namespace Cluster

/-- The cluster before the first event. -/
def empty : Cluster :=
  ⟨fun _ => none, fun _ => none, fun _ => none, fun _ => none⟩

/-- The addresses of a pod, by its latest object. -/
def addrsOf (c : Cluster) (k : PodKey) : List (List UInt8) :=
  match c.pods k with
  | some pod => pod.addrs
  | none => []

/-- The cluster after an action. -/
def act (c : Cluster) : Action → Cluster
  | .register pod =>
      { c with
        pods := Function.update c.pods (podKey pod) (some pod)
        podAt := fun v4 =>
          if v4 ∈ pod.addrs ∧ ¬ pod.IsHostAddr v4 then some (podKey pod) else c.podAt v4
        nodeAt := fun v4 =>
          if v4 ∈ pod.addrs ∧ pod.IsHostAddr v4 then some pod.nodeName else c.nodeAt v4 }
  | .unregister pod =>
      { c with
        pods := Function.update c.pods (podKey pod) none
        podAt := fun v4 =>
          if v4 ∈ c.addrsOf (podKey pod) ∧ ¬ pod.IsHostAddr v4 then none else c.podAt v4 }
  | .setZone node zone => { c with zones := Function.update c.zones node (some zone) }
  | .dropNode node =>
      { c with
        nodeAt := fun v4 => if c.nodeAt v4 = some node then none else c.nodeAt v4
        zones := Function.update c.zones node none }
  | .report _ => c
  | .ignore => c

section Pods

variable (c : Cluster) (pod : Pod)

@[simp] theorem pods_register_self : (c.act (.register pod)).pods (podKey pod) = some pod :=
  Function.update_self ..

@[simp] theorem pods_unregister_self : (c.act (.unregister pod)).pods (podKey pod) = none :=
  Function.update_self ..

variable {pod}

theorem pods_register_of_ne {k : PodKey} (hk : k ≠ podKey pod) :
    (c.act (.register pod)).pods k = c.pods k :=
  Function.update_of_ne hk _ _

theorem pods_unregister_of_ne {k : PodKey} (hk : k ≠ podKey pod) :
    (c.act (.unregister pod)).pods k = c.pods k :=
  Function.update_of_ne hk _ _

end Pods

/-- The cluster after an event. -/
def next (c : Cluster) (e : Event) : Cluster := c.act e.action

/-- The cluster after a run of events. -/
def after (es : List Event) : Cluster := Runs.run next empty es

/-- The key and the zone an address stands for. -/
def resolve (c : Cluster) (v4 : List UInt8) : Option (PodKey × String) :=
  match c.podAt v4 with
  | some k => (c.pods k).bind fun pod => (c.zones pod.nodeName).map fun zone => (k, zone)
  | none => (c.nodeAt v4).bind fun node => (c.zones node).map fun zone => (nodeKey node, zone)

end Cluster

/-! ## The server represents the cluster -/

/-- The indexes of the server are those of the cluster, with words for addresses. -/
structure Represents (s : State) (c : Cluster) : Prop where
  pods : ∀ k, s.podIndex.lookup k = (c.pods k).map fun pod => ⟨pod.nodeName, pod.words⟩
  podAt : ∀ x y z w, s.podIpIndex.lookup (word32 x y z w) = c.podAt [x, y, z, w]
  nodeAt : ∀ x y z w, s.nodeIpIndex.lookup (word32 x y z w) = c.nodeAt [x, y, z, w]
  zones : ∀ node, s.nodeIndex.lookup node = c.zones node

/-- Before the first event the server represents the cluster. -/
theorem represents_empty : Represents State.empty Cluster.empty where
  pods _ := rfl
  podAt _ _ _ _ := rfl
  nodeAt _ _ _ _ := rfl
  zones _ := rfl

namespace Represents

variable {s : State} {c : Cluster}

/-- The recorded addresses of a pod are those of its latest object. -/
theorem recorded_eq (h : Represents s c) (k : PodKey) :
    s.recorded k = ((c.pods k).map Pod.words).getD [] := by
  unfold State.recorded
  rw [h.pods k]
  cases c.pods k <;> rfl

/-- An address is recorded for a pod exactly if the latest object lists it. -/
theorem mem_recorded (h : Represents s c) {k : PodKey} {x y z w : UInt8} :
    word32 x y z w ∈ s.recorded k ↔ [x, y, z, w] ∈ c.addrsOf k := by
  rw [h.recorded_eq, Cluster.addrsOf]
  cases c.pods k with
  | none => simp
  | some pod => exact word32_mem_words

theorem register (h : Represents s c) (pod : Pod) :
    Represents (s.act (.register pod)) (c.act (.register pod)) where
  pods k := by
    rw [podIndex_register, GoMap.lookup_insert_ite, h.pods k]
    show _ = Option.map _ (Function.update c.pods (podKey pod) (some pod) k)
    rw [Function.update_apply]
    split_ifs <;> rfl
  podAt x y z w := by
    rw [lookup_podIpIndex_register, h.podAt]
    exact if_congr (and_congr word32_mem_words (not_congr isHost_word32)) rfl rfl
  nodeAt x y z w := by
    rw [lookup_nodeIpIndex_register, h.nodeAt]
    exact if_congr (and_congr word32_mem_words isHost_word32) rfl rfl
  zones node := by
    rw [nodeIndex_register]
    exact h.zones node

theorem unregister (h : Represents s c) (pod : Pod) :
    Represents (s.act (.unregister pod)) (c.act (.unregister pod)) where
  pods k := by
    rw [podIndex_unregister, GoMap.lookup_erase_ite, h.pods k]
    show _ = Option.map _ (Function.update c.pods (podKey pod) none k)
    rw [Function.update_apply]
    split_ifs <;> rfl
  podAt x y z w := by
    rw [lookup_podIpIndex_unregister, h.podAt]
    exact if_congr (and_congr h.mem_recorded (not_congr isHost_word32)) rfl rfl
  nodeAt := h.nodeAt
  zones := h.zones

theorem setZone (h : Represents s c) (node zone : String) :
    Represents (s.act (.setZone node zone)) (c.act (.setZone node zone)) where
  pods := h.pods
  podAt := h.podAt
  nodeAt := h.nodeAt
  zones n := by
    show (s.nodeIndex.insert node zone).lookup n = Function.update c.zones node (some zone) n
    rw [GoMap.lookup_insert_ite, Function.update_apply, h.zones n]

theorem dropNode (h : Represents s c) (node : String) :
    Represents (s.act (.dropNode node)) (c.act (.dropNode node)) where
  pods := h.pods
  podAt := h.podAt
  nodeAt x y z w := by
    rw [lookup_nodeIpIndex_dropNode, h.nodeAt]
    rfl
  zones n := by
    show (s.nodeIndex.erase node).lookup n = Function.update c.zones node none n
    rw [GoMap.lookup_erase_ite, Function.update_apply, h.zones n]

/-- The statistics play no part. -/
theorem congr {s' : State} (h : Represents s c) (hip : s'.podIpIndex = s.podIpIndex)
    (hnip : s'.nodeIpIndex = s.nodeIpIndex) (hpod : s'.podIndex = s.podIndex)
    (hnode : s'.nodeIndex = s.nodeIndex) : Represents s' c where
  pods := by rw [hpod]; exact h.pods
  podAt := by rw [hip]; exact h.podAt
  nodeAt := by rw [hnip]; exact h.nodeAt
  zones := by rw [hnode]; exact h.zones

/-- Every event keeps the server and the cluster together. -/
theorem next (h : Represents s c) (e : Event) : Represents (s.next e) (c.next e) := by
  unfold State.next Cluster.next
  cases e.action with
  | register pod => exact h.register pod
  | unregister pod => exact h.unregister pod
  | setZone node zone => exact h.setZone node zone
  | dropNode node => exact h.dropNode node
  | report data =>
      obtain ⟨hip, hnip, hpod, hnode⟩ := report_indexes s data
      exact h.congr hip hnip hpod hnode
  | ignore => exact h

/-- An address resolves in the server as it does in the cluster. -/
theorem resolve_eq (h : Represents s c) (x y z w : UInt8) :
    s.resolve (word32 x y z w) = c.resolve [x, y, z, w] := by
  unfold State.resolve Cluster.resolve
  rw [h.podAt, h.nodeAt]
  cases c.podAt [x, y, z, w] with
  | some k =>
      simp only [h.pods k]
      cases c.pods k with
      | none => rfl
      | some pod =>
          show Option.map _ (s.nodeIndex.lookup pod.nodeName) = Option.map _ (c.zones pod.nodeName)
          rw [h.zones]
  | none =>
      cases c.nodeAt [x, y, z, w] with
      | none => rfl
      | some node =>
          show Option.map _ (s.nodeIndex.lookup node) = Option.map _ (c.zones node)
          rw [h.zones]

end Represents

/-- After every run the server represents the cluster the run describes. -/
theorem run_represents (es : List Event) :
    ∃ s, run es = some s ∧ Represents s (Cluster.after es) :=
  ⟨_, run_eq es, Runs.run_related (fun _ _ e h => h.next e) represents_empty es⟩

end Server
