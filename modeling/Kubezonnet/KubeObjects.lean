/-
# Kubernetes objects

The fields of the Kubernetes objects that the server and the agent read, what
an informer can hand to its handlers, and the IPv4 addresses of a pod.  The
addresses come in two forms: as the four bytes of an address string
(`Pod.addrs`), and as the word the code computes from them (`Pod.words`).
-/
import Kubezonnet.GoMap
import Kubezonnet.IpWord

open WordBytes GoNet IpWord

namespace Kube

/-! ## Objects -/

/-- The fields of a `v1.Pod` that the server and the agent read. -/
structure Pod : Type where
  nspace : String
  name : String
  nodeName : String
  hostIP : String
  podIPs : List String
  deriving DecidableEq, Repr

/-- The fields of a `v1.Node` that the server reads. -/
structure Node : Type where
  name : String
  labels : GoMap String String

/-- What an informer passes to its handlers.  When its watch missed a deletion
it passes the key and the last known state of the deleted object. -/
inductive Obj : Type where
  | pod (pod : Pod) : Obj
  | node (node : Node) : Obj
  | deletedFinalStateUnknown (key : String) (obj : Obj) : Obj

/-! ## The addresses of a pod -/

/-- Addresses are compared byte by byte. -/
instance decidableMemAddrs (v4 : List UInt8) (addrs : List (List UInt8)) :
    Decidable (v4 ∈ addrs) := inferInstance

/-- The IPv4 addresses a pod lists, as bytes. -/
def Pod.addrs (pod : Pod) : List (List UInt8) := pod.podIPs.filterMap parseIPv4

/-- The address is the pod's host address, and not `0.0.0.0`. -/
def Pod.IsHostAddr (pod : Pod) (v4 : List UInt8) : Prop :=
  parseIPv4 pod.hostIP = some v4 ∧ v4 ≠ [0, 0, 0, 0]

/-- The IPv4 addresses a pod lists, as words. -/
def Pod.words (pod : Pod) : List UInt32 := pod.podIPs.filterMap ipv4Word

/-- The IPv4 host address of a pod, zero when it has none. -/
def Pod.hostWord (pod : Pod) : UInt32 := (ipv4Word pod.hostIP).getD 0

/-- The word is the pod's host address: a pod that lists it uses the host network. -/
def Pod.IsHost (pod : Pod) (ip : UInt32) : Prop := pod.hostWord ≠ 0 ∧ ip = pod.hostWord

instance (pod : Pod) (v4 : List UInt8) : Decidable (pod.IsHostAddr v4) :=
  inferInstanceAs (Decidable (_ ∧ _))

instance (pod : Pod) (ip : UInt32) : Decidable (pod.IsHost ip) :=
  inferInstanceAs (Decidable (_ ∧ _))

/-- An address is listed as bytes exactly if it is listed as a word. -/
theorem word32_mem_words {pod : Pod} {a b c d : UInt8} :
    word32 a b c d ∈ pod.words ↔ [a, b, c, d] ∈ pod.addrs := by
  unfold Pod.words Pod.addrs
  simp only [List.mem_filterMap, ipv4Word_eq_some_iff]

/-- An address is the host address as bytes exactly if it is as a word. -/
theorem isHost_word32 {pod : Pod} {a b c d : UInt8} :
    pod.IsHost (word32 a b c d) ↔ pod.IsHostAddr [a, b, c, d] := by
  have hzero : (0 : UInt32) = word32 0 0 0 0 := rfl
  unfold Pod.IsHost Pod.IsHostAddr Pod.hostWord
  rw [← ipv4Word_eq_some_iff]
  cases hw : ipv4Word pod.hostIP with
  | none => simp
  | some w =>
      rw [Option.getD_some, Option.some.injEq, eq_comm (a := w)]
      constructor
      · rintro ⟨hne, rfl⟩
        refine ⟨rfl, fun h => hne ?_⟩
        simp only [List.cons.injEq, and_true] at h
        obtain ⟨rfl, rfl, rfl, rfl⟩ := h
        exact hzero.symm
      · rintro ⟨rfl, hne⟩
        refine ⟨fun h => hne ?_, rfl⟩
        rw [hzero, word32_inj] at h
        obtain ⟨rfl, rfl, rfl, rfl⟩ := h
        rfl

end Kube
