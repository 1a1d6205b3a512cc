/-
# The agent's filter

The hook sees a packet on the sending and on the receiving node, so an agent
reports only the flows whose source is a pod of its own node.  `agent.go` builds
the set of the pods' addresses and copies the keys and the values of these flows
(`filterSrcIpOnCurrentHost_eq`).
-/
import Kubezonnet.KubeObjects
import Kubezonnet.Payload

open ByteOrder IpWord Kube Payload WordBytes

namespace Agent

/-! ## Translation -/

/-- The agent's copy of `ipToUint32`. -/
def ipToUint32 : GoNet.IP → Option UInt32 := IpWord.ipToUint32

/-- `convertToPods`.  It panics on an object of another type. -/
def convertToPods : List Obj → Option (List Pod)
  | [] => some []
  | .pod pod :: objs => do
      let res ← convertToPods objs
      some (pod :: res)
  | _ :: _ => none

/-- The loop of `filterSrcIpOnCurrentHost` over the addresses of a pod. -/
def indexPodIPs : List String → GoMap UInt32 Unit → Option (GoMap UInt32 Unit)
  | [], ipsOnHost => some ipsOnHost
  | podIP :: podIPs, ipsOnHost => do
      let ip ← guardedWord ipToUint32 podIP
      match ip with
      | none => indexPodIPs podIPs ipsOnHost
      | some ip => indexPodIPs podIPs (ipsOnHost.insert ip ())

/-- The loop of `filterSrcIpOnCurrentHost` over the pods. -/
def indexPods : List Pod → GoMap UInt32 Unit → Option (GoMap UInt32 Unit)
  | [], ipsOnHost => some ipsOnHost
  | pod :: podsOnHost, ipsOnHost => do
      let ipsOnHost ← indexPodIPs pod.podIPs ipsOnHost
      indexPods podsOnHost ipsOnHost

/-- The loop of `filterSrcIpOnCurrentHost` over the keys, at index `i`. -/
def filterLoop (ipsOnHost : GoMap UInt32 Unit) (values : List IPValue) :
    List IPKey → ℕ → List IPKey → List IPValue → Option (List IPKey × List IPValue)
  | [], _, resKeys, resValues => some (resKeys, resValues)
  | key :: keys, i, resKeys, resValues =>
      if ntohl key.srcIP ∈ ipsOnHost then do
        let value ← values[i]?
        filterLoop ipsOnHost values keys (i + 1) (resKeys ++ [key]) (resValues ++ [value])
      else filterLoop ipsOnHost values keys (i + 1) resKeys resValues

/-- `filterSrcIpOnCurrentHost`. -/
def filterSrcIpOnCurrentHost (keys : List IPKey) (values : List IPValue) (podsOnHost : List Pod) :
    Option (List IPKey × List IPValue) := do
  let ipsOnHost ← indexPods podsOnHost ∅
  filterLoop ipsOnHost values keys 0 [] []

/-! ## What it keeps -/

/-- The word is an IPv4 address of a pod of the host. -/
def OnHost (podsOnHost : List Pod) (ip : UInt32) : Prop := ∃ pod ∈ podsOnHost, ip ∈ pod.words

instance (podsOnHost : List Pod) (ip : UInt32) : Decidable (OnHost podsOnHost ip) :=
  inferInstanceAs (Decidable (∃ pod ∈ podsOnHost, ip ∈ pod.words))

/-- An address is one of the host's as a word exactly if it is as bytes. -/
theorem onHost_word32 {podsOnHost : List Pod} {a b c d : UInt8} :
    OnHost podsOnHost (word32 a b c d) ↔ [a, b, c, d] ∈ podsOnHost.flatMap Pod.addrs := by
  rw [List.mem_flatMap]
  exact exists_congr fun pod => and_congr_right fun _ => word32_mem_words

/-- The objects of a store of pods are pods. -/
theorem convertToPods_map (pods : List Pod) : convertToPods (pods.map .pod) = some pods := by
  induction pods with
  | nil => rfl
  | cons pod pods ih =>
      rw [List.map_cons, convertToPods, ih]
      rfl

/-- The addresses of a pod are added to the set, without a panic. -/
theorem exists_indexPodIPs (podIPs : List String) (ipsOnHost : GoMap UInt32 Unit) :
    ∃ m, indexPodIPs podIPs ipsOnHost = some m
      ∧ ∀ ip, ip ∈ m ↔ ip ∈ ipsOnHost ∨ ip ∈ podIPs.filterMap ipv4Word := by
  induction podIPs generalizing ipsOnHost with
  | nil => exact ⟨ipsOnHost, rfl, fun ip => by simp⟩
  | cons podIP podIPs ih =>
      rw [indexPodIPs, ipToUint32, guardedWord_eq, Option.bind_eq_bind, Option.bind_some]
      cases hw : ipv4Word podIP with
      | none =>
          rw [List.filterMap_cons_none hw]
          exact ih ipsOnHost
      | some word =>
          obtain ⟨m, hm, hmem⟩ := ih (ipsOnHost.insert word ())
          refine ⟨m, hm, fun ip => ?_⟩
          rw [hmem, List.filterMap_cons_some hw, Finmap.mem_insert, List.mem_cons]
          tauto

/-- The addresses of the pods are added to the set, without a panic. -/
theorem exists_indexPods (podsOnHost : List Pod) (ipsOnHost : GoMap UInt32 Unit) :
    ∃ m, indexPods podsOnHost ipsOnHost = some m
      ∧ ∀ ip, ip ∈ m ↔ ip ∈ ipsOnHost ∨ OnHost podsOnHost ip := by
  induction podsOnHost generalizing ipsOnHost with
  | nil => exact ⟨ipsOnHost, rfl, fun ip => by simp [OnHost]⟩
  | cons pod podsOnHost ih =>
      obtain ⟨m, hm, hmem⟩ := exists_indexPodIPs pod.podIPs ipsOnHost
      obtain ⟨m', hm', hmem'⟩ := ih m
      refine ⟨m', ?_, fun ip => ?_⟩
      · rw [indexPods, hm]
        exact hm'
      · rw [hmem', hmem, or_assoc]
        simp [OnHost, Pod.words]

/-- The loop over the keys keeps every key in the set with its own value. -/
theorem filterLoop_eq {ipsOnHost : GoMap UInt32 Unit} {values : List IPValue}
    (kvs : List (IPKey × IPValue)) {i : ℕ} (hvalues : values.drop i = kvs.map Prod.snd)
    (resKeys : List IPKey) (resValues : List IPValue) :
    filterLoop ipsOnHost values (kvs.map Prod.fst) i resKeys resValues
      = some (resKeys ++ (kvs.filter fun kv => ntohl kv.1.srcIP ∈ ipsOnHost).map Prod.fst,
        resValues ++ (kvs.filter fun kv => ntohl kv.1.srcIP ∈ ipsOnHost).map Prod.snd) := by
  induction kvs generalizing i resKeys resValues with
  | nil => simp [filterLoop]
  | cons kv kvs ih =>
      obtain ⟨key, value⟩ := kv
      -- the value at the loop's index is that of the key at hand
      have hget : values[i]? = some value := by
        rw [← Nat.add_zero i, ← List.getElem?_drop, hvalues]
        rfl
      have htail : values.drop (i + 1) = kvs.map Prod.snd := by
        rw [← List.tail_drop, hvalues]
        rfl
      rw [List.map_cons, filterLoop]
      by_cases hmem : ntohl key.srcIP ∈ ipsOnHost
      · rw [if_pos hmem, hget, Option.bind_eq_bind, Option.bind_some, ih htail,
          List.filter_cons_of_pos (by simpa using hmem)]
        simp
      · rw [if_neg hmem, ih htail, List.filter_cons_of_neg (by simpa using hmem)]

/-- The filter keeps, in their order, the keys with a source on the host, each
with its own value. -/
theorem filterSrcIpOnCurrentHost_eq (kvs : List (IPKey × IPValue)) (podsOnHost : List Pod) :
    filterSrcIpOnCurrentHost (kvs.map Prod.fst) (kvs.map Prod.snd) podsOnHost
      = some ((kvs.filter fun kv => OnHost podsOnHost (ntohl kv.1.srcIP)).map Prod.fst,
        (kvs.filter fun kv => OnHost podsOnHost (ntohl kv.1.srcIP)).map Prod.snd) := by
  obtain ⟨m, hm, hmem⟩ := exists_indexPods podsOnHost ∅
  have hfilter : (kvs.filter fun kv => ntohl kv.1.srcIP ∈ m)
      = kvs.filter fun kv => OnHost podsOnHost (ntohl kv.1.srcIP) := by
    refine List.filter_congr fun kv _ => decide_eq_decide.2 ?_
    rw [hmem]
    exact or_iff_right Finmap.notMem_empty
  unfold filterSrcIpOnCurrentHost
  rw [hm, Option.bind_eq_bind, Option.bind_some, filterLoop_eq kvs rfl, hfilter]
  rfl

end Agent
