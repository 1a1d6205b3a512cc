/-
# One reporter for each flow

The hook counts a flow on the sending and on the receiving node, so several
agents hold an entry for it.  The filter of an agent is exact
(`filterSrcIpOnCurrentHost_eq`): it keeps the flows whose source is one of the
IPv4 addresses of its own pods, and no others.  So when no address belongs to
pods of two hosts, no flow is reported twice (`single_reporter`).
-/
import Kubezonnet.AgentFilter

open ByteOrder GoNet Kube Payload WordBytes

namespace Agent

/-- The four bytes of the source address of a key: the first is the lowest byte of
the word. -/
def srcAddr (key : IPKey) : List UInt8 :=
  [key.srcIP.toUInt8, (key.srcIP >>> 8).toUInt8, (key.srcIP >>> 16).toUInt8,
    (key.srcIP >>> 24).toUInt8]

/-- A pod without those of its addresses that are not IPv4. -/
def ipv4Only (pod : Pod) : Pod :=
  { pod with podIPs := pod.podIPs.filter fun podIP => (parseIPv4 podIP).isSome }

theorem srcAddr_of_eq_word32 {key : IPKey} {a b c d : UInt8} (h : key.srcIP = word32 d c b a) :
    srcAddr key = [a, b, c, d] := by
  have hword := toNat_word32 d c b a
  have ha : a.toNat < 256 := a.toNat_lt
  have hb : b.toNat < 256 := b.toNat_lt
  have hc : c.toNat < 256 := c.toNat_lt
  have hd : d.toNat < 256 := d.toNat_lt
  rw [srcAddr, h, List.cons.injEq, List.cons.injEq, List.cons.injEq, List.cons.injEq]
  refine ⟨?_, ?_, ?_, ?_, rfl⟩ <;> apply UInt8.toNat_inj.1 <;>
    simp only [UInt32.toNat_toUInt8, UInt32.toNat_shiftRight, UInt32.reduceToNat, Nat.reduceMod,
      Nat.shiftRight_eq_div_pow, hword] <;> omega

/-- The filter turns the word round and so has the address as a number. -/
theorem srcAddr_eq (key : IPKey) : srcAddr key = beBytes 4 (ntohl key.srcIP).toNat := by
  obtain ⟨d, c, b, a, hword⟩ := exists_word32 key.srcIP
  rw [srcAddr_of_eq_word32 hword, hword, ntohl_word32, beBytes_word32]

/-- The filter looks for the bytes of the source address. -/
theorem onHost_srcIP_iff {podsOnHost : List Pod} {key : IPKey} :
    OnHost podsOnHost (ntohl key.srcIP) ↔ srcAddr key ∈ podsOnHost.flatMap Pod.addrs := by
  rw [srcAddr_eq]
  obtain ⟨a, b, c, d, hword⟩ := exists_word32 (ntohl key.srcIP)
  rw [hword, beBytes_word32]
  exact onHost_word32

/-- Without them the pods have the same IPv4 addresses. -/
theorem addrs_ipv4Only (podsOnHost : List Pod) :
    (podsOnHost.map ipv4Only).flatMap Pod.addrs = podsOnHost.flatMap Pod.addrs := by
  rw [List.flatMap_map]
  congr 1
  funext pod
  show (pod.podIPs.filter fun podIP => (parseIPv4 podIP).isSome).filterMap parseIPv4 = pod.addrs
  rw [List.filterMap_filter]
  apply List.filterMap_congr
  intro podIP _
  cases parseIPv4 podIP <;> rfl

/-- The filter on keys with their values, in terms of address bytes. -/
theorem filterSrcIpOnCurrentHost_zip (kvs : List (IPKey × IPValue)) (podsOnHost : List Pod) :
    filterSrcIpOnCurrentHost (kvs.map Prod.fst) (kvs.map Prod.snd) podsOnHost
      = some ((kvs.filter fun kv => srcAddr kv.1 ∈ podsOnHost.flatMap Pod.addrs).map Prod.fst,
        (kvs.filter fun kv => srcAddr kv.1 ∈ podsOnHost.flatMap Pod.addrs).map Prod.snd) := by
  have hfilter : (kvs.filter fun kv => OnHost podsOnHost (ntohl kv.1.srcIP))
      = kvs.filter fun kv => srcAddr kv.1 ∈ podsOnHost.flatMap Pod.addrs :=
    List.filter_congr fun kv _ => decide_eq_decide.2 onHost_srcIP_iff
  rw [filterSrcIpOnCurrentHost_eq, hfilter]

/-- Main result: on every agent the filter keeps exactly the keys and values
whose source is an IPv4 address of a pod of its host, in order and aligned.  When
no address belongs to pods of two hosts, no key is reported by two agents. -/
theorem single_reporter {ι : Type} (keys : ι → List IPKey) (values : ι → List IPValue)
    (podsOnHost : ι → List Pod) (hlen : ∀ i, (keys i).length = (values i).length)
    (hdisjoint : ∀ i j, ∀ v4 ∈ (podsOnHost i).flatMap Pod.addrs,
      v4 ∈ (podsOnHost j).flatMap Pod.addrs → i = j) :
    ∃ reports : ι → List IPKey × List IPValue,
      (∀ i, filterSrcIpOnCurrentHost (keys i) (values i) (podsOnHost i) = some (reports i)
        ∧ (reports i).1.length = (reports i).2.length
        ∧ (reports i).1.zip (reports i).2 = ((keys i).zip (values i)).filter
          (fun kv => srcAddr kv.1 ∈ (podsOnHost i).flatMap Pod.addrs)
        ∧ (∀ key ∈ keys i, key ∈ (reports i).1 ↔ srcAddr key ∈ (podsOnHost i).flatMap Pod.addrs)
        ∧ filterSrcIpOnCurrentHost (keys i) (values i) ((podsOnHost i).map ipv4Only)
          = some (reports i))
      ∧ ∀ i j key, key ∈ (reports i).1 → key ∈ (reports j).1 → i = j := by
  -- what an agent keeps, as pairs
  let kept := fun i => ((keys i).zip (values i)).filter fun kv =>
    srcAddr kv.1 ∈ (podsOnHost i).flatMap Pod.addrs
  have hkeys : ∀ i, ((keys i).zip (values i)).map Prod.fst = keys i := fun i =>
    List.map_fst_zip (hlen i).le
  have hvalues : ∀ i, ((keys i).zip (values i)).map Prod.snd = values i := fun i =>
    List.map_snd_zip (hlen i).ge
  have hlocal : ∀ i key, key ∈ (kept i).map Prod.fst →
      srcAddr key ∈ (podsOnHost i).flatMap Pod.addrs := by
    intro i key hkey
    obtain ⟨kv, hkv, rfl⟩ := List.mem_map.1 hkey
    exact of_decide_eq_true (List.mem_filter.1 hkv).2
  refine ⟨fun i => ((kept i).map Prod.fst, (kept i).map Prod.snd), fun i => ?_, ?_⟩
  · have hfilter := filterSrcIpOnCurrentHost_zip ((keys i).zip (values i)) (podsOnHost i)
    rw [hkeys, hvalues] at hfilter
    refine ⟨hfilter, ?_, ?_, fun key hkey => ⟨hlocal i key, fun hsrc => ?_⟩, ?_⟩
    · rw [List.length_map, List.length_map]
    · exact (List.zip_of_prod rfl rfl).symm
    · rw [← hkeys i] at hkey
      obtain ⟨kv, hkv, rfl⟩ := List.mem_map.1 hkey
      exact List.mem_map_of_mem (List.mem_filter.2 ⟨hkv, decide_eq_true hsrc⟩)
    · have hipv4 := filterSrcIpOnCurrentHost_zip ((keys i).zip (values i))
        ((podsOnHost i).map ipv4Only)
      rw [hkeys, hvalues] at hipv4
      simp only [addrs_ipv4Only] at hipv4
      exact hipv4
  · intro i j key hi hj
    exact hdisjoint i j _ (hlocal i key hi) (hlocal j key hj)

/-- A flow that the agents of both of its nodes have counted: that of its source
reports it. -/
theorem single_reporter_two_nodes :
    let a : Pod := ⟨"default", "a", "n1", "192.168.0.1", ["10.0.0.1", "fd00::1"]⟩
    let b : Pod := ⟨"default", "b", "n2", "192.168.0.2", ["10.0.1.1"]⟩
    let key : IPKey := ⟨0x0100000A, 0x0101000A, 40000, 80⟩
    ∃ reports : Bool → List IPKey × List IPValue,
      (∀ i, filterSrcIpOnCurrentHost [key] [⟨1500⟩] [if i then a else b] = some (reports i))
        ∧ key ∈ (reports true).1 ∧ key ∉ (reports false).1
        ∧ ∀ i j key, key ∈ (reports i).1 → key ∈ (reports j).1 → i = j := by
  intro a b key
  obtain ⟨reports, hreports, hsingle⟩ := single_reporter (fun _ : Bool => [key])
    (fun _ => [⟨1500⟩]) (fun i => [if i then a else b]) (fun _ => rfl) (by decide)
  have hmem : ∀ i, key ∈ (reports i).1 ↔ srcAddr key ∈ Pod.addrs (if i then a else b) := by
    intro i
    rw [(hreports i).2.2.2.1 key (List.mem_singleton_self key), List.flatMap_singleton]
  exact ⟨reports, fun i => (hreports i).1, (hmem true).2 (by decide),
    fun hkey => absurd ((hmem false).1 hkey) (by decide), hsingle⟩

end Agent
