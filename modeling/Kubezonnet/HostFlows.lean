/-
# Flows on hosts of either byte order

The program loads the words of a packet as its host does.  A little-endian and a
big-endian host have different keys for one flow: the addresses in the one are
those in the other read backwards (`swapKey`).  The constants of the subnet are
the same words on both, and the bit field `ihl` is the other half of its byte on
a big-endian host.

So both hosts count a packet under keys of the same flow exactly if it passes the
comparison both ways and its ports are read from equal bytes (`CountsAlike`).
When all packets do, the maps of the two hosts have the same entries, under
swapped keys (`lookup_handleAll_little`, `lookup_handleAll_big`).
-/
import Kubezonnet.FlowTotals
import Kubezonnet.TransportPorts

open ByteOrder Payload WordBytes

namespace Ebpf

/-! ## Keys on the other host -/

/-- The key of the same flow on the other host: its addresses have the same bytes
in memory, so they are other words there, and its ports are the same numbers. -/
def swapKey (key : IPKey) : IPKey where
  srcIP := htonl key.srcIP
  dstIP := htonl key.dstIP
  srcPort := key.srcPort
  dstPort := key.dstPort

/-- A key with its amount on the other host. -/
def swapPair {V : Type} (kv : IPKey × V) : IPKey × V := (swapKey kv.1, kv.2)

@[simp] theorem swapKey_swapKey (key : IPKey) : swapKey (swapKey key) = key := by
  simp only [swapKey, htonl_htonl]

@[simp] theorem ntohl_srcIP_swapKey (key : IPKey) : ntohl (swapKey key).srcIP = key.srcIP :=
  ntohl_htonl key.srcIP

@[simp] theorem htonl_srcIP_swapKey (key : IPKey) : htonl (swapKey key).srcIP = key.srcIP :=
  htonl_htonl key.srcIP

@[simp] theorem swapPair_swapPair {V : Type} (kv : IPKey × V) : swapPair (swapPair kv) = kv := by
  simp only [swapPair, swapKey_swapKey]

theorem swapKey_injective : Function.Injective swapKey :=
  Function.LeftInverse.injective swapKey_swapKey

theorem swapPair_injective {V : Type} : Function.Injective (swapPair (V := V)) :=
  Function.LeftInverse.injective swapPair_swapPair

theorem mem_map_swapPair {V : Type} {kvs : List (IPKey × V)} {key : IPKey} {v : V} :
    (key, v) ∈ kvs.map swapPair ↔ (swapKey key, v) ∈ kvs := by
  have hpair : (key, v) = swapPair (swapKey key, v) := by rw [swapPair, swapKey_swapKey]
  rw [hpair, List.mem_map_of_injective swapPair_injective]

/-- The keys of flows on the other host. -/
theorem flowKeys_map_swapPair (flows : List (IPKey × UInt64)) :
    flowKeys (flows.map swapPair) = (flowKeys flows).map swapKey :=
  Admission.keysOf_map swapKey_injective flows

/-- The bytes of a key are those of the key on the other host. -/
theorem bytesOf_map_swapPair (key : IPKey) (flows : List (IPKey × UInt64)) :
    bytesOf key (flows.map swapPair) = bytesOf (swapKey key) flows := by
  unfold bytesOf
  rw [List.map_map]
  congr 2
  funext flow
  have hkey : swapKey flow.1 = key ↔ flow.1 = swapKey key := by
    rw [← swapKey_injective.eq_iff, swapKey_swapKey]
  exact if_congr hkey rfl rfl

/-! ## Packets that both hosts count alike -/

/-- A packet passes with its addresses as they are exactly if it does with both of
them read backwards, and then its ports are read from equal bytes. -/
def CountsAlike (config : Config) (skb : SkBuff) : Prop :=
  HasHeader skb →
    (Passes config (saddrOf skb.data) (daddrOf skb.data)
      ↔ Passes config (htonl (saddrOf skb.data)) (htonl (daddrOf skb.data)))
      ∧ (Passes config (saddrOf skb.data) (daddrOf skb.data) → HasPorts skb.data →
        portBytes skb.data (readOffset .big skb.data)
          = portBytes skb.data (readOffset .little skb.data))

/-- Both hosts read the same ports exactly if they read them from equal bytes. -/
theorem portsRead_eq_iff (data : List UInt8) :
    portsRead .big data = portsRead .little data
      ↔ (HasPorts data →
        portBytes data (readOffset .big data) = portBytes data (readOffset .little data)) := by
  unfold portsRead
  by_cases hports : HasPorts data
  · rw [if_pos hports, if_pos hports, portsAt_inj]
    exact ⟨fun h _ => h, fun h => h hports⟩
  · rw [if_neg hports, if_neg hports]
    exact iff_of_true rfl fun h => absurd h hports

/-- Both hosts count a packet under keys of the same flow, or neither does, exactly
if it counts alike. -/
theorem flowOf_big_eq_iff (config : Config) (skb : SkBuff) :
    flowOf .big config skb = (flowOf .little config skb).map swapPair ↔ CountsAlike config skb := by
  unfold CountsAlike
  rw [flowOf_eq, flowOf_eq]
  by_cases hheader : HasHeader skb
  · simp only [hheader, true_and, forall_true_left, hostWord]
    rw [← portsRead_eq_iff]
    by_cases hbig : Passes config (saddrOf skb.data) (daddrOf skb.data)
    · by_cases hlittle : Passes config (htonl (saddrOf skb.data)) (htonl (daddrOf skb.data))
      · simp only [hbig, hlittle, if_true, Option.map_some, Option.some.injEq, swapPair, swapKey,
          htonl_htonl, Prod.mk.injEq, IPKey.mk.injEq, true_and, and_true, forall_true_left]
        exact Prod.ext_iff.symm
      · simp [hbig, hlittle]
    · by_cases hlittle : Passes config (htonl (saddrOf skb.data)) (htonl (daddrOf skb.data))
      · simp [hbig, hlittle]
      · simp [hbig, hlittle]
  · simp only [hheader, false_and, if_false, Option.map_none, false_implies]

/-- The flow of a packet, with its addresses in network order. -/
def networkFlow (data : List UInt8) : IPKey × UInt64 :=
  ({ srcIP := saddrOf data
     dstIP := daddrOf data
     srcPort := (portsRead .little data).1
     dstPort := (portsRead .little data).2 },
    totalLength data)

/-- The flows of the packets that a little-endian host counts. -/
def networkFlows (config : Config) (skbs : List SkBuff) : List (IPKey × UInt64) :=
  (skbs.filter fun skb => HasHeader skb
      ∧ Passes config (htonl (saddrOf skb.data)) (htonl (daddrOf skb.data))).map
    fun skb => networkFlow skb.data

/-- A little-endian host has the keys of the flows in its own order. -/
theorem flowsOf_little (config : Config) (skbs : List SkBuff) :
    flowsOf .little config skbs = (networkFlows config skbs).map swapPair := by
  unfold flowsOf networkFlows
  rw [List.map_map]
  rfl

/-- A big-endian host has the keys of the flows in network order, when all packets
count alike. -/
theorem flowsOf_big {config : Config} {skbs : List SkBuff}
    (h : ∀ skb ∈ skbs, CountsAlike config skb) :
    flowsOf .big config skbs = networkFlows config skbs := by
  have hflows : flowsOf .big config skbs = (flowsOf .little config skbs).map swapPair := by
    rw [flowsOf_eq, flowsOf_eq, List.map_filterMap]
    apply List.filterMap_congr
    intro skb hskb
    exact (flowOf_big_eq_iff config skb).2 (h skb hskb)
  rw [hflows, flowsOf_little, List.map_map]
  conv_rhs => rw [← List.map_id (networkFlows config skbs)]
  congr 1
  funext flow
  exact swapPair_swapPair flow

/-- The keys that get an entry, with their addresses in network order. -/
def networkKeys (config : Config) (skbs : List SkBuff) : List IPKey :=
  (flowKeys (networkFlows config skbs)).take maxEntries

/-- The entry of a key that is given in network order. -/
def networkEntry (config : Config) (skbs : List SkBuff) (key : IPKey) : Option IPValue :=
  if key ∈ networkKeys config skbs then
    some { packetSize := UInt64.ofNat (bytesOf key (networkFlows config skbs)) }
  else none

/-- The map of a little-endian host. -/
theorem lookup_handleAll_little (config : Config) (skbs : List SkBuff) (key : IPKey) :
    (handleAll .little config ∅ skbs).lookup key = networkEntry config skbs (swapKey key) := by
  have hmem : key ∈ ((flowKeys (networkFlows config skbs)).map swapKey).take maxEntries
      ↔ swapKey key ∈ networkKeys config skbs := by
    rw [← List.map_take, ← swapKey_swapKey key, List.mem_map_of_injective swapKey_injective,
      swapKey_swapKey]
    rfl
  rw [lookup_of_counts (counts_handleAll .little config skbs), flowsOf_little, flowKeys_map_swapPair,
    bytesOf_map_swapPair, if_congr hmem rfl rfl]
  rfl

/-- The map of a big-endian host, when all packets count alike. -/
theorem lookup_handleAll_big {config : Config} {skbs : List SkBuff}
    (h : ∀ skb ∈ skbs, CountsAlike config skb) (key : IPKey) :
    (handleAll .big config ∅ skbs).lookup key = networkEntry config skbs key := by
  rw [lookup_of_counts (counts_handleAll .big config skbs), flowsOf_big h]
  rfl

end Ebpf
