/-
# Totals of one flush interval

Between two flushes `ip_map` starts empty and only `handle_v4` writes to it.  It
is then a map of counters with room for `maxEntries` keys, so it has the keys
that appear first, and under each of them all the bytes of the key.
-/
import Kubezonnet.Admission
import Kubezonnet.Runs
import Kubezonnet.TransportPorts

open ByteOrder WordBytes Payload

namespace Ebpf

/-! ## Counting as admission -/

/-- The addition of `__sync_fetch_and_add`. -/
def addValue (v w : IPValue) : IPValue := { packetSize := v.packetSize + w.packetSize }

/-- A flow as an amount under its key. -/
def amountOf (flow : IPKey × UInt64) : IPKey × IPValue := (flow.1, { packetSize := flow.2 })

/-- Counting a packet adds to the counter of its key, or inserts one if there is room. -/
theorem countFlow_eq_count (ipMap : IpMap) (flow : IPKey × UInt64) :
    countFlow ipMap flow.1 flow.2 = Admission.count addValue maxEntries ipMap (amountOf flow) := by
  rcases flow with ⟨key, packetSize⟩
  unfold countFlow Admission.count amountOf
  dsimp only
  cases hlookup : ipMap.lookup key with
  | some value => rfl
  | none =>
      have hnew : key ∉ ipMap := Finmap.lookup_eq_none.1 hlookup
      show bpfMapUpdateElem ipMap key _ = _
      rw [bpfMapUpdateElem, if_congr (or_iff_right hnew) rfl rfl]

/-- The keys of some flows, each at its first appearance. -/
def flowKeys (flows : List (IPKey × UInt64)) : List IPKey := (flows.map Prod.fst).eraseDups

theorem keysOf_amountOf (flows : List (IPKey × UInt64)) :
    Admission.keysOf (flows.map amountOf) = flowKeys flows := by
  unfold Admission.keysOf flowKeys
  rw [List.map_map]
  rfl

/-- The total of a key that appears is the sum of its sizes, modulo the width of
the counter. -/
theorem totalOf_amountOf (key : IPKey) (flows : List (IPKey × UInt64)) :
    Admission.totalOf addValue key (flows.map amountOf)
      = if key ∈ flowKeys flows then some { packetSize := UInt64.ofNat (bytesOf key flows) }
        else none := by
  induction flows using List.reverseRecOn with
  | nil => rfl
  | append_singleton flows flow ih =>
      have hkeys : key ∈ flowKeys (flows ++ [flow]) ↔ key ∈ flowKeys flows ∨ key = flow.1 := by
        unfold flowKeys
        simp only [List.mem_eraseDups, List.map_append, List.mem_append, List.map_cons,
          List.map_nil, List.mem_singleton]
      rw [List.map_append, List.map_singleton, Admission.totalOf_concat, ih, bytesOf_append,
        bytesOf_singleton]
      show (if flow.1 = key then _ else _) = _
      by_cases hk : flow.1 = key
      · rw [if_pos hk, if_pos hk, if_pos (hkeys.2 (Or.inr hk.symm)), UInt64.ofNat_add,
          UInt64.ofNat_toNat]
        by_cases hseen : key ∈ flowKeys flows
        · rw [if_pos hseen]
          rfl
        · have hzero : bytesOf key flows = 0 :=
            bytesOf_eq_zero fun hmem => hseen (List.mem_eraseDups.2 hmem)
          rw [if_neg hseen, hzero]
          simp [amountOf]
      · rw [if_neg hk, if_neg hk, Nat.add_zero]
        have hsame : key ∈ flowKeys (flows ++ [flow]) ↔ key ∈ flowKeys flows :=
          hkeys.trans (or_iff_left (Ne.symm hk))
        rw [if_congr hsame rfl rfl]

/-! ## The map of an interval -/

/-- The packet has a header, and its addresses as the host loads them pass the
comparison with the constants. -/
def PassesChecks (e : Endian) (config : Config) (skb : SkBuff) : Prop :=
  HasHeader skb ∧ Passes config (hostWord e (saddrOf skb.data)) (hostWord e (daddrOf skb.data))

instance (e : Endian) (config : Config) (skb : SkBuff) : Decidable (PassesChecks e config skb) :=
  inferInstanceAs (Decidable (_ ∧ _))

/-- The flow of the bytes of a packet: the addresses as the host loads them, the
four bytes that are read as ports, and the total length. -/
def flowRead (e : Endian) (data : List UInt8) : IPKey × UInt64 :=
  ({ srcIP := hostWord e (saddrOf data)
     dstIP := hostWord e (daddrOf data)
     srcPort := (portsRead e data).1
     dstPort := (portsRead e data).2 },
    totalLength data)

/-- The flows of some packets that pass the checks, in order. -/
def flowsOf (e : Endian) (config : Config) (skbs : List SkBuff) : List (IPKey × UInt64) :=
  (skbs.filter fun skb => PassesChecks e config skb).map fun skb => flowRead e skb.data

theorem flowOf_of_passes {e : Endian} {config : Config} {skb : SkBuff}
    (h : PassesChecks e config skb) : flowOf e config skb = some (flowRead e skb.data) :=
  (flowOf_eq e config skb).trans (if_pos h)

theorem flowOf_of_not_passes {e : Endian} {config : Config} {skb : SkBuff}
    (h : ¬ PassesChecks e config skb) : flowOf e config skb = none :=
  (flowOf_eq e config skb).trans (if_neg h)

/-- They are what `handle_v4` gets to before it uses the map. -/
theorem flowsOf_eq (e : Endian) (config : Config) (skbs : List SkBuff) :
    flowsOf e config skbs = skbs.filterMap (flowOf e config) := by
  unfold flowsOf
  induction skbs with
  | nil => rfl
  | cons skb skbs ih =>
      by_cases hpass : PassesChecks e config skb
      · rw [List.filter_cons_of_pos (by simpa using hpass), List.map_cons, ih,
          List.filterMap_cons_some (flowOf_of_passes hpass)]
      · rw [List.filter_cons_of_neg (by simpa using hpass), ih,
          List.filterMap_cons_none (flowOf_of_not_passes hpass)]

/-- `ip_map` after `handle_v4` has processed some packets one after another. -/
def handleAll (e : Endian) (config : Config) : IpMap → List SkBuff → IpMap :=
  Runs.run fun ipMap skb => (handleV4 e config skb ipMap).2

/-- Packets are counted one flow after another. -/
theorem handleAll_eq_foldl (e : Endian) (config : Config) (ipMap : IpMap) (skbs : List SkBuff) :
    handleAll e config ipMap skbs
      = ((flowsOf e config skbs).map amountOf).foldl (Admission.count addValue maxEntries) ipMap := by
  rw [flowsOf_eq]
  induction skbs generalizing ipMap with
  | nil => rfl
  | cons skb skbs ih =>
      show handleAll e config (handleV4 e config skb ipMap).2 skbs = _
      rw [ih]
      unfold handleV4
      rw [List.filterMap_cons]
      cases flowOf e config skb with
      | none => rfl
      | some flow =>
          show _ = List.foldl _ (Admission.count _ _ _ (amountOf flow)) _
          rw [← countFlow_eq_count]

/-- The map of an interval counts the flows that pass the checks. -/
theorem counts_handleAll (e : Endian) (config : Config) (skbs : List SkBuff) :
    Admission.Counts addValue maxEntries ((flowsOf e config skbs).map amountOf)
      (handleAll e config ∅ skbs) := by
  rw [handleAll_eq_foldl]
  exact Admission.counts_foldl _

/-- What it counts under a key. -/
theorem lookup_of_counts {flows : List (IPKey × UInt64)} {ipMap : IpMap}
    (h : Admission.Counts addValue maxEntries (flows.map amountOf) ipMap) (key : IPKey) :
    ipMap.lookup key
      = if key ∈ (flowKeys flows).take maxEntries then
          some { packetSize := UInt64.ofNat (bytesOf key flows) }
        else none := by
  rw [h key, totalOf_amountOf, Admission.admitted, keysOf_amountOf]
  split_ifs with hadm hseen
  · rfl
  · exact absurd (List.mem_of_mem_take hadm) hseen
  · rfl

/-- Main result: after any packets `ip_map` has the keys that appear first, as
many as it has room for, each with all the bytes of the key.  A packet that does
not pass the checks is accepted and changes nothing. -/
theorem lookup_handleAll (e : Endian) (config : Config) (skbs : List SkBuff) :
    (∀ key, (handleAll e config ∅ skbs).lookup key
      = if key ∈ (flowKeys (flowsOf e config skbs)).take maxEntries then
          some { packetSize := UInt64.ofNat (bytesOf key (flowsOf e config skbs)) }
        else none)
      ∧ ∀ skb ipMap, ¬ PassesChecks e config skb →
          handleV4 e config skb ipMap = (nfAccept, ipMap) := by
  refine ⟨fun key => ?_, fun skb ipMap hfail => ?_⟩
  · rw [handleAll_eq_foldl, Admission.counts_foldl _ key, totalOf_amountOf, Admission.admitted,
      keysOf_amountOf]
    by_cases hmem : key ∈ (flowKeys (flowsOf e config skbs)).take maxEntries
    · rw [if_pos hmem, if_pos hmem, if_pos (List.mem_of_mem_take hmem)]
    · rw [if_neg hmem, if_neg hmem]
  · unfold handleV4
    rw [flowOf_of_not_passes hfail]

end Ebpf
