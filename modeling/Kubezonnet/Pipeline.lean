/-
# From packet bytes to statistics

A flow takes four forms on its way: the header bytes that `handle_v4` stores,
the native words of the key that the agent reads back, the network-order words
of the payload, and the words of the server's indexes, which come from address
strings.  On a little-endian host the forms agree: a flow of the host is
accounted to the pod or node that the cluster has at its source bytes, and
nothing else happens (`pipeline_exact`).
-/
import Kubezonnet.AgentFilter
import Kubezonnet.Cluster
import Kubezonnet.HandleV4
import Kubezonnet.PayloadCodec

open Agent ByteOrder GoSlice Kube Payload WordBytes

namespace Server

/-! ## The statistics after a payload -/

/-- A counter after some traffic is added to it: without any it stays as it is. -/
def addTraffic (counter : Option UInt64) (traffic : List UInt64) : Option UInt64 :=
  if traffic = [] then counter
  else some (UInt64.ofNat ((counter.getD 0).toNat + (traffic.map UInt64.toNat).sum))

theorem addTraffic_cons (counter : Option UInt64) (x : UInt64) (xs : List UInt64) :
    addTraffic counter (x :: xs) = addTraffic (some (counter.getD 0 + x)) xs := by
  unfold addTraffic
  rw [if_neg (List.cons_ne_nil x xs)]
  cases xs with
  | nil => simp [UInt64.ofNat_add]
  | cons y ys =>
      rw [if_neg (List.cons_ne_nil y ys), Option.some.injEq, Option.getD_some, List.map_cons,
        List.sum_cons]
      apply UInt64.toNat_inj.1
      simp only [UInt64.toNat_ofNat', UInt64.toNat_add]
      omega

/-- The value of a counter after some traffic is added to it. -/
theorem getD_addTraffic (counter : Option UInt64) (traffic : List UInt64) :
    (addTraffic counter traffic).getD 0
      = UInt64.ofNat ((counter.getD 0).toNat + (traffic.map UInt64.toNat).sum) := by
  unfold addTraffic
  split_ifs with hnil
  · rw [hnil, List.map_nil, List.sum_nil, Nat.add_zero, UInt64.ofNat_toNat]
  · rfl

/-- Traffic can be added in two parts. -/
theorem addTraffic_append (counter : Option UInt64) (xs ys : List UInt64) :
    addTraffic counter (xs ++ ys) = addTraffic (addTraffic counter xs) ys := by
  induction xs generalizing counter with
  | nil => rfl
  | cons x xs ih => rw [List.cons_append, addTraffic_cons, addTraffic_cons, ih]

/-- The order in which traffic is added to a counter does not matter. -/
theorem addTraffic_perm (counter : Option UInt64) {traffic traffic' : List UInt64}
    (h : traffic.Perm traffic') : addTraffic counter traffic = addTraffic counter traffic' := by
  have hnil : traffic = [] ↔ traffic' = [] := by
    rw [← List.length_eq_zero_iff, ← List.length_eq_zero_iff, h.length_eq]
  unfold addTraffic
  rw [if_congr hnil rfl rfl, (h.map UInt64.toNat).sum_eq]

/-- The traffic of the entries that are attributed to a key. -/
def attributedTo (s : State) (k : PodKey) (data : List Entry) : List UInt64 :=
  data.filterMap fun entry => if s.attribution entry = some k then some entry.traffic else none

/-- A payload adds to the counter of a key the traffic that is attributed to it. -/
theorem lookup_statistics_run_account (k : PodKey) (data : List Entry) (s : State) :
    (Runs.run State.account s data).statistics.lookup k
      = addTraffic (s.statistics.lookup k) (attributedTo s k data) := by
  induction data generalizing s with
  | nil => rfl
  | cons entry data ih =>
      have htail : attributedTo (s.account entry) k data = attributedTo s k data := by
        unfold attributedTo
        rw [attribution_account]
      rw [Runs.run_cons, ih, htail]
      unfold State.account
      by_cases hattr : s.attribution entry = some k
      · have hcons : attributedTo s k (entry :: data) = entry.traffic :: attributedTo s k data :=
          List.filterMap_cons_some (if_pos hattr)
        rw [hcons, addTraffic_cons, hattr]
        show addTraffic ((GoMap.addTo s.statistics k entry.traffic).lookup k) _ = _
        rw [GoMap.lookup_addTo_self]
      · -- the entry goes to another key, or to none
        have hcons : attributedTo s k (entry :: data) = attributedTo s k data :=
          List.filterMap_cons_none (if_neg hattr)
        rw [hcons]
        cases hkey : s.attribution entry with
        | none => rfl
        | some k' =>
            have hne : k ≠ k' := fun heq => hattr (by rw [hkey, heq])
            show addTraffic ((GoMap.addTo s.statistics k' entry.traffic).lookup k) _ = _
            rw [GoMap.lookup_addTo_ne _ _ hne]

/-- The entries of an event. -/
def Event.entries : Event → List Entry
  | .payload data => data
  | _ => []

theorem entries_eq_nil {e : Event} (h : ∀ data, e.action ≠ .report data) : e.entries = [] := by
  cases e with
  | payload data => exact absurd rfl (h data)
  | _ => rfl

/-- An event that does not delete the pod of a counter adds to it the traffic it
has for the pod. -/
theorem lookup_statistics_next {s : State} {e : Event} {k : PodKey}
    (hk : ∀ pod, e.action = .unregister pod → podKey pod ≠ k) :
    (s.next e).statistics.lookup k
      = addTraffic (s.statistics.lookup k) (attributedTo s k e.entries) := by
  by_cases hreport : ∃ data, e = .payload data
  · obtain ⟨data, rfl⟩ := hreport
    show (s.act (.report data)).statistics.lookup k = _
    rw [act_report, lookup_statistics_run_account]
    rfl
  · have hact : ∀ data, e.action ≠ .report data := by
      intro data hdata
      refine hreport ?_
      unfold Event.action at hdata
      split at hdata
      case h_7 => exact ⟨_, rfl⟩
      all_goals cases hdata
    rw [entries_eq_nil hact]
    show (s.act e.action).statistics.lookup k = s.statistics.lookup k
    cases h : e.action with
    | register pod => rw [statistics_register]
    | unregister pod =>
        rw [statistics_unregister, GoMap.lookup_erase_ite, if_neg (hk pod h).symm]
    | setZone node zone => rfl
    | dropNode node => rfl
    | report data => exact absurd h (hact data)
    | ignore => rfl

/-- The bytes that an event has for a pod. -/
def State.bytesAttributed (k : PodKey) (s : State) (e : Event) : ℕ :=
  ((attributedTo s k e.entries).map UInt64.toNat).sum

theorem counter_next {s : State} {e : Event} {k : PodKey}
    (hk : ∀ pod, e.action = .unregister pod → podKey pod ≠ k) :
    ((s.next e).statistics.lookup k).getD 0
      = (s.statistics.lookup k).getD 0 + UInt64.ofNat (s.bytesAttributed k e) := by
  rw [lookup_statistics_next hk, getD_addTraffic, UInt64.ofNat_add, UInt64.ofNat_toNat]
  rfl

/-- Over a run that does not delete the pod of a counter, the counter grows by the
bytes attributed to the pod. -/
theorem counter_run {es : List Event} {k : PodKey}
    (hk : ∀ e ∈ es, ∀ pod, e.action = .unregister pod → podKey pod ≠ k) (s : State) :
    ((Runs.run State.next s es).statistics.lookup k).getD 0
      = (s.statistics.lookup k).getD 0
        + UInt64.ofNat (Runs.total State.next (State.bytesAttributed k) s es) := by
  induction es generalizing s with
  | nil => exact (UInt64.add_zero _).symm
  | cons e es ih =>
      rw [Runs.run_cons, ih (fun e' he' => hk e' (List.mem_cons_of_mem _ he')),
        counter_next (hk e List.mem_cons_self), Runs.total, UInt64.ofNat_add, UInt64.add_assoc]

/-! ## The specification on header bytes -/

/-- The four bytes of an address in a header. -/
structure HeaderAddr : Type where
  a : UInt8
  b : UInt8
  c : UInt8
  d : UInt8
  deriving DecidableEq, Repr

/-- The bytes of the address. -/
def HeaderAddr.bytes (addr : HeaderAddr) : List UInt8 := [addr.a, addr.b, addr.c, addr.d]

/-- The word that a host loads from the bytes. -/
def HeaderAddr.load (addr : HeaderAddr) (e : Endian) : UInt32 :=
  loadWord32 e addr.a addr.b addr.c addr.d

/-- An entry of `ip_map`, with its addresses as they stand in the header. -/
structure Flow : Type where
  src : HeaderAddr
  dst : HeaderAddr
  srcPort : UInt16
  dstPort : UInt16
  packetSize : UInt64
  deriving DecidableEq, Repr

/-- The key of the entry, as a little-endian host loads it. -/
def Flow.key (flow : Flow) : IPKey where
  srcIP := flow.src.load .little
  dstIP := flow.dst.load .little
  srcPort := flow.srcPort
  dstPort := flow.dstPort

/-- The value of the entry. -/
def Flow.value (flow : Flow) : IPValue := ⟨flow.packetSize⟩

/-- The key that the cluster attributes a flow to: that of its source, if the
source and the destination resolve to different zones. -/
def Cluster.attribution (c : Cluster) (flow : Flow) : Option PodKey :=
  match c.resolve flow.src.bytes, c.resolve flow.dst.bytes with
  | some (k, srcZone), some (_, dstZone) => if srcZone ≠ dstZone then some k else none
  | _, _ => none

/-- The bytes of the flows that come from a pod of the host and are attributed
to a key. -/
def Cluster.contributions (c : Cluster) (podsOnHost : List Pod) (k : PodKey)
    (flows : List Flow) : List UInt64 :=
  flows.filterMap fun flow =>
    if flow.src.bytes ∈ podsOnHost.flatMap Pod.addrs ∧ c.attribution flow = some k then
      some flow.packetSize
    else none

/-! ## The forms of an address agree -/

theorem HeaderAddr.ntohl_load (addr : HeaderAddr) :
    ntohl (addr.load .little) = word32 addr.a addr.b addr.c addr.d :=
  ntohl_loadWord32_little addr.a addr.b addr.c addr.d

/-- The filter keeps a flow exactly if its source bytes are an address of a pod
of the host. -/
theorem onHost_key_iff (podsOnHost : List Pod) (flow : Flow) :
    OnHost podsOnHost (ntohl flow.key.srcIP)
      ↔ flow.src.bytes ∈ podsOnHost.flatMap Pod.addrs := by
  show OnHost podsOnHost (ntohl (flow.src.load .little)) ↔ _
  rw [HeaderAddr.ntohl_load]
  exact onHost_word32

/-- The entry that a flow is decoded to. -/
def Flow.entry (flow : Flow) : Entry := toEntry (flow.key, flow.value)

/-- The server attributes a decoded flow as the cluster does. -/
theorem Represents.attribution_entry {s : State} {c : Cluster} (h : Represents s c)
    (flow : Flow) : s.attribution flow.entry = c.attribution flow := by
  have hsrc : flow.entry.srcIP = word32 flow.src.a flow.src.b flow.src.c flow.src.d :=
    flow.src.ntohl_load
  have hdst : flow.entry.dstIP = word32 flow.dst.a flow.dst.b flow.dst.c flow.dst.d :=
    flow.dst.ntohl_load
  unfold State.attribution Cluster.attribution
  rw [hsrc, hdst, h.resolve_eq, h.resolve_eq]
  rfl

/-- The entries of the filtered flows bring to a key what the specification says. -/
theorem Represents.attributedTo_filter {s : State} {c : Cluster} (h : Represents s c)
    (podsOnHost : List Pod) (k : PodKey) (flows : List Flow) :
    attributedTo s k
        ((flows.filter fun flow => OnHost podsOnHost (ntohl flow.key.srcIP)).map Flow.entry)
      = c.contributions podsOnHost k flows := by
  unfold attributedTo Cluster.contributions
  induction flows with
  | nil => rfl
  | cons flow flows ih =>
      have honHost := onHost_key_iff podsOnHost flow
      have hattr := h.attribution_entry flow
      by_cases hmem : flow.src.bytes ∈ podsOnHost.flatMap Pod.addrs
      · rw [List.filter_cons_of_pos (by simpa using honHost.2 hmem), List.map_cons,
          List.filterMap_cons, ih, List.filterMap_cons, hattr]
        simp only [hmem, true_and]
        rfl
      · have hdrop : ¬ (flow.src.bytes ∈ podsOnHost.flatMap Pod.addrs
            ∧ c.attribution flow = some k) := fun hcond => hmem hcond.1
        rw [List.filter_cons_of_neg (by simpa using mt honHost.1 hmem), ih,
          List.filterMap_cons, if_neg hdrop]

/-! ## The pipeline -/

/-- Main result: for every content of the map, every list of pods on the host
and every history of the server, filtering, encoding, posting and decoding
succeeds, leaves the indexes alone, and adds to the counter of every key the
bytes of the flows that come from a pod of the host and that the cluster
attributes to the key. -/
theorem pipeline_exact (es : List Event) (podsOnHost : List Pod) (flows : List Flow)
    (hsize : flows.length ≤ Ebpf.maxEntries) :
    ∃ keys values buf data s flowLogs,
      filterSrcIpOnCurrentHost (flows.map Flow.key) (flows.map Flow.value) podsOnHost
          = some (keys, values)
        ∧ encode keys values = some buf
        ∧ decode buf = some (.ok data)
        ∧ run es = some s
        ∧ handlePayload ⟨"POST", .ok buf⟩ s
          = some (⟨200, ""⟩, (handleEntries data s []).1, flowLogs)
        ∧ (handleEntries data s []).1.podIpIndex = s.podIpIndex
        ∧ (handleEntries data s []).1.nodeIpIndex = s.nodeIpIndex
        ∧ (handleEntries data s []).1.podIndex = s.podIndex
        ∧ (handleEntries data s []).1.nodeIndex = s.nodeIndex
        ∧ ∀ k, (handleEntries data s []).1.statistics.lookup k
          = addTraffic (s.statistics.lookup k)
            ((Cluster.after es).contributions podsOnHost k flows) := by
  obtain ⟨s, hs, hrep⟩ := run_represents es
  -- the pairs that the filter keeps, and what becomes of them
  let kept := flows.filter fun flow => OnHost podsOnHost (ntohl flow.key.srcIP)
  let kvs := kept.map fun flow => (flow.key, flow.value)
  have hfilter : filterSrcIpOnCurrentHost (flows.map Flow.key) (flows.map Flow.value) podsOnHost
      = some (kvs.map Prod.fst, kvs.map Prod.snd) := by
    have hkvs : ((flows.map fun flow => (flow.key, flow.value)).filter
        fun kv => OnHost podsOnHost (ntohl kv.1.srcIP)) = kvs := List.filter_map
    have h := filterSrcIpOnCurrentHost_eq (flows.map fun flow => (flow.key, flow.value)) podsOnHost
    rw [hkvs, List.map_map, List.map_map] at h
    exact h
  have hdecode : decode (Slice.ofList (wire kvs)) = some (.ok (kvs.map toEntry)) := by
    have hkept : kept.length ≤ flows.length := List.length_filter_le _ _
    apply decode_wire
    rw [List.length_map]
    unfold Ebpf.maxEntries at hsize
    omega
  have hpost : handlePayload ⟨"POST", .ok (Slice.ofList (wire kvs))⟩ s
      = some (⟨200, ""⟩, handleEntries (kvs.map toEntry) s []) := by
    simp only [handlePayload, hdecode, ne_eq, not_true_eq_false, ↓reduceIte, Option.bind_eq_bind,
      Option.bind_some]
  have hentries : kvs.map toEntry = kept.map Flow.entry := List.map_map
  obtain ⟨hip, hnip, hpod, hnode⟩ := report_indexes s (kvs.map toEntry)
  refine ⟨_, _, _, _, s, _, hfilter, encode_pairs kvs, hdecode, hs, hpost, hip, hnip, hpod, hnode,
    fun k => ?_⟩
  rw [handleEntries_fst, lookup_statistics_run_account, hentries,
    hrep.attributedTo_filter podsOnHost k flows]

/-- A flow of 1500 bytes between two pods in different zones. -/
theorem pipeline_exact_cross_zone :
    let zone : String → GoMap String String := fun z =>
      (∅ : GoMap String String).insert "topology.kubernetes.io/zone" z
    let a : Pod := ⟨"default", "a", "n1", "192.168.0.1", ["10.0.0.1"]⟩
    let b : Pod := ⟨"default", "b", "n2", "192.168.0.2", ["10.0.1.1"]⟩
    let es : List Event := [.nodeAdd (.node ⟨"n1", zone "x"⟩), .nodeAdd (.node ⟨"n2", zone "y"⟩),
      .podAdd (.pod a), .podAdd (.pod b)]
    let flow : Flow := ⟨⟨10, 0, 0, 1⟩, ⟨10, 0, 1, 1⟩, 40000, 80, 1500⟩
    ∃ keys values buf data s,
      filterSrcIpOnCurrentHost [flow.key] [flow.value] [a] = some (keys, values)
        ∧ encode keys values = some buf ∧ decode buf = some (.ok data) ∧ run es = some s
        ∧ (handleEntries data s []).1.statistics.lookup (podKey a) = some 1500 := by
  intro zone a b es flow
  obtain ⟨keys, values, buf, data, s, flowLogs, hfilter, hencode, hdecode, hs, -, -, -, -, -, hstat⟩ :=
    pipeline_exact es [a] [flow] (by decide)
  refine ⟨keys, values, buf, data, s, hfilter, hencode, hdecode, hs, ?_⟩
  have hcontributions : (Cluster.after es).contributions [a] (podKey a) [flow] = [1500] := by decide
  have hbefore : s.statistics.lookup (podKey a) = none := by
    rw [run_eq, Option.some.injEq] at hs
    rw [← hs]
    decide
  rw [hstat, hcontributions, hbefore]
  decide

end Server
