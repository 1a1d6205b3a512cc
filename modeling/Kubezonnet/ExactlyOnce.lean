/-
# Exactly once

A packet between two nodes passes the hooks of both, is counted in both maps, and
travels in requests that are handled in any order.  When nothing is lost on the
way (`Undisturbed`) and everything has arrived, every series has grown by the
bytes of the transmissions that the cluster attributes to it, each of them once
(`exactly_once`): the filter leaves each packet to the node of its source, and
neither the times of the ticks nor the order of the batch calls nor that of the
requests plays a part.  Counters wrap around on the way, so this is modulo
`2 ^ 64`.
-/
import Kubezonnet.Deployment
import Kubezonnet.ServerAccounting

open Agent Ebpf GoSlice Kube Payload

namespace Ebpf

/-! ## Sums over keys -/

/-- The bytes of the flows whose key satisfies a condition. -/
def bytesWhere (p : IPKey → Prop) [DecidablePred p] (flows : List (IPKey × UInt64)) : ℕ :=
  (flows.map fun flow => if p flow.1 then flow.2.toNat else 0).sum

variable (p : IPKey → Prop) [DecidablePred p]

theorem bytesWhere_append (flows flows' : List (IPKey × UInt64)) :
    bytesWhere p (flows ++ flows') = bytesWhere p flows + bytesWhere p flows' := by
  unfold bytesWhere
  rw [List.map_append, List.sum_append]

theorem bytesWhere_cons (flow : IPKey × UInt64) (flows : List (IPKey × UInt64)) :
    bytesWhere p (flow :: flows) = (if p flow.1 then flow.2.toNat else 0) + bytesWhere p flows :=
  List.sum_cons

/-- They are the bytes of these keys, added up. -/
theorem sum_bytesOf {flows : List (IPKey × UInt64)} {keys : Finset IPKey}
    (h : ∀ flow ∈ flows, flow.1 ∈ keys) :
    ∑ key ∈ keys.filter p, bytesOf key flows = bytesWhere p flows := by
  induction flows with
  | nil => exact Finset.sum_eq_zero fun key _ => rfl
  | cons flow flows ih =>
      have hrest := ih fun f hf => h f (List.mem_cons_of_mem flow hf)
      have hhead : ∑ key ∈ keys.filter p, (if flow.1 = key then flow.2.toNat else 0)
          = if p flow.1 then flow.2.toNat else 0 := by
        rw [Finset.sum_ite_eq]
        apply if_congr _ rfl rfl
        rw [Finset.mem_filter]
        exact and_iff_right (h flow List.mem_cons_self)
      rw [bytesWhere_cons, ← hrest, ← hhead, ← Finset.sum_add_distrib]
      exact Finset.sum_congr rfl fun key _ => bytesOf_cons key flow flows

end Ebpf

namespace Agent

/-! ## A node that loses nothing -/

/-- A packet that is counted does not come to a full map without its key. -/
def Books.HasRoom (o : Options) (b : Books) : Event → Prop
  | .packet skb => ∀ flow, flowOf o.endian o.config skb = some flow →
      flow.1 ∈ b.ipMap ∨ b.ipMap.keys.card < maxEntries
  | .tick _ => True

/-- Every tick of a run sees the pods of the host, reads without an error and
reaches the server, and every packet finds room. -/
structure Lossless (o : Options) (pods : List Pod) (es : List Event) : Prop where
  ticks : ∀ t, Event.tick t ∈ es → t.pods = pods ∧ t.Reads ∧ t.exchange.delivered = true
  room : ∀ pre e, pre ++ [e] <+: es → (Books.after o pre).HasRoom o e

variable {o : Options} {pods : List Pod} {es : List Event}

/-- The map has no other keys than the packets. -/
theorem keys_after_subset (o : Options) (es : List Event) :
    (Books.after o es).ipMap.keys ⊆ ((es.filterMap (flowOfEvent o)).map Prod.fst).toFinset := by
  refine Runs.run_history (I := fun es (b : Books) =>
    b.ipMap.keys ⊆ ((es.filterMap (flowOfEvent o)).map Prod.fst).toFinset)
    (Finset.empty_subset _) (fun es b e ih => ?_) es
  rw [List.filterMap_append, List.map_append, List.toFinset_append]
  intro key hkey
  rw [Finmap.mem_keys] at hkey
  cases e with
  | tick t =>
      have hbefore : key ∈ b.ipMap := by
        by_contra hnew
        exact (takes_takeEntries t.batch.order maxEntries b.ipMap).2.subset key hnew hkey
      exact Finset.mem_union_left _ (ih (Finmap.mem_keys.2 hbefore))
  | packet skb =>
      have hpacket : key ∈ (handleV4 o.endian o.config skb b.ipMap).2 := hkey
      unfold handleV4 at hpacket
      cases hflow : flowOf o.endian o.config skb with
      | none =>
          rw [hflow] at hpacket
          exact Finset.mem_union_left _ (ih (Finmap.mem_keys.2 hpacket))
      | some flow =>
          rw [hflow] at hpacket
          by_cases hkey' : key = flow.1
          · refine Finset.mem_union_right _ (List.mem_toFinset.2 ?_)
            have hevent : flowOfEvent o (.packet skb) = some flow := hflow
            rw [List.filterMap_cons_some hevent, hkey']
            exact List.mem_cons_self
          · have hbefore : key ∈ b.ipMap := by
              rw [← Finmap.lookup_isSome, ← lookup_countFlow_ne b.ipMap flow.2 hkey',
                Finmap.lookup_isSome]
              exact hpacket
            exact Finset.mem_union_left _ (ih (Finmap.mem_keys.2 hbefore))

/-- There is always room in a run with no more flows than the map has room for. -/
theorem hasRoom_of_card_le
    (h : ((es.filterMap (flowOfEvent o)).map Prod.fst).toFinset.card ≤ maxEntries)
    {pre : List Event} {e : Event} (hpre : pre ++ [e] <+: es) : (Books.after o pre).HasRoom o e := by
  cases e with
  | tick t => trivial
  | packet skb =>
      intro flow hflow
      by_contra hfull
      obtain ⟨hnew, hfull⟩ := not_or.1 hfull
      -- the keys of the map and the new one are flows of the run
      have hsubset : insert flow.1 (Books.after o pre).ipMap.keys
          ⊆ ((es.filterMap (flowOfEvent o)).map Prod.fst).toFinset := by
        obtain ⟨post, rfl⟩ := hpre
        have hevent : flowOfEvent o (.packet skb) = some flow := hflow
        rw [List.filterMap_append, List.filterMap_append, List.filterMap_cons_some hevent,
          List.map_append, List.map_append, List.toFinset_append, List.toFinset_append]
        refine Finset.insert_subset ?_ ?_
        · refine Finset.mem_union_left _ (Finset.mem_union_right _ (List.mem_toFinset.2 ?_))
          exact List.mem_cons_self
        · exact (keys_after_subset o pre).trans
            (Finset.subset_union_left.trans Finset.subset_union_left)
      have hcard := Finset.card_le_card hsubset
      rw [Finset.card_insert_of_notMem fun hmem => hnew (Finmap.mem_keys.1 hmem)] at hcard
      omega

/-- A full map refuses nothing when there is room. -/
theorem refused_eq_zero {b : Books} {e : Event} (h : b.HasRoom o e) (key : IPKey) :
    b.refused o key e = 0 := by
  cases e with
  | tick t => rfl
  | packet skb =>
      rw [refused_packet]
      cases hflow : flowOf o.endian o.config skb with
      | none => rfl
      | some flow =>
          obtain ⟨k, packetSize⟩ := flow
          refine if_neg fun hcond => ?_
          rcases h (k, packetSize) hflow with hmem | hroom
          · exact Finmap.lookup_eq_none.1 hcond.2.1 hmem
          · exact hcond.2.2 hroom

/-- A tick does not filter out what comes from its own host. -/
theorem filtered_eq_zero {t : Tick} {key : IPKey}
    (h : OnHost t.pods (ByteOrder.ntohl key.srcIP)) (b : Books) : b.filtered key (.tick t) = 0 := by
  apply bytesOf_eq_zero
  intro hmem
  obtain ⟨flow, hflow, rfl⟩ := List.mem_map.1 hmem
  obtain ⟨kv, hkv, rfl⟩ := List.mem_map.1 hflow
  exact of_decide_eq_true (List.mem_filter.1 hkv).2 h

/-- Only flows from the host are reported. -/
theorem onHost_of_mem_sent (h : ∀ t, Event.tick t ∈ es → t.pods = pods) :
    ∀ kvs ∈ (Books.after o es).sent, ∀ kv ∈ kvs, OnHost pods (ByteOrder.ntohl kv.1.srcIP) := by
  refine Runs.run_history (I := fun es (b : Books) => (∀ t, Event.tick t ∈ es → t.pods = pods) →
    ∀ kvs ∈ b.sent, ∀ kv ∈ kvs, OnHost pods (ByteOrder.ntohl kv.1.srcIP))
    (fun _ kvs hkvs => absurd hkvs List.not_mem_nil) (fun es b e ih h => ?_) es h
  have hbefore := ih fun t ht => h t (List.mem_append_left _ ht)
  cases e with
  | packet skb => exact hbefore
  | tick t =>
      have hpods : t.pods = pods := h t (List.mem_append_right _ List.mem_cons_self)
      intro kvs hkvs
      rcases List.mem_append.1 hkvs with hkvs | hkvs
      · exact hbefore kvs hkvs
      · intro kv hkv
        unfold sentReports at hkvs
        split_ifs at hkvs
        · rw [List.mem_singleton.1 hkvs, localEntries, hpods] at hkv
          exact of_decide_eq_true (List.mem_filter.1 hkv).2
        · exact absurd hkvs List.not_mem_nil

/-- When nothing is lost, the bytes of a flow of the host are reported or in the
map, up to counters that wrapped around. -/
theorem Lossless.known_modEq (h : Lossless o pods es) (hsend : o.sendData = true)
    {key : IPKey} (hkey : OnHost pods (ByteOrder.ntohl key.srcIP)) :
    (Books.after o es).known key ≡ bytesOf key (es.filterMap (flowOfEvent o)) [MOD 2 ^ 64] := by
  have haccount := known_after o key es
  -- each of the other places is empty at every step, but for multiples of `2 ^ 64`
  have hzero : ∀ (loss : Books → Event → ℕ),
      (∀ pre e, pre ++ [e] <+: es → loss (Books.after o pre) e = 0) →
      Runs.total (Books.next o) loss Books.start es = 0 := fun loss hloss =>
    Runs.total_eq_zero_iff.2 hloss
  have hmem : ∀ {pre e}, pre ++ [e] <+: es → e ∈ es := fun hpre =>
    hpre.subset (List.mem_append_right _ List.mem_cons_self)
  have hrefused := hzero (Books.refused o key) fun pre e hpre =>
    refused_eq_zero (h.room pre e hpre) key
  have hfiltered := hzero (Books.filtered key) fun pre e hpre => by
    cases e with
    | packet skb => rfl
    | tick t =>
        apply filtered_eq_zero
        rw [(h.ticks t (hmem hpre)).1]
        exact hkey
  have hunsent := hzero (Books.unsent o key) fun pre e hpre => by
    cases e with
    | packet skb => rfl
    | tick t =>
        obtain ⟨-, hreads, hdelivered⟩ := h.ticks t (hmem hpre)
        exact if_pos ⟨hreads, hsend, hdelivered⟩
  obtain ⟨m, hm⟩ : 2 ^ 64 ∣ Runs.total (Books.next o) (Books.wrapped o key) Books.start es := by
    refine Runs.dvd_total (fun b e => ?_) _ _
    unfold Books.wrapped
    split
    · split
      · split_ifs
        · exact dvd_rfl
        · exact dvd_zero _
      · exact dvd_zero _
    · exact dvd_zero _
  rw [hrefused, hfiltered, hunsent, hm] at haccount
  rw [← haccount]
  simp [Nat.ModEq]

/-- When nothing is lost and the map is empty, what is reported of some flows are
the bytes of the packets of those among them that come from the host. -/
theorem Lossless.reported_modEq (h : Lossless o pods es) (hsend : o.sendData = true)
    (hempty : (Books.after o es).ipMap = ∅) (p : IPKey → Prop) [DecidablePred p] :
    bytesWhere p ((Books.after o es).sent.flatten.map flowOfPair)
      ≡ bytesWhere (fun key => p key ∧ OnHost pods (ByteOrder.ntohl key.srcIP))
        (es.filterMap (flowOfEvent o)) [MOD 2 ^ 64] := by
  let q : IPKey → Prop := fun key => p key ∧ OnHost pods (ByteOrder.ntohl key.srcIP)
  let keys : Finset IPKey := ((Books.after o es).sent.flatten.map Prod.fst).toFinset
    ∪ ((es.filterMap (flowOfEvent o)).map Prod.fst).toFinset
  have hsent : ∀ flow ∈ (Books.after o es).sent.flatten.map flowOfPair, flow.1 ∈ keys := by
    intro flow hflow
    obtain ⟨kv, hkv, rfl⟩ := List.mem_map.1 hflow
    exact Finset.mem_union_left _ (List.mem_toFinset.2 (List.mem_map_of_mem hkv))
  have hflows : ∀ flow ∈ es.filterMap (flowOfEvent o), flow.1 ∈ keys := fun flow hflow =>
    Finset.mem_union_right _ (List.mem_toFinset.2 (List.mem_map_of_mem hflow))
  -- what is reported comes from the host anyway
  have hlocal : bytesWhere p ((Books.after o es).sent.flatten.map flowOfPair)
      = bytesWhere q ((Books.after o es).sent.flatten.map flowOfPair) := by
    unfold bytesWhere
    congr 1
    refine List.map_congr_left fun flow hflow => if_congr ?_ rfl rfl
    obtain ⟨kv, hkv, rfl⟩ := List.mem_map.1 hflow
    obtain ⟨kvs, hkvs, hmem⟩ := List.mem_flatten.1 hkv
    have hhost := onHost_of_mem_sent (o := o) (fun t ht => (h.ticks t ht).1) kvs hkvs kv hmem
    exact (and_iff_left hhost).symm
  rw [hlocal, ← sum_bytesOf q hsent, ← sum_bytesOf q hflows]
  refine Nat.ModEq.sum fun key hkey => ?_
  have hknown := h.known_modEq hsend (Finset.mem_filter.1 hkey).2.2
  have hcounted : counted (Books.after o es).ipMap key = 0 := by
    rw [hempty]
    rfl
  rwa [Books.known, hcounted, Nat.add_zero] at hknown

end Agent

namespace Server

/-! ## What a payload adds to a counter -/

/-- The server attributes the pairs of a key to a series. -/
def State.Attributes (s : State) (k : PodKey) (key : IPKey) : Prop :=
  s.attribution (toEntry (key, ⟨0⟩)) = some k

instance (s : State) (k : PodKey) : DecidablePred (s.Attributes k) := fun key =>
  inferInstanceAs (Decidable (s.attribution (toEntry (key, ⟨0⟩)) = some k))

/-- The traffic attributed to a series are the bytes of its keys. -/
theorem sum_attributedTo (s : State) (k : PodKey) (kvs : List (IPKey × IPValue)) :
    ((attributedTo s k (kvs.map toEntry)).map UInt64.toNat).sum
      = bytesWhere (s.Attributes k) (kvs.map flowOfPair) := by
  induction kvs with
  | nil => rfl
  | cons kv kvs ih =>
      rw [List.map_cons, List.map_cons, bytesWhere_cons, ← ih, attributedTo, List.filterMap_cons,
        ← attributedTo]
      -- the attribution of an entry does not depend on its traffic
      have hattr : s.attribution (toEntry kv) = some k ↔ s.Attributes k (flowOfPair kv).1 := Iff.rfl
      by_cases hk : s.attribution (toEntry kv) = some k
      · rw [if_pos hk, if_pos (hattr.1 hk), List.map_cons, List.sum_cons]
        rfl
      · rw [if_neg hk, if_neg (mt hattr.2 hk), Nat.zero_add]

end Server

namespace Deployment

variable {ι : Type} [DecidableEq ι]

/-! ## A system that loses nothing -/

/-- No informer speaks during the run, and no node loses anything. -/
structure Undisturbed (o : Options) (pods : ι → List Pod) (es : List (Event ι)) : Prop where
  informer : ∀ e, Event.informer e ∉ es
  nodes : ∀ i, Lossless o (pods i) (eventsAt i es)

/-- The server has accounted for the requests that were handled, and nothing else. -/
theorem server_after {o : Options} {es : List (Event ι)} (h : ∀ e, Event.informer e ∉ es)
    (server : Server.State) :
    (Ledgers.after o server es).server
      = Runs.run Server.State.account server
        ((Ledgers.after o server es).handled.flatten.map toEntry) := by
  refine Runs.run_history (I := fun es (l : Ledgers ι) => (∀ e, Event.informer e ∉ es) →
    l.server = Runs.run Server.State.account server (l.handled.flatten.map toEntry))
    (fun _ => rfl) (fun es l e ih h => ?_) es h
  have hbefore := ih fun e he => h e (List.mem_append_left _ he)
  cases e with
  | hook i ctx =>
      simp only [Ledgers.next]
      split_ifs <;> exact hbefore
  | tick i t => exact hbefore
  | deliver n =>
      simp only [Ledgers.next]
      cases l.inFlight[n]? with
      | none => exact hbefore
      | some kvs =>
          dsimp only
          rw [List.flatten_append, List.flatten_singleton, List.map_append, Runs.run_append,
            ← hbefore]
  | informer e => exact absurd (List.mem_append_right _ List.mem_cons_self) (h e)

/-- The bytes that a hook counts at an event, if its node and the key of the packet
satisfy a condition. -/
def hookBytes (o : Options) (p : ι → IPKey → Prop) [∀ i, DecidablePred (p i)] : Event ι → ℕ
  | .hook i ctx => bytesWhere (p i) (hookFlow o ctx).toList
  | _ => 0

/-- The packets of all nodes are those of the hooks. -/
theorem sum_bytesWhere_eventsAt [Fintype ι] (o : Options) (p : ι → IPKey → Prop)
    [∀ i, DecidablePred (p i)] (es : List (Event ι)) :
    ∑ i, bytesWhere (p i) ((eventsAt i es).filterMap (flowOfEvent o))
      = (es.map (hookBytes o p)).sum := by
  induction es with
  | nil => exact Finset.sum_eq_zero fun i _ => rfl
  | cons e es ih =>
      -- the event adds its bytes at its own node
      have hnode : ∀ i, bytesWhere (p i) ((eventsAt i (e :: es)).filterMap (flowOfEvent o))
          = bytesWhere (p i) (((atNode i e).bind (flowOfEvent o)).toList)
            + bytesWhere (p i) ((eventsAt i es).filterMap (flowOfEvent o)) := by
        intro i
        rw [eventsAt, List.filterMap_cons, ← bytesWhere_append]
        cases atNode i e with
        | none => rfl
        | some e' =>
            rw [List.filterMap_cons, Option.bind_some]
            cases flowOfEvent o e' <;> rfl
      have hone : ∑ i, bytesWhere (p i) (((atNode i e).bind (flowOfEvent o)).toList)
          = hookBytes o p e := by
        cases e with
        | hook j ctx =>
            rw [Finset.sum_eq_single j]
            · by_cases hip : ctx.IsIPv4 <;> simp [atNode, hookBytes, hookFlow, hip, flowOfEvent]
            · intro i _ hi
              simp [atNode, Ne.symm hi, bytesWhere]
            · exact fun hj => absurd (Finset.mem_univ j) hj
        | tick j t =>
            refine Finset.sum_eq_zero fun i _ => ?_
            by_cases hj : j = i <;> simp [atNode, hj, flowOfEvent, bytesWhere]
        | deliver n => exact Finset.sum_eq_zero fun i _ => rfl
        | informer e => exact Finset.sum_eq_zero fun i _ => rfl
      rw [Finset.sum_congr rfl fun i _ => hnode i, Finset.sum_add_distrib, ih, hone, List.map_cons,
        List.sum_cons]

/-- Every counter has grown by what the hooks of the sources have counted for it. -/
theorem counter_after [Fintype ι] {o : Options} (hsend : o.sendData = true) {pods : ι → List Pod}
    {es : List (Event ι)} (h : Undisturbed o pods es) (server : Server.State)
    (hflight : (Ledgers.after o server es).inFlight = [])
    (hempty : ∀ i, ((Ledgers.after o server es).books i).ipMap = ∅) (k : Server.PodKey) :
    ((Ledgers.after o server es).server.statistics.lookup k).getD 0
      = UInt64.ofNat (((server.statistics.lookup k).getD 0).toNat
        + (es.map (hookBytes o fun i key =>
          server.Attributes k key ∧ OnHost (pods i) (ByteOrder.ntohl key.srcIP))).sum) := by
  -- all requests have been handled, so they are those that the agents have sent
  have hbytes : ∀ reports : List (List (IPKey × IPValue)),
      bytesWhere (server.Attributes k) (reports.flatten.map flowOfPair)
        = (reports.map fun kvs => bytesWhere (server.Attributes k) (kvs.map flowOfPair)).sum := by
    intro reports
    induction reports with
    | nil => rfl
    | cons kvs reports ih =>
        rw [List.flatten_cons, List.map_append, bytesWhere_append, ih, List.map_cons, List.sum_cons]
  have hsent := sum_requests_run o server es fun kvs =>
    bytesWhere (server.Attributes k) (kvs.map flowOfPair)
  rw [hflight, List.map_nil, List.sum_nil, Nat.add_zero, ← hbytes] at hsent
  have hnodes : bytesWhere (server.Attributes k)
        ((Ledgers.after o server es).handled.flatten.map flowOfPair)
      ≡ (es.map (hookBytes o fun i key =>
          server.Attributes k key ∧ OnHost (pods i) (ByteOrder.ntohl key.srcIP))).sum
        [MOD 2 ^ 64] := by
    rw [hsent, ← sum_bytesWhere_eventsAt]
    refine Nat.ModEq.sum fun i _ => ?_
    rw [← hbytes]
    refine (h.nodes i).reported_modEq hsend ?_ _
    rw [← books_run o server]
    exact hempty i
  rw [server_after h.informer, Server.lookup_statistics_run_account, Server.getD_addTraffic,
    Server.sum_attributedTo]
  apply UInt64.toNat_inj.1
  rw [UInt64.toNat_ofNat', UInt64.toNat_ofNat']
  exact Nat.ModEq.add_left _ hnodes

/-! ## Transmissions -/

/-- A packet on its way, and the nodes whose hooks it passes. -/
structure Transmission (ι : Type) : Type where
  ctx : NfCtx
  seenAt : List ι

/-- The flow of a packet, with its addresses as they stand in the header. -/
def headerFlow (data : List UInt8) : Server.Flow where
  src := ⟨byteAt data 12, byteAt data 13, byteAt data 14, byteAt data 15⟩
  dst := ⟨byteAt data 16, byteAt data 17, byteAt data 18, byteAt data 19⟩
  srcPort := (portsRead .little data).1
  dstPort := (portsRead .little data).2
  packetSize := totalLength data

/-- The source of the packet is an address of a pod of the node. -/
def Transmission.ComesFrom (tr : Transmission ι) (pods : List Pod) : Prop :=
  (headerFlow tr.ctx.skb.data).src.bytes ∈ pods.flatMap Pod.addrs

instance (tr : Transmission ι) (pods : List Pod) : Decidable (tr.ComesFrom pods) :=
  inferInstanceAs (Decidable (_ ∈ _))

/-- The hooks count the packet: it is IPv4, has its header and is within the subnet. -/
def Transmission.IsCounted (o : Options) (tr : Transmission ι) : Prop :=
  tr.ctx.IsIPv4 ∧ (flowOf o.endian o.config tr.ctx.skb).isSome

instance (o : Options) (tr : Transmission ι) : Decidable (tr.IsCounted o) :=
  inferInstanceAs (Decidable (_ ∧ _))

/-- The bytes of a transmission that a series stands for: those of a packet that is
counted, comes from a pod and is attributed by the cluster to the series. -/
def Transmission.bytesFor [Fintype ι] (o : Options) (c : Server.Cluster) (pods : ι → List Pod)
    (k : Server.PodKey) (tr : Transmission ι) : ℕ :=
  if tr.IsCounted o ∧ (∃ i, tr.ComesFrom (pods i))
      ∧ c.attribution (headerFlow tr.ctx.skb.data) = some k then
    (totalLength tr.ctx.skb.data).toNat
  else 0

omit [DecidableEq ι] in
/-- A little-endian host counts a packet under the key of its flow. -/
theorem hookFlow_eq {o : Options} (hlittle : o.endian = .little) (tr : Transmission ι) :
    hookFlow o tr.ctx
      = if tr.IsCounted o then
          some ((headerFlow tr.ctx.skb.data).key, totalLength tr.ctx.skb.data)
        else none := by
  have hsrc : (headerFlow tr.ctx.skb.data).key.srcIP
      = ByteOrder.hostWord .little (saddrOf tr.ctx.skb.data) := ByteOrder.loadWord32_eq .little _ _ _ _
  have hdst : (headerFlow tr.ctx.skb.data).key.dstIP
      = ByteOrder.hostWord .little (daddrOf tr.ctx.skb.data) := ByteOrder.loadWord32_eq .little _ _ _ _
  have hkey : (headerFlow tr.ctx.skb.data).key
      = { srcIP := ByteOrder.hostWord .little (saddrOf tr.ctx.skb.data)
          dstIP := ByteOrder.hostWord .little (daddrOf tr.ctx.skb.data)
          srcPort := (portsRead .little tr.ctx.skb.data).1
          dstPort := (portsRead .little tr.ctx.skb.data).2 } := by
    rw [← hsrc, ← hdst]
    rfl
  have hcounted : tr.IsCounted o ↔ tr.ctx.IsIPv4 ∧ HasHeader tr.ctx.skb
      ∧ Passes o.config (ByteOrder.hostWord .little (saddrOf tr.ctx.skb.data))
        (ByteOrder.hostWord .little (daddrOf tr.ctx.skb.data)) := by
    rw [← isSome_flowOf_iff, ← hlittle]
    exact Iff.rfl
  rw [hookFlow, hlittle, flowOf_eq, hkey]
  by_cases hip : tr.ctx.IsIPv4
  · rw [if_pos hip]
    exact if_congr (hcounted.trans (and_iff_right hip)).symm rfl rfl
  · rw [if_neg hip, if_neg fun h => hip h.1]

/-- The addition of an amount for each occurrence of an element. -/
theorem sum_map_ite_eq (xs : List ι) (j : ι) (n : ℕ) :
    (xs.map fun i => if i = j then n else 0).sum = xs.count j * n := by
  induction xs with
  | nil => simp
  | cons x xs ih =>
      rw [List.map_cons, List.sum_cons, ih, List.count_cons]
      by_cases hx : x = j
      · simp [hx, Nat.add_mul, Nat.add_comm]
      · simp [hx]

/-- What all hooks together count of a transmission for a series are its bytes,
when the node of its source sees it once and no other node has its source. -/
theorem sum_seenAt [Fintype ι] {o : Options} (hlittle : o.endian = .little)
    {pods : ι → List Pod} {s : Server.State} {c : Server.Cluster} (hrep : Server.Represents s c)
    {tr : Transmission ι} (honce : ∀ i, tr.ComesFrom (pods i) → tr.seenAt.count i = 1)
    (hsingle : ∀ i j, tr.ComesFrom (pods i) → tr.ComesFrom (pods j) → i = j) (k : Server.PodKey) :
    (tr.seenAt.map fun i => bytesWhere
        (fun key => s.Attributes k key ∧ OnHost (pods i) (ByteOrder.ntohl key.srcIP))
        (hookFlow o tr.ctx).toList).sum
      = tr.bytesFor o c pods k := by
  have hattr : s.Attributes k (headerFlow tr.ctx.skb.data).key
      ↔ c.attribution (headerFlow tr.ctx.skb.data) = some k := by
    rw [← hrep.attribution_entry]
    exact Iff.rfl
  have hhost : ∀ i, OnHost (pods i) (ByteOrder.ntohl (headerFlow tr.ctx.skb.data).key.srcIP)
      ↔ tr.ComesFrom (pods i) := fun i => Server.onHost_key_iff (pods i) _
  unfold Transmission.bytesFor
  rw [hookFlow_eq hlittle]
  by_cases hcounted : tr.IsCounted o
  · simp only [hcounted, if_true, Option.toList_some, bytesWhere, List.map_cons, List.map_nil,
      List.sum_cons, List.sum_nil, Nat.add_zero, hattr, hhost, true_and]
    by_cases hk : c.attribution (headerFlow tr.ctx.skb.data) = some k
    · by_cases hfrom : ∃ i, tr.ComesFrom (pods i)
      · obtain ⟨j, hj⟩ := hfrom
        -- the node of the source is the only one that counts the packet
        have hnode : ∀ i, (if c.attribution (headerFlow tr.ctx.skb.data) = some k
              ∧ tr.ComesFrom (pods i) then (totalLength tr.ctx.skb.data).toNat else 0)
            = if i = j then (totalLength tr.ctx.skb.data).toNat else 0 := by
          intro i
          apply if_congr _ rfl rfl
          exact ⟨fun h => hsingle i j h.2 hj, fun h => ⟨hk, h ▸ hj⟩⟩
        rw [List.map_congr_left fun i _ => hnode i, sum_map_ite_eq, honce j hj, Nat.one_mul,
          if_pos ⟨⟨j, hj⟩, hk⟩]
      · rw [if_neg fun h => hfrom h.1, List.sum_eq_zero]
        intro n hn
        obtain ⟨i, -, rfl⟩ := List.mem_map.1 hn
        exact if_neg fun h => hfrom ⟨i, h.2⟩
    · rw [if_neg fun h => hk h.2, List.sum_eq_zero]
      intro n hn
      obtain ⟨i, -, rfl⟩ := List.mem_map.1 hn
      exact if_neg fun h => hk h.1
  · simp only [hcounted, if_false, Option.toList_none, false_and]
    rw [List.sum_eq_zero]
    intro n hn
    obtain ⟨i, -, rfl⟩ := List.mem_map.1 hn
    rfl

/-- The hooks of a run see each transmission at its nodes, and nothing else. -/
def Sees (es : List (Event ι)) (trs : List (Transmission ι)) : Prop :=
  (es.filterMap sighting).Perm (trs.flatMap fun tr => tr.seenAt.map fun i => (i, tr.ctx))

omit [DecidableEq ι] in
/-- What the hooks count, transmission by transmission. -/
theorem sum_hookBytes {o : Options} (p : ι → IPKey → Prop) [∀ i, DecidablePred (p i)]
    {es : List (Event ι)} {trs : List (Transmission ι)} (h : Sees es trs) :
    (es.map (hookBytes o p)).sum
      = (trs.map fun tr =>
          (tr.seenAt.map fun i => bytesWhere (p i) (hookFlow o tr.ctx).toList).sum).sum := by
  have hsightings : (es.map (hookBytes o p)).sum
      = ((es.filterMap sighting).map
          fun at' => bytesWhere (p at'.1) (hookFlow o at'.2).toList).sum := by
    clear h
    induction es with
    | nil => rfl
    | cons e es ih =>
        rw [List.map_cons, List.sum_cons, ih, List.filterMap_cons]
        cases e with
        | hook i ctx => rfl
        | tick i t => exact Nat.zero_add _
        | deliver n => exact Nat.zero_add _
        | informer e => exact Nat.zero_add _
  rw [hsightings, (h.map _).sum_eq]
  clear h hsightings
  induction trs with
  | nil => rfl
  | cons tr trs ih =>
      rw [List.flatMap_cons, List.map_append, List.sum_append, ih, List.map_cons, List.sum_cons,
        List.map_map]
      rfl

/-- Main result: on little-endian hosts that send their data, when no address
belongs to pods of two nodes, a run of the system in which no informer speaks and
nothing is lost, and which sees each of some transmissions once at the node of its
source and as often as it may be anywhere else, leaves in every counter, once all
requests are handled and all maps are empty, what it held before and the bytes of
the transmissions that are counted, come from a pod and are attributed to it by
the cluster, modulo `2 ^ 64`. -/
theorem exactly_once [Fintype ι] (o : Options) (hlittle : o.endian = .little)
    (hsend : o.sendData = true) (pods : ι → List Pod) (es₀ : List Server.Event)
    (trs : List (Transmission ι)) (es : List (Event ι)) (h : Undisturbed o pods es)
    (hsees : Sees es trs)
    (honce : ∀ tr ∈ trs, ∀ i, tr.ComesFrom (pods i) → tr.seenAt.count i = 1)
    (hsingle : ∀ i j, ∀ v4 ∈ (pods i).flatMap Pod.addrs, v4 ∈ (pods j).flatMap Pod.addrs → i = j) :
    ∃ s net, Server.run es₀ = some s ∧ run o (Net.start s) es = some net
      ∧ (net.inFlight = [] → (∀ i, (net.agents i).ipMap = ∅) → ∀ k,
        (net.server.statistics.lookup k).getD 0
          = UInt64.ofNat (((s.statistics.lookup k).getD 0).toNat
            + (trs.map fun tr => tr.bytesFor o (Server.Cluster.after es₀) pods k).sum)) := by
  obtain ⟨s, hs, hrep⟩ := Server.run_represents es₀
  obtain ⟨net, hrun, hkeeps⟩ := exists_run_ledgers o s es
  refine ⟨s, net, hs, hrun, fun hflight hempty k => ?_⟩
  have hflight' : (Ledgers.after o s es).inFlight = [] := by
    rw [hkeeps.inFlight] at hflight
    exact List.map_eq_nil_iff.1 hflight
  have hempty' : ∀ i, ((Ledgers.after o s es).books i).ipMap = ∅ := fun i => by
    rw [← (hkeeps.agents i).ipMap]
    exact hempty i
  rw [hkeeps.server, counter_after hsend h s hflight' hempty' k, sum_hookBytes _ hsees]
  congr 3
  refine List.map_congr_left fun tr htr => ?_
  exact sum_seenAt hlittle hrep (honce tr htr) (fun i j hi hj => hsingle i j _ hi hj) k

/-- A packet of 1500 bytes from `10.0.0.1` to `10.0.1.1`, seen by the hooks of both
nodes. -/
def crossing : Transmission Bool where
  ctx :=
    { protocol := (0x08, 0x00)
      skb :=
        { data := [0x45, 0, 0x05, 0xDC, 0, 0, 0, 0, 64, 1, 0, 0, 10, 0, 0, 1, 10, 0, 1, 1]
          hasDynptr := true } }
  seenAt := [true, false]

/-- Both agents count the packet, and the server counts it once. -/
theorem exactly_once_crossing :
    let zone : String → GoMap String String := fun z =>
      (∅ : GoMap String String).insert "topology.kubernetes.io/zone" z
    let a : Pod := ⟨"default", "a", "n1", "192.168.0.1", ["10.0.0.1"]⟩
    let b : Pod := ⟨"default", "b", "n2", "192.168.0.2", ["10.0.1.1"]⟩
    let es₀ : List Server.Event := [.nodeAdd (.node ⟨"n1", zone "x"⟩),
      .nodeAdd (.node ⟨"n2", zone "y"⟩), .podAdd (.pod a), .podAdd (.pod b)]
    let pods : Bool → List Pod := fun i => if i then [a] else [b]
    let o : Options := ⟨.little, ⟨0x0000000A, 0x000000FF⟩, true⟩
    let tick : Bool → Tick := fun i =>
      ⟨⟨[⟨0x0100000A, 0x0101000A, 0, 0⟩], some .errKeyNotExist⟩, pods i, .answered 200 ""⟩
    let es : List (Event Bool) := [.hook true crossing.ctx, .hook false crossing.ctx,
      .tick false (tick false), .tick true (tick true), .deliver 0]
    ∃ s net, Server.run es₀ = some s ∧ run o (Net.start s) es = some net
      ∧ (net.server.statistics.lookup (Server.podKey a)).getD 0 = 1500 := by
  intro zone a b es₀ pods o tick es
  have hat : ∀ i, eventsAt i es = [.packet crossing.ctx.skb, .tick (tick i)] := by
    intro i
    cases i <;> rfl
  have hundisturbed : Undisturbed o pods es := by
    refine ⟨fun e he => ?_, fun i => ⟨fun t ht => ?_, fun pre e hpre => ?_⟩⟩
    · simp [es] at he
    · rw [hat i] at ht
      have htick : t = tick i := by simpa using ht
      rw [htick]
      exact ⟨rfl, Or.inr rfl, rfl⟩
    · refine hasRoom_of_card_le ?_ hpre
      rw [hat i]
      cases i <;> decide
  obtain ⟨s, net, hs, hrun, hcount⟩ := exactly_once o rfl rfl pods es₀ [crossing] es hundisturbed
    (List.Perm.refl _) (by decide) (by decide)
  obtain rfl : Runs.run Server.State.next Server.State.empty es₀ = s :=
    Option.some.inj ((Server.run_eq es₀).symm.trans hs)
  obtain ⟨net', hrun', hkeeps⟩ := exists_run_ledgers o
    (Runs.run Server.State.next Server.State.empty es₀) es
  obtain rfl : net = net' := Option.some.inj (hrun.symm.trans hrun')
  refine ⟨_, net, hs, hrun, ?_⟩
  have hflight : net.inFlight = [] := by
    rw [hkeeps.inFlight]
    decide
  have hempty : ∀ i, (net.agents i).ipMap = ∅ := by
    intro i
    rw [(hkeeps.agents i).ipMap, books_run, hat i]
    cases i <;> decide
  rw [hcount hflight hempty]
  decide

end Deployment
