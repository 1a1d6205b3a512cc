/-
# The byte order of the host

`Htonl` and `Ntohl` swap the bytes of a word on every host.  On a little-endian
host a load and a swap cancel.  On a big-endian host the load leaves an address as
it is, and the agent works with the address read backwards: in the test of the
program, in its filter and in the entries that the server decodes.

`SameOutput` says that nothing of this is to be seen in what the agents of two
such hosts make of the same packets, and `ReadsAlike` when it is so.
-/
import Kubezonnet.AgentReporting
import Kubezonnet.HostFlows
import Kubezonnet.Subnet

open ByteOrder Ebpf GoSlice Kube Payload WordBytes

namespace Agent

/-! ## The output of an agent -/

/-- The entries of some packets that the filter keeps at a tick. -/
def keptAt (e : Endian) (config : Config) (skbs : List SkBuff) (t : Tick) :
    Option (List (IPKey × IPValue)) := do
  let taken := (takeEntries t.batch.order maxEntries (handleAll e config ∅ skbs)).1
  let (keys, values) ←
    filterSrcIpOnCurrentHost (taken.map Prod.fst) (taken.map Prod.snd) t.pods
  some (keys.zip values)

/-- The entries that the server decodes from a body. -/
def entriesOf (body : Slice UInt8) : List Entry :=
  match decode body with
  | some (.ok data) => data
  | _ => []

/-- The entries that the server decodes after an agent has seen some packets and
then a tick. -/
def decodedAt (e : Endian) (config : Config) (skbs : List SkBuff) (t : Tick) :
    Option (List Entry) := do
  let s ← run { endian := e, config := config, sendData := true }
    (skbs.map Event.packet ++ [Event.tick t])
  some (s.delivered.flatMap entriesOf)

/-- A tick with the given pods that reads the whole map and reaches the server. -/
structure Tick.Flushes (t : Tick) (pods : List Pod) (ipMap : IpMap) : Prop where
  pods : t.pods = pods
  covers : ∀ key ∈ ipMap, key ∈ t.batch.order
  reads : t.Reads
  delivered : t.exchange.delivered = true

/-- A little-endian and a big-endian host count the same packets, keep the same
entries and send what decodes to the same entries.  Entries of the two maps are
the same if the addresses have the same bytes in memory and all else is equal; in
which order the maps are read does not matter. -/
structure SameOutput (config : Config) (skbs : List SkBuff) (pods : List Pod) : Prop where
  counted : ∀ skb ∈ skbs,
    flowOf .big config skb = (flowOf .little config skb).map swapPair
  kept : ∀ t t' : Tick, t.Flushes pods (handleAll .little config ∅ skbs) →
    t'.Flushes pods (handleAll .big config ∅ skbs) →
      ∃ kvs kvs', keptAt .little config skbs t = some kvs
        ∧ keptAt .big config skbs t' = some kvs' ∧ kvs'.Perm (kvs.map swapPair)
  decoded : ∀ t t' : Tick, t.Flushes pods (handleAll .little config ∅ skbs) →
    t'.Flushes pods (handleAll .big config ∅ skbs) →
      ∃ data data', decodedAt .little config skbs t = some data
        ∧ decodedAt .big config skbs t' = some data' ∧ data'.Perm data

/-- All packets count alike.  A source is an address of the host exactly if it is
one when read backwards, and of a flow from such a source the flow with both of
its addresses read backwards has an entry too, with as many bytes. -/
structure ReadsAlike (config : Config) (skbs : List SkBuff) (pods : List Pod) : Prop where
  counts : ∀ skb ∈ skbs, CountsAlike config skb
  onHost : ∀ key ∈ networkKeys config skbs,
    OnHost pods (htonl key.srcIP) ↔ OnHost pods key.srcIP
  backwards : ∀ key ∈ networkKeys config skbs, OnHost pods key.srcIP →
    swapKey key ∈ networkKeys config skbs
      ∧ bytesOf (swapKey key) (networkFlows config skbs) % 2 ^ 64
        = bytesOf key (networkFlows config skbs) % 2 ^ 64

/-! ## What a tick makes of the map -/

/-- A batch call that looks at every key takes all entries there is room for. -/
theorem mem_takeEntries_iff {order : List IPKey} {room : ℕ} {ipMap : IpMap}
    (hcovers : ∀ key ∈ ipMap, key ∈ order) (hroom : ipMap.keys.card ≤ room)
    (kv : IPKey × IPValue) :
    kv ∈ (takeEntries order room ipMap).1 ↔ ipMap.lookup kv.1 = some kv.2 := by
  induction order generalizing room ipMap with
  | nil =>
      have hnone : ipMap.lookup kv.1 = none :=
        Finmap.lookup_eq_none.2 fun hmem => List.not_mem_nil (hcovers kv.1 hmem)
      rw [takeEntries, hnone]
      exact iff_of_false List.not_mem_nil (by simp)
  | cons key order ih =>
      cases room with
      | zero =>
          have hempty : ipMap.keys = ∅ := Finset.card_eq_zero.1 (Nat.le_zero.1 hroom)
          have hnone : ipMap.lookup kv.1 = none := by
            rw [Finmap.lookup_eq_none, ← Finmap.mem_keys, hempty]
            exact Finset.notMem_empty kv.1
          rw [takeEntries, hnone]
          exact iff_of_false List.not_mem_nil (by simp)
      | succ room =>
          rw [takeEntries]
          cases hkey : ipMap.lookup key with
          | none =>
              have hrest : ∀ k ∈ ipMap, k ∈ order := by
                intro k hk
                have hne : k ≠ key := by
                  rintro rfl
                  exact Finmap.lookup_eq_none.1 hkey hk
                exact List.mem_of_ne_of_mem hne (hcovers k hk)
              exact ih hrest hroom
          | some value =>
              have hmem : key ∈ ipMap.keys := Finmap.mem_keys.2 (Finmap.mem_of_lookup_eq_some hkey)
              have hrest : ∀ k ∈ ipMap.erase key, k ∈ order := by
                intro k hk
                obtain ⟨hne, hk⟩ := Finmap.mem_erase.1 hk
                exact List.mem_of_ne_of_mem hne (hcovers k hk)
              have hcard : (ipMap.erase key).keys.card ≤ room := by
                rw [Finmap.keys_erase, Finset.card_erase_of_mem hmem]
                omega
              show kv ∈ (key, value) :: (takeEntries order room (ipMap.erase key)).1 ↔ _
              rw [List.mem_cons, ih hrest hcard]
              by_cases hk : kv.1 = key
              · rw [hk, Finmap.lookup_erase, hkey, Option.some.injEq, Prod.ext_iff]
                simp [hk, eq_comm]
              · rw [Finmap.lookup_erase_ne hk]
                exact or_iff_right fun h => hk (congrArg Prod.fst h)

/-- A map that only `handle_v4` has written to fits a batch call. -/
theorem card_keys_handleAll_le (e : Endian) (config : Config) (skbs : List SkBuff) :
    (handleAll e config ∅ skbs).keys.card ≤ maxEntries := by
  rw [handleAll_eq_foldl, (Admission.counts_foldl _).card_keys]
  exact List.length_take_le _ _

/-- The entries of this host that a tick takes after some packets. -/
def localAt (e : Endian) (config : Config) (skbs : List SkBuff) (t : Tick) :
    List (IPKey × IPValue) :=
  localEntries t.pods (takeEntries t.batch.order maxEntries (handleAll e config ∅ skbs)).1

/-- What the filter keeps at a tick. -/
theorem keptAt_eq (e : Endian) (config : Config) (skbs : List SkBuff) (t : Tick) :
    keptAt e config skbs t = some (localAt e config skbs t) := by
  simp only [keptAt, filterSrcIpOnCurrentHost_eq, Option.bind_eq_bind, Option.bind_some]
  exact congrArg some (List.zip_of_prod rfl rfl).symm

theorem length_localAt_le (e : Endian) (config : Config) (skbs : List SkBuff) (t : Tick) :
    (localAt e config skbs t).length ≤ maxEntries :=
  List.filter_sublist.length_le.trans (takes_takeEntries _ _ _).1

/-- No entry is taken twice. -/
theorem nodup_localAt (e : Endian) (config : Config) (skbs : List SkBuff) (t : Tick) :
    (localAt e config skbs t).Nodup :=
  (List.Nodup.of_map _ (takes_takeEntries _ _ _).2.nodup).filter _

/-- The entries of this host are those of the map whose source is an address of it. -/
theorem mem_localAt_iff {e : Endian} {config : Config} {skbs : List SkBuff} {t : Tick}
    {pods : List Pod} (h : t.Flushes pods (handleAll e config ∅ skbs)) (kv : IPKey × IPValue) :
    kv ∈ localAt e config skbs t
      ↔ (handleAll e config ∅ skbs).lookup kv.1 = some kv.2 ∧ OnHost pods (ntohl kv.1.srcIP) := by
  rw [localAt, localEntries, List.mem_filter,
    mem_takeEntries_iff h.covers (card_keys_handleAll_le e config skbs), decide_eq_true_iff, h.pods]

/-- The server decodes a body to the entries that were encoded. -/
theorem entriesOf_wire {kvs : List (IPKey × IPValue)} (h : kvs.length ≤ maxEntries) :
    entriesOf (Slice.ofList (wire kvs)) = kvs.map toEntry := by
  have hlen : 4 + 20 * kvs.length < 2 ^ 32 := by
    unfold maxEntries at h
    omega
  rw [entriesOf, decode_wire kvs hlen]

/-- After some packets the agent is as it started, with the map they leave. -/
theorem foldlM_packets (o : Options) (skbs : List SkBuff) (s : State) :
    (skbs.map Event.packet).foldlM (step o) s
      = some { s with ipMap := handleAll o.endian o.config s.ipMap skbs } := by
  induction skbs generalizing s with
  | nil => rfl
  | cons skb skbs ih =>
      rw [List.map_cons, List.foldlM_cons]
      exact ih { s with ipMap := (handleV4 o.endian o.config skb s.ipMap).2 }

/-- A tick that reaches the server gives it what the filter keeps. -/
theorem decodedAt_eq {e : Endian} {config : Config} {skbs : List SkBuff} {t : Tick}
    {pods : List Pod} (h : t.Flushes pods (handleAll e config ∅ skbs)) :
    decodedAt e config skbs t = some ((localAt e config skbs t).map toEntry) := by
  have hrun : run ⟨e, config, true⟩ (skbs.map Event.packet)
      = some { State.start with ipMap := handleAll e config ∅ skbs } :=
    foldlM_packets ⟨e, config, true⟩ skbs State.start
  have hbuffered : State.Buffered { State.start with ipMap := handleAll e config ∅ skbs } :=
    ⟨cap_make _ _, cap_make _ _⟩
  obtain ⟨s', hs', -, -, hdelivered⟩ := exists_onTick hbuffered true t
  unfold decodedAt
  rw [run_concat hrun, step, hs', Option.bind_eq_bind, Option.bind_some, hdelivered]
  show some (([] ++ sentBodies true t _).flatMap entriesOf) = _
  rw [List.nil_append]
  by_cases hlocal : localAt e config skbs t = []
  · rw [sentBodies_of_localEntries_nil hlocal, hlocal]
    rfl
  · rw [sentBodies_of_reads h.reads hlocal, if_pos h.delivered, List.flatMap_singleton,
      ← entriesOf_wire (length_localAt_le e config skbs t)]
    rfl

/-- There is a tick that flushes any map. -/
theorem exists_flushes (pods : List Pod) (ipMap : IpMap) : ∃ t : Tick, t.Flushes pods ipMap :=
  ⟨{ batch := { order := ipMap.keys.toList, err := none }
     pods := pods
     exchange := .answered 200 "" },
    rfl, fun _ hkey => Finset.mem_toList.2 (Finmap.mem_keys.2 hkey), Or.inl rfl, rfl⟩

/-! ## When the output is the same -/

section

variable {config : Config} {skbs : List SkBuff} {pods : List Pod} {t t' : Tick}

/-- What the little-endian host keeps, with the addresses in network order. -/
theorem mem_localAt_little (h : t.Flushes pods (handleAll .little config ∅ skbs))
    (key : IPKey) (value : IPValue) :
    (swapKey key, value) ∈ localAt .little config skbs t
      ↔ networkEntry config skbs key = some value ∧ OnHost pods key.srcIP := by
  rw [mem_localAt_iff h, lookup_handleAll_little, swapKey_swapKey, ntohl_srcIP_swapKey]

/-- What the big-endian host keeps: it looks for the source read backwards. -/
theorem mem_localAt_big (h : t'.Flushes pods (handleAll .big config ∅ skbs))
    (hcounts : ∀ skb ∈ skbs, CountsAlike config skb) (key : IPKey) (value : IPValue) :
    (key, value) ∈ localAt .big config skbs t'
      ↔ networkEntry config skbs key = some value ∧ OnHost pods (htonl key.srcIP) := by
  rw [mem_localAt_iff h, lookup_handleAll_big hcounts]
  rfl

/-- The same entries are kept exactly if each source is on the host both ways. -/
theorem kept_perm_iff (h : t.Flushes pods (handleAll .little config ∅ skbs))
    (h' : t'.Flushes pods (handleAll .big config ∅ skbs))
    (hcounts : ∀ skb ∈ skbs, CountsAlike config skb) :
    (localAt .big config skbs t').Perm ((localAt .little config skbs t).map swapPair)
      ↔ ∀ key ∈ networkKeys config skbs,
        OnHost pods (htonl key.srcIP) ↔ OnHost pods key.srcIP := by
  have hnodup := (nodup_localAt .little config skbs t).map swapPair_injective
  rw [List.perm_ext_iff_of_nodup (nodup_localAt .big config skbs t') hnodup]
  have hmem : ∀ key value, ((key, value) ∈ localAt .big config skbs t'
      ↔ (key, value) ∈ (localAt .little config skbs t).map swapPair)
      ↔ (networkEntry config skbs key = some value →
        (OnHost pods (htonl key.srcIP) ↔ OnHost pods key.srcIP)) := by
    intro key value
    rw [mem_map_swapPair, mem_localAt_big h' hcounts, mem_localAt_little h]
    exact and_congr_right_iff
  constructor
  · intro hperm key hkey
    have hentry : networkEntry config skbs key = some _ := if_pos hkey
    exact (hmem key _).1 (hperm (key, _)) hentry
  · rintro honHost ⟨key, value⟩
    refine (hmem key value).2 fun hentry => honHost key ?_
    by_contra hkey
    rw [networkEntry, if_neg hkey] at hentry
    cases hentry

/-- The same entries are decoded exactly if a flow from a source on the host has as
much as the flow with its addresses read backwards. -/
theorem decoded_perm_iff (h : t.Flushes pods (handleAll .little config ∅ skbs))
    (h' : t'.Flushes pods (handleAll .big config ∅ skbs))
    (hcounts : ∀ skb ∈ skbs, CountsAlike config skb) :
    ((localAt .big config skbs t').map toEntry).Perm ((localAt .little config skbs t).map toEntry)
      ↔ ∀ key, OnHost pods key.srcIP →
        networkEntry config skbs (swapKey key) = networkEntry config skbs key := by
  have hinj : Function.Injective toEntry := Function.LeftInverse.injective ofEntry_toEntry
  rw [List.map_perm_map_iff hinj, List.perm_ext_iff_of_nodup (nodup_localAt .big config skbs t')
    (nodup_localAt .little config skbs t)]
  have hmem : ∀ key value, ((swapKey key, value) ∈ localAt .big config skbs t'
      ↔ (swapKey key, value) ∈ localAt .little config skbs t)
      ↔ (OnHost pods key.srcIP → (networkEntry config skbs (swapKey key) = some value
        ↔ networkEntry config skbs key = some value)) := by
    intro key value
    rw [mem_localAt_little h, mem_localAt_big h' hcounts, htonl_srcIP_swapKey]
    exact and_congr_left_iff
  constructor
  · intro hperm key hkey
    apply Option.ext
    intro value
    exact (hmem key value).1 (hperm _) hkey
  · rintro hentry ⟨key, value⟩
    rw [← swapKey_swapKey key]
    apply (hmem (swapKey key) value).2
    intro hkey
    rw [hentry _ hkey]

/-- A flow has an entry exactly if its key got one. -/
theorem networkEntry_eq_some_iff {key : IPKey} {value : IPValue} :
    networkEntry config skbs key = some value
      ↔ key ∈ networkKeys config skbs
        ∧ UInt64.ofNat (bytesOf key (networkFlows config skbs)) = value.packetSize := by
  rcases value with ⟨packetSize⟩
  unfold networkEntry
  by_cases hkey : key ∈ networkKeys config skbs
  · simp [hkey]
  · simp [hkey]

/-- Flows from the host have as much as those read backwards exactly if such flows
have an entry with as many bytes, when sources are on the host both ways. -/
theorem networkEntry_swapKey_iff
    (honHost : ∀ key ∈ networkKeys config skbs,
      OnHost pods (htonl key.srcIP) ↔ OnHost pods key.srcIP) :
    (∀ key, OnHost pods key.srcIP →
        networkEntry config skbs (swapKey key) = networkEntry config skbs key)
      ↔ ∀ key ∈ networkKeys config skbs, OnHost pods key.srcIP →
        swapKey key ∈ networkKeys config skbs
          ∧ bytesOf (swapKey key) (networkFlows config skbs) % 2 ^ 64
            = bytesOf key (networkFlows config skbs) % 2 ^ 64 := by
  have hofNat : ∀ m n : ℕ, UInt64.ofNat m = UInt64.ofNat n ↔ m % 2 ^ 64 = n % 2 ^ 64 := by
    intro m n
    rw [← UInt64.toNat_inj, UInt64.toNat_ofNat', UInt64.toNat_ofNat']
  constructor
  · intro hentry key hkey hsrc
    have hswap := (hentry key hsrc).trans (networkEntry_eq_some_iff.2 ⟨hkey, rfl⟩)
    obtain ⟨hmem, hbytes⟩ := networkEntry_eq_some_iff.1 hswap
    exact ⟨hmem, (hofNat _ _).1 hbytes⟩
  · intro hback key hsrc
    by_cases hkey : key ∈ networkKeys config skbs
    · obtain ⟨hmem, hbytes⟩ := hback key hkey hsrc
      rw [networkEntry, networkEntry, if_pos hkey, if_pos hmem, (hofNat _ _).2 hbytes]
    · -- if the flow read backwards had an entry, reading it backwards would give one to the flow
      have hswap : swapKey key ∉ networkKeys config skbs := by
        intro hmem
        have hsrc' : OnHost pods (swapKey key).srcIP := by
          apply (honHost (swapKey key) hmem).1
          rwa [htonl_srcIP_swapKey]
        have hagain := (hback (swapKey key) hmem hsrc').1
        rw [swapKey_swapKey] at hagain
        exact hkey hagain
      rw [networkEntry, networkEntry, if_neg hkey, if_neg hswap]

end

/-- Packets whose addresses read the same backwards, and that have no ports, read
alike. -/
theorem readsAlike_of_palindromes (config : Config) {skbs : List SkBuff} (pods : List Pod)
    (h : ∀ skb ∈ skbs, htonl (saddrOf skb.data) = saddrOf skb.data
      ∧ htonl (daddrOf skb.data) = daddrOf skb.data ∧ ¬ HasPorts skb.data) :
    ReadsAlike config skbs pods := by
  have hkeys : ∀ key ∈ networkKeys config skbs,
      htonl key.srcIP = key.srcIP ∧ htonl key.dstIP = key.dstIP := by
    intro key hkey
    have hflow : key ∈ (networkFlows config skbs).map Prod.fst :=
      List.mem_eraseDups.1 (List.mem_of_mem_take hkey)
    obtain ⟨flow, hmem, rfl⟩ := List.mem_map.1 hflow
    obtain ⟨skb, hskb, rfl⟩ := List.mem_map.1 hmem
    obtain ⟨hsrc, hdst, -⟩ := h skb (List.mem_of_mem_filter hskb)
    exact ⟨hsrc, hdst⟩
  constructor
  · intro skb hskb _
    obtain ⟨hsrc, hdst, hports⟩ := h skb hskb
    rw [hsrc, hdst]
    exact ⟨Iff.rfl, fun _ hhas => absurd hhas hports⟩
  · intro key hkey
    rw [(hkeys key hkey).1]
  · intro key hkey _
    have hswap : swapKey key = key := by
      obtain ⟨hsrc, hdst⟩ := hkeys key hkey
      rw [swapKey, hsrc, hdst]
    rw [hswap]
    exact ⟨hkey, rfl⟩

/-- Main result: the two hosts have the same output exactly for packets and pods
that read alike. -/
theorem sameOutput_iff (config : Config) (skbs : List SkBuff) (pods : List Pod) :
    SameOutput config skbs pods ↔ ReadsAlike config skbs pods := by
  constructor
  · intro h
    have hcounts : ∀ skb ∈ skbs, CountsAlike config skb := fun skb hskb =>
      (flowOf_big_eq_iff config skb).1 (h.counted skb hskb)
    obtain ⟨t, ht⟩ := exists_flushes pods (handleAll .little config ∅ skbs)
    obtain ⟨t', ht'⟩ := exists_flushes pods (handleAll .big config ∅ skbs)
    obtain ⟨kvs, kvs', hkvs, hkvs', hkept⟩ := h.kept t t' ht ht'
    obtain ⟨data, data', hdata, hdata', hdecoded⟩ := h.decoded t t' ht ht'
    obtain rfl := Option.some.inj ((keptAt_eq .little config skbs t).symm.trans hkvs)
    obtain rfl := Option.some.inj ((keptAt_eq .big config skbs t').symm.trans hkvs')
    obtain rfl := Option.some.inj ((decodedAt_eq ht).symm.trans hdata)
    obtain rfl := Option.some.inj ((decodedAt_eq ht').symm.trans hdata')
    have honHost := (kept_perm_iff ht ht' hcounts).1 hkept
    exact ⟨hcounts, honHost,
      (networkEntry_swapKey_iff honHost).1 ((decoded_perm_iff ht ht' hcounts).1 hdecoded)⟩
  · intro h
    constructor
    · intro skb hskb
      exact (flowOf_big_eq_iff config skb).2 (h.counts skb hskb)
    · intro t t' ht ht'
      exact ⟨_, _, keptAt_eq .little config skbs t, keptAt_eq .big config skbs t',
        (kept_perm_iff ht ht' h.counts).2 h.onHost⟩
    · intro t t' ht ht'
      exact ⟨_, _, decodedAt_eq ht, decodedAt_eq ht', (decoded_perm_iff ht ht' h.counts).2
        ((networkEntry_swapKey_iff h.onHost).2 h.backwards)⟩

/-- With `10.0.0.0/8` installed, both hosts count an ICMP packet from `10.1.1.10` to
`10.2.2.10`, and report it alike. -/
theorem sameOutput_iff_icmp :
    let config : Config := { subnetPrefix := 0x0000000A, subnetMask := 0x000000FF }
    let skb : SkBuff :=
      { data := [0x45, 0, 0, 20, 0, 1, 0, 0, 64, 1, 0, 0, 10, 1, 1, 10, 10, 2, 2, 10]
        hasDynptr := true }
    let pod : Pod := ⟨"default", "a", "n1", "192.168.0.1", ["10.1.1.10"]⟩
    subnetConfig "10.0.0.0/8" = some (.ok config)
      ∧ (flowOf .little config skb).isSome = true ∧ (flowOf .big config skb).isSome = true
      ∧ SameOutput config [skb] [pod] := by
  intro config skb pod
  refine ⟨by decide, by decide, by decide, (sameOutput_iff config [skb] [pod]).2 ?_⟩
  apply readsAlike_of_palindromes
  intro skb' hskb'
  rw [List.mem_singleton.1 hskb']
  decide

/-- With `10.0.0.0/24` installed, a packet from `10.0.0.5` to `10.0.0.7` is counted
on a little-endian host and not on a big-endian one. -/
theorem not_sameOutput_packetTen :
    subnetConfig "10.0.0.0/24" = some (.ok subnetTen24)
      ∧ (flowOf .little subnetTen24 packetTen).isSome = true
      ∧ flowOf .big subnetTen24 packetTen = none
      ∧ ¬ SameOutput subnetTen24 [packetTen] [] := by
  refine ⟨by decide, by decide, by decide, fun h => ?_⟩
  have hsame := h.counted packetTen (List.mem_singleton_self _)
  have hnone : flowOf .big subnetTen24 packetTen = none := by decide
  have hsome : (flowOf .little subnetTen24 packetTen).isSome = true := by decide
  rw [hnone] at hsame
  rw [Option.map_eq_none_iff.1 hsame.symm] at hsome
  cases hsome

end Agent
