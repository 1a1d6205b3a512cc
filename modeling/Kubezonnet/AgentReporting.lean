/-
# At most once

Whatever the batch calls return and whatever becomes of the requests, the agent
reports no byte twice.  The reason is that a tick only sends what it took out of
the map itself (`ReportsTaken`): the buffers are cut to the number of entries
just read before anything else looks at them, so an older entry that is still in
a later slot is not seen, and the filter keeps every value with its key.  So the
bytes reported and the bytes still in the map never exceed those of the packets
(`reported_at_most_once`).
-/
import Kubezonnet.AgentLoop
import Kubezonnet.PayloadCodec
import Kubezonnet.Runs

open ByteOrder Ebpf GoSlice Kube Payload

namespace Agent

/-! ## Taking entries out of the map -/

/-- A pair as the flow that it stands for. -/
def flowOfPair (kv : IPKey × IPValue) : IPKey × UInt64 := (kv.1, kv.2.packetSize)

/-- `taken` are distinct entries of the map, and `rest` is the map without them. -/
structure Takes (ipMap : IpMap) (taken : List (IPKey × IPValue)) (rest : IpMap) : Prop where
  found : ∀ kv ∈ taken, ipMap.lookup kv.1 = some kv.2
  gone : ∀ kv ∈ taken, kv.1 ∉ rest
  nodup : (taken.map Prod.fst).Nodup
  subset : ∀ key, key ∉ ipMap → key ∉ rest
  bytes : ∀ key, bytesOf key (taken.map flowOfPair) + counted rest key = counted ipMap key

/-- Taking nothing. -/
theorem Takes.nil (ipMap : IpMap) : Takes ipMap [] ipMap where
  found _ h := absurd h List.not_mem_nil
  gone _ h := absurd h List.not_mem_nil
  nodup := List.nodup_nil
  subset _ h := h
  bytes _ := Nat.zero_add _

/-- Taking one entry, and then more from what is left. -/
theorem Takes.cons {ipMap rest : IpMap} {taken : List (IPKey × IPValue)} {key : IPKey}
    {value : IPValue} (hkey : ipMap.lookup key = some value)
    (h : Takes (ipMap.erase key) taken rest) : Takes ipMap ((key, value) :: taken) rest := by
  have hne : ∀ kv ∈ taken, kv.1 ≠ key := by
    intro kv hkv heq
    have hfound := h.found kv hkv
    rw [heq, Finmap.lookup_erase] at hfound
    cases hfound
  constructor
  · intro kv hkv
    rcases List.mem_cons.1 hkv with rfl | hkv
    · exact hkey
    · have hfound := h.found kv hkv
      rwa [Finmap.lookup_erase_ne (hne kv hkv)] at hfound
  · intro kv hkv
    rcases List.mem_cons.1 hkv with rfl | hkv
    · exact h.subset key Finmap.notMem_erase_self
    · exact h.gone kv hkv
  · rw [List.map_cons, List.nodup_cons]
    refine ⟨fun hmem => ?_, h.nodup⟩
    obtain ⟨kv, hkv, heq⟩ := List.mem_map.1 hmem
    exact hne kv hkv heq
  · intro k hk
    refine h.subset k fun hmem => hk ?_
    exact (Finmap.mem_erase.1 hmem).2
  · intro k
    have hbytes := h.bytes k
    rw [counted_erase] at hbytes
    rw [List.map_cons, bytesOf_cons, Nat.add_assoc, hbytes]
    by_cases hk : k = key
    · have hself : (flowOfPair (key, value)).1 = k := hk.symm
      rw [if_pos hk, if_pos hself, hk, counted_of_lookup hkey]
      rfl
    · have hother : ¬ (flowOfPair (key, value)).1 = k := Ne.symm hk
      rw [if_neg hk, if_neg hother, Nat.zero_add]

/-- A batch call takes distinct entries, as many as there is room for. -/
theorem takes_takeEntries (order : List IPKey) (room : ℕ) (ipMap : IpMap) :
    (takeEntries order room ipMap).1.length ≤ room
      ∧ Takes ipMap (takeEntries order room ipMap).1 (takeEntries order room ipMap).2 := by
  induction order generalizing room ipMap with
  | nil => exact ⟨Nat.zero_le room, Takes.nil ipMap⟩
  | cons key order ih =>
      cases room with
      | zero => exact ⟨Nat.le_refl 0, Takes.nil ipMap⟩
      | succ room =>
          rw [takeEntries]
          cases hkey : ipMap.lookup key with
          | none =>
              -- an entry that is gone takes no room
              exact ih (room + 1) ipMap
          | some value =>
              obtain ⟨hlen, htakes⟩ := ih room (ipMap.erase key)
              exact ⟨Nat.succ_le_succ hlen, Takes.cons hkey htakes⟩

/-! ## A tick -/

/-- The pairs of a body that reached the server, as the server decodes them. -/
def reportOf (body : Slice UInt8) : List (IPKey × IPValue) :=
  match decode body with
  | some (.ok data) => data.map ofEntry
  | _ => []

/-- The pairs of all bodies that have reached the server. -/
def State.reported (s : State) : List (IPKey × IPValue) := s.delivered.flatMap reportOf

/-- The buffers keep the arrays they were made with. -/
structure State.Buffered (s : State) : Prop where
  keys : s.keys.cap = maxEntries
  values : s.values.cap = maxEntries

/-- Between the states `s` and `s'` around a tick, distinct entries are taken out
of the map and no other ones reach the server, each at most once and with its
own value. -/
def ReportsTaken (s s' : State) : Prop :=
  ∃ taken sent, Takes s.ipMap taken s'.ipMap ∧ s'.reported = s.reported ++ sent
    ∧ sent.Sublist taken

/-- The server decodes from a body the pairs that were encoded. -/
theorem reportOf_wire {kvs : List (IPKey × IPValue)} (h : kvs.length ≤ maxEntries) :
    reportOf (Slice.ofList (wire kvs)) = kvs := by
  have hlen : 4 + 20 * kvs.length < 2 ^ 32 := by
    unfold maxEntries at h
    omega
  unfold reportOf
  rw [decode_wire kvs hlen]
  show (kvs.map toEntry).map ofEntry = kvs
  rw [List.map_map, show ofEntry ∘ toEntry = id from funext ofEntry_toEntry, List.map_id]

/-- The entries whose source is one of the pods of this host. -/
def localEntries (pods : List Pod) (taken : List (IPKey × IPValue)) : List (IPKey × IPValue) :=
  taken.filter fun kv => OnHost pods (ntohl kv.1.srcIP)

/-- The batch call ended without an error, or at the end of the map. -/
def Tick.Reads (t : Tick) : Prop := t.batch.err = none ∨ t.batch.err = some .errKeyNotExist

instance (t : Tick) : Decidable t.Reads := inferInstanceAs (Decidable (_ ∨ _))

/-- The bodies that reach the server at a tick that takes the given entries. -/
def sentBodies (sendData : Bool) (t : Tick) (taken : List (IPKey × IPValue)) :
    List (Slice UInt8) :=
  if t.Reads ∧ sendData = true ∧ localEntries t.pods taken ≠ [] ∧ t.exchange.delivered = true then
    [Slice.ofList (wire (localEntries t.pods taken))]
  else []

theorem sentBodies_of_not_reads {sendData : Bool} {t : Tick} {taken : List (IPKey × IPValue)}
    (h : ¬ t.Reads) : sentBodies sendData t taken = [] :=
  if_neg fun hsent => h hsent.1

theorem sentBodies_of_localEntries_nil {sendData : Bool} {t : Tick}
    {taken : List (IPKey × IPValue)} (h : localEntries t.pods taken = []) :
    sentBodies sendData t taken = [] :=
  if_neg fun hsent => hsent.2.2.1 h

/-- After a read, with sending enabled, the entries of this host are sent if the
exchange gets to the server at all. -/
theorem sentBodies_of_reads {t : Tick} {taken : List (IPKey × IPValue)} (hread : t.Reads)
    (hlocal : localEntries t.pods taken ≠ []) :
    sentBodies true t taken
      = if t.exchange.delivered then [Slice.ofList (wire (localEntries t.pods taken))] else [] := by
  apply if_congr _ rfl rfl
  simp only [hread, hlocal, true_and, ne_eq, not_false_eq_true]

/-- Sending pairs does not panic, and their encoding is all that reaches the server. -/
theorem sendDataToServer_pairs (kvs : List (IPKey × IPValue)) (exchange : Exchange) :
    sendDataToServer (kvs.map Prod.fst) (kvs.map Prod.snd) exchange
      = some (if exchange.delivered then [Slice.ofList (wire kvs)] else [], exchange.error) := by
  unfold sendDataToServer
  rw [encode_pairs]
  rfl

/-- The server reads no other pairs from what is sent than those taken. -/
theorem reportOf_sentBodies_sublist (sendData : Bool) (t : Tick)
    {taken : List (IPKey × IPValue)} (h : taken.length ≤ maxEntries) :
    ((sentBodies sendData t taken).flatMap reportOf).Sublist taken := by
  have hkept : (localEntries t.pods taken).Sublist taken := List.filter_sublist
  unfold sentBodies
  split_ifs
  · rw [List.flatMap_singleton, reportOf_wire (hkept.length_le.trans h)]
    exact hkept
  · exact List.nil_sublist taken

/-- With the entries just taken in the first slots of the buffers, the rest of
the loop body does not panic and sends those of this host, and nothing else. -/
theorem exists_afterBatch {s : State} {taken : List (IPKey × IPValue)} {rest : IpMap}
    {keys : Slice IPKey} {values : Slice IPValue} (hfit : taken.length ≤ maxEntries)
    (hkeys : keys.cap = maxEntries) (hvalues : values.cap = maxEntries) (sendData : Bool)
    (t : Tick) :
    ∃ s', afterBatch sendData t taken.length
        { s with
          ipMap := rest
          keys := keys.fill (taken.map Prod.fst)
          values := values.fill (taken.map Prod.snd) } = some s'
      ∧ s'.Buffered ∧ s'.ipMap = rest
      ∧ s'.delivered = s.delivered ++ sentBodies sendData t taken := by
  have hkeysFit : (taken.map Prod.fst).length ≤ keys.cap := by rwa [List.length_map, hkeys]
  have hvaluesFit : (taken.map Prod.snd).length ≤ values.cap := by rwa [List.length_map, hvalues]
  unfold afterBatch
  split_ifs with hn herr
  -- without entries, or after an error other than the end of the map, nothing is sent
  · have hnone : taken = [] := List.length_eq_zero_iff.1 hn
    have hlocal : localEntries t.pods taken = [] := by rw [hnone]; rfl
    rw [sentBodies_of_localEntries_nil hlocal, List.append_nil]
    exact ⟨_, rfl, ⟨(cap_fill hkeysFit).trans hkeys, (cap_fill hvaluesFit).trans hvalues⟩, rfl, rfl⟩
  · have hread : ¬ t.Reads := not_or.2 herr
    rw [sentBodies_of_not_reads hread, List.append_nil]
    exact ⟨_, rfl, ⟨(cap_fill hkeysFit).trans hkeys, (cap_fill hvaluesFit).trans hvalues⟩, rfl, rfl⟩
  · -- the buffers are cut to the entries just read, so nothing older is seen
    obtain ⟨ks, hks, hksCap, hksElems⟩ := exists_sub_fill hkeysFit
    obtain ⟨vs, hvs, hvsCap, hvsElems⟩ := exists_sub_fill hvaluesFit
    have hread : t.Reads := not_not.1 fun hread => herr (not_or.1 hread)
    rw [List.length_map] at hks hvs
    simp only [hks, hvs, convertToPods_map, hksElems, hvsElems, filterSrcIpOnCurrentHost_eq,
      sendDataToServer_pairs, Option.bind_eq_bind, Option.bind_some, List.length_map]
    show ∃ s', (if sendData = true ∧ 0 < (localEntries t.pods taken).length then _ else _) = some s'
      ∧ _
    by_cases hsend : sendData = true ∧ 0 < (localEntries t.pods taken).length
    · obtain ⟨rfl, hpos⟩ := hsend
      rw [if_pos ⟨rfl, hpos⟩, sentBodies_of_reads hread (List.length_pos_iff.1 hpos)]
      exact ⟨_, rfl, ⟨hksCap.trans hkeys, hvsCap.trans hvalues⟩, rfl, rfl⟩
    · have hsent : sentBodies sendData t taken = [] := by
        apply if_neg
        rintro ⟨-, hon, hlocal, -⟩
        exact hsend ⟨hon, List.length_pos_iff.2 hlocal⟩
      rw [if_neg hsend, hsent, List.append_nil]
      exact ⟨_, rfl, ⟨hksCap.trans hkeys, hvsCap.trans hvalues⟩, rfl, rfl⟩

/-- A tick does not panic and keeps the buffers.  What it takes out of the map
and what it sends depends on the map alone, whatever the buffers hold. -/
theorem exists_onTick {s : State} (hs : s.Buffered) (sendData : Bool) (t : Tick) :
    ∃ s', onTick sendData t s = some s' ∧ s'.Buffered
      ∧ s'.ipMap = (takeEntries t.batch.order maxEntries s.ipMap).2
      ∧ s'.delivered = s.delivered
        ++ sentBodies sendData t (takeEntries t.batch.order maxEntries s.ipMap).1 := by
  obtain ⟨keys, hkeys, hkeysArr, hkeysLen⟩ := exists_sub_zero hs.keys.ge
  obtain ⟨values, hvalues, hvaluesArr, -⟩ := exists_sub_zero hs.values.ge
  obtain ⟨hfit, -⟩ := takes_takeEntries t.batch.order maxEntries s.ipMap
  have hkeysCap : keys.cap = maxEntries := by rw [Slice.cap, hkeysArr, ← Slice.cap, hs.keys]
  have hvaluesCap : values.cap = maxEntries := by
    rw [Slice.cap, hvaluesArr, ← Slice.cap, hs.values]
  simp only [onTick, batchLookupAndDelete, hkeys, hvalues, hkeysLen, Option.bind_eq_bind,
    Option.bind_some]
  exact exists_afterBatch hfit hkeysCap hvaluesCap sendData t

/-- A tick reports nothing but what it takes out of the map. -/
theorem reportsTaken_of_onTick {s s' : State} (hs : s.Buffered) {sendData : Bool} {t : Tick}
    (h : onTick sendData t s = some s') : ReportsTaken s s' := by
  obtain ⟨s'', hs'', -, hrest, hdelivered⟩ := exists_onTick hs sendData t
  obtain rfl : s'' = s' := Option.some.inj (hs''.symm.trans h)
  obtain ⟨hfit, htakes⟩ := takes_takeEntries t.batch.order maxEntries s.ipMap
  rw [← hrest] at htakes
  refine ⟨_, _, htakes, ?_, reportOf_sentBodies_sublist sendData t hfit⟩
  rw [State.reported, hdelivered, List.flatMap_append]
  rfl

/-! ## Whole runs -/

/-- The flow of an event: that of a packet that is counted. -/
def flowOfEvent (o : Options) : Event → Option (IPKey × UInt64)
  | .packet skb => flowOf o.endian o.config skb
  | .tick _ => none

/-- The bytes of a key that were reported or are still in the map. -/
def State.bytesKnown (key : IPKey) (s : State) : ℕ :=
  bytesOf key (s.reported.map flowOfPair) + counted s.ipMap key

/-- A tick makes no bytes known that were not. -/
theorem ReportsTaken.bytesKnown_le {s s' : State} (h : ReportsTaken s s') (key : IPKey) :
    s'.bytesKnown key ≤ s.bytesKnown key := by
  obtain ⟨taken, sent, htakes, hreported, hsub⟩ := h
  have hsent : bytesOf key (sent.map flowOfPair) ≤ bytesOf key (taken.map flowOfPair) :=
    bytesOf_le_of_sublist key (hsub.map flowOfPair)
  have htaken := htakes.bytes key
  unfold State.bytesKnown
  rw [hreported, List.map_append, bytesOf_append]
  omega

/-- A packet makes at most its own bytes known. -/
theorem bytesKnown_packet_le (o : Options) (s : State) (skb : SkBuff) (key : IPKey) :
    State.bytesKnown key { s with ipMap := (handleV4 o.endian o.config skb s.ipMap).2 }
      ≤ s.bytesKnown key + bytesOf key (flowOf o.endian o.config skb).toList := by
  unfold State.bytesKnown handleV4
  show bytesOf key (s.reported.map flowOfPair) + _ ≤ _
  cases flowOf o.endian o.config skb with
  | none => exact Nat.le_add_right _ _
  | some flow =>
      obtain ⟨k, packetSize⟩ := flow
      have hcount := counted_countFlow_le s.ipMap k key packetSize
      simp only [Option.toList_some]
      omega

/-- An event does not panic, and makes at most its own bytes known. -/
theorem exists_step (o : Options) {s : State} (hs : s.Buffered) (e : Event) :
    ∃ s', step o s e = some s' ∧ s'.Buffered
      ∧ (∀ key, s'.bytesKnown key ≤ s.bytesKnown key + bytesOf key (flowOfEvent o e).toList)
      ∧ ∀ t, e = .tick t → ReportsTaken s s' := by
  cases e with
  | packet skb =>
      refine ⟨_, rfl, ⟨hs.keys, hs.values⟩, fun key => ?_, fun t ht => ?_⟩
      · exact bytesKnown_packet_le o s skb key
      · cases ht
  | tick t =>
      obtain ⟨s', hs', hbuffered, -, -⟩ := exists_onTick hs o.sendData t
      have hreports := reportsTaken_of_onTick hs hs'
      exact ⟨s', hs', hbuffered, hreports.bytesKnown_le, fun _ _ => hreports⟩

/-- The run up to an event and one event more. -/
theorem run_concat {o : Options} {es : List Event} {s : State} (hs : run o es = some s)
    (e : Event) : run o (es ++ [e]) = step o s e := by
  unfold run at hs ⊢
  rw [List.foldlM_append, hs]
  simp

/-- The state after a run, and the bytes known in it. -/
theorem exists_run (o : Options) (es : List Event) :
    ∃ s, run o es = some s ∧ s.Buffered
      ∧ ∀ key, s.bytesKnown key ≤ bytesOf key (es.filterMap (flowOfEvent o)) := by
  induction es using List.reverseRecOn with
  | nil => exact ⟨State.start, rfl, ⟨cap_make _ _, cap_make _ _⟩, fun key => Nat.le_refl 0⟩
  | append_singleton es e ih =>
      obtain ⟨s, hs, hbuffered, hbytes⟩ := ih
      obtain ⟨s', hs', hbuffered', hbytes', -⟩ := exists_step o hbuffered e
      have hlast : [e].filterMap (flowOfEvent o) = (flowOfEvent o e).toList := by
        cases hflow : flowOfEvent o e <;> simp [hflow]
      refine ⟨s', (run_concat hs e).trans hs', hbuffered', fun key => ?_⟩
      rw [List.filterMap_append, bytesOf_append, hlast]
      exact (hbytes' key).trans (Nat.add_le_add_right (hbytes key) _)

/-- Main result: in every run, for every key, the bytes of all requests that
reached the server and the bytes still in the map are at most those of the
packets with that key.  And at every tick, what reaches the server are distinct
entries taken out of the map at this very tick, with their own values. -/
theorem reported_at_most_once (o : Options) (es : List Event) :
    ∃ s, run o es = some s
      ∧ (∀ key, bytesOf key (s.reported.map flowOfPair) + counted s.ipMap key
          ≤ bytesOf key (es.filterMap (flowOfEvent o)))
      ∧ ∀ pre t, pre ++ [.tick t] <+: es →
        ∃ s s', run o pre = some s ∧ run o (pre ++ [.tick t]) = some s' ∧ ReportsTaken s s' := by
  obtain ⟨s, hs, -, hbytes⟩ := exists_run o es
  refine ⟨s, hs, hbytes, fun pre t _ => ?_⟩
  obtain ⟨s, hs, hbuffered, -⟩ := exists_run o pre
  obtain ⟨s', hs', -, -, hreports⟩ := exists_step o hbuffered (.tick t)
  exact ⟨s, s', hs, (run_concat hs _).trans hs', hreports t rfl⟩

end Agent
