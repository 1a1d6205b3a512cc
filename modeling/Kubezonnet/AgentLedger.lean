/-
# Where the bytes of a node go

`Books` is the agent without its buffers: the map, and the pairs of every request
that has reached the server.  The loop of `agent.go` keeps the books
(`exists_run_books`): what its buffers hold from earlier ticks plays no part.

On the books every byte has its place.  Of the bytes of the packets of a flow,
those that are neither reported nor in the map were refused by a full map, lost
when a counter wrapped around, taken out for a source that is not on this host,
or taken out and not brought to the server (`bytes_accounted`).
-/
import Kubezonnet.FlushLoss

open Ebpf GoSlice Kube Payload

namespace Agent

/-! ## Books -/

/-- The map of an agent, and the pairs of each request that reached the server. -/
structure Books : Type where
  ipMap : IpMap
  sent : List (List (IPKey × IPValue))

/-- The books at the start. -/
def Books.start : Books := ⟨∅, []⟩

/-- The pairs of the request that reaches the server at a tick, if one does. -/
def sentReports (sendData : Bool) (t : Tick) (taken : List (IPKey × IPValue)) :
    List (List (IPKey × IPValue)) :=
  if t.Reads ∧ sendData = true ∧ localEntries t.pods taken ≠ [] ∧ t.exchange.delivered = true then
    [localEntries t.pods taken]
  else []

/-- The books after an event. -/
def Books.next (o : Options) (b : Books) : Event → Books
  | .packet skb => { b with ipMap := (handleV4 o.endian o.config skb b.ipMap).2 }
  | .tick t =>
      { ipMap := (takeEntries t.batch.order maxEntries b.ipMap).2
        sent := b.sent
          ++ sentReports o.sendData t (takeEntries t.batch.order maxEntries b.ipMap).1 }

/-- The books after a run. -/
def Books.after (o : Options) (es : List Event) : Books := Runs.run (Books.next o) Books.start es

/-- The body that pairs are sent in. -/
def bodyOf (kvs : List (IPKey × IPValue)) : Slice UInt8 := Slice.ofList (wire kvs)

/-- The agent has the map of the books, and has sent what they say. -/
structure State.Keeps (s : State) (b : Books) : Prop where
  buffered : s.Buffered
  ipMap : s.ipMap = b.ipMap
  delivered : s.delivered = b.sent.map bodyOf

theorem sentBodies_eq (sendData : Bool) (t : Tick) (taken : List (IPKey × IPValue)) :
    sentBodies sendData t taken = (sentReports sendData t taken).map bodyOf := by
  unfold sentBodies sentReports
  split_ifs <;> rfl

/-- An event does not panic, and keeps the books. -/
theorem State.Keeps.exists_step {s : State} {b : Books} (h : s.Keeps b) (o : Options) (e : Event) :
    ∃ s', step o s e = some s' ∧ s'.Keeps (b.next o e) := by
  cases e with
  | packet skb =>
      refine ⟨_, rfl, ⟨h.buffered.keys, h.buffered.values⟩, ?_, h.delivered⟩
      show (handleV4 o.endian o.config skb s.ipMap).2 = _
      rw [h.ipMap]
      rfl
  | tick t =>
      obtain ⟨s', hs', hbuffered, hmap, hdelivered⟩ := exists_onTick h.buffered o.sendData t
      rw [h.ipMap] at hmap hdelivered
      refine ⟨s', hs', hbuffered, hmap, ?_⟩
      rw [hdelivered, h.delivered, sentBodies_eq, ← List.map_append]
      rfl

/-- Every run keeps the books. -/
theorem exists_run_books (o : Options) (es : List Event) :
    ∃ s, run o es = some s ∧ s.Keeps (Books.after o es) := by
  induction es using List.reverseRecOn with
  | nil => exact ⟨State.start, rfl, ⟨cap_make _ _, cap_make _ _⟩, rfl, rfl⟩
  | append_singleton es e ih =>
      obtain ⟨s, hs, hkeeps⟩ := ih
      obtain ⟨s', hs', hkeeps'⟩ := hkeeps.exists_step o e
      refine ⟨s', (run_concat hs e).trans hs', ?_⟩
      rw [Books.after, Runs.run_concat]
      exact hkeeps'

/-- A tick does not report more pairs than the map has room for. -/
theorem length_sentReports_le {sendData : Bool} {t : Tick} {ipMap : IpMap}
    {kvs : List (IPKey × IPValue)}
    (h : kvs ∈ sentReports sendData t (takeEntries t.batch.order maxEntries ipMap).1) :
    kvs.length ≤ maxEntries := by
  unfold sentReports at h
  split_ifs at h
  · rw [List.mem_singleton.1 h]
    exact List.filter_sublist.length_le.trans (takes_takeEntries _ _ _).1
  · exact absurd h List.not_mem_nil

/-- No request reports more pairs than that. -/
theorem length_sent_le (o : Options) (es : List Event) :
    ∀ kvs ∈ (Books.after o es).sent, kvs.length ≤ maxEntries := by
  refine Runs.run_history (I := fun _ (b : Books) => ∀ kvs ∈ b.sent, kvs.length ≤ maxEntries)
    (fun kvs hkvs => absurd hkvs List.not_mem_nil) (fun _ b e ih => ?_) es
  cases e with
  | packet skb => exact ih
  | tick t =>
      intro kvs hkvs
      rcases List.mem_append.1 hkvs with hkvs | hkvs
      · exact ih kvs hkvs
      · exact length_sentReports_le hkvs

/-- What the server reads from the requests is what the books say. -/
theorem State.Keeps.reported_eq {s : State} {o : Options} {es : List Event}
    (h : s.Keeps (Books.after o es)) : s.reported = (Books.after o es).sent.flatten := by
  rw [State.reported, h.delivered, List.flatMap_map]
  have hreport : ∀ kvs ∈ (Books.after o es).sent, reportOf (bodyOf kvs) = kvs := fun kvs hkvs =>
    reportOf_wire (length_sent_le o es kvs hkvs)
  rw [List.flatMap_congr hreport]
  exact List.flatMap_id

/-! ## What a step does not account for -/

variable (o : Options) (key : IPKey) (b : Books)

/-- The bytes of a packet that a full map refuses. -/
def Books.refused : Event → ℕ
  | .packet skb =>
      match flowOf o.endian o.config skb with
      | some (k, packetSize) =>
          if k = key ∧ b.ipMap.lookup k = none ∧ ¬ b.ipMap.keys.card < maxEntries then
            packetSize.toNat
          else 0
      | none => 0
  | .tick _ => 0

/-- What a counter loses when it wraps around. -/
def Books.wrapped : Event → ℕ
  | .packet skb =>
      match flowOf o.endian o.config skb with
      | some (k, packetSize) =>
          if k = key ∧ 2 ^ 64 ≤ counted b.ipMap k + packetSize.toNat then 2 ^ 64 else 0
      | none => 0
  | .tick _ => 0

/-- The bytes that a tick takes out for a source that is not on this host. -/
def Books.filtered : Event → ℕ
  | .packet _ => 0
  | .tick t =>
      bytesOf key (((takeEntries t.batch.order maxEntries b.ipMap).1.filter
        fun kv => ¬ OnHost t.pods (ByteOrder.ntohl kv.1.srcIP)).map flowOfPair)

/-- The bytes of this host that a tick takes out and that do not reach the server. -/
def Books.unsent : Event → ℕ
  | .packet _ => 0
  | .tick t =>
      if t.Reads ∧ o.sendData = true ∧ t.exchange.delivered = true then 0
      else bytesOf key ((localEntries t.pods
        (takeEntries t.batch.order maxEntries b.ipMap).1).map flowOfPair)

/-- The bytes that were reported or are in the map. -/
def Books.known : ℕ := bytesOf key (b.sent.flatten.map flowOfPair) + counted b.ipMap key

/-- The account of one packet in the map. -/
theorem counted_countFlow (ipMap : IpMap) (k : IPKey) (packetSize : UInt64) :
    counted (countFlow ipMap k packetSize) k
        + (if ipMap.lookup k = none ∧ ¬ ipMap.keys.card < maxEntries then packetSize.toNat else 0)
        + (if 2 ^ 64 ≤ counted ipMap k + packetSize.toNat then 2 ^ 64 else 0)
      = counted ipMap k + packetSize.toNat := by
  have hsize : packetSize.toNat < 2 ^ 64 := packetSize.toNat_lt
  unfold counted countFlow bpfMapUpdateElem
  cases hlookup : ipMap.lookup k with
  | some value =>
      have hvalue : value.packetSize.toNat < 2 ^ 64 := value.packetSize.toNat_lt
      simp only [Finmap.lookup_insert, UInt64.toNat_add, reduceCtorEq, false_and, if_false]
      split_ifs <;> omega
  | none =>
      have hnew : k ∉ ipMap := Finmap.lookup_eq_none.1 hlookup
      by_cases hroom : ipMap.keys.card < maxEntries
      · simp only [hroom, or_true, if_true, Finmap.lookup_insert, not_true_eq_false, and_false,
          if_false]
        split_ifs <;> omega
      · simp only [hnew, hroom, or_self, if_false, hlookup, not_false_eq_true, and_self, if_true]
        split_ifs <;> omega

/-- The pairs of the entries that a tick takes, by where their source is. -/
theorem bytesOf_localEntries_add (pods : List Pod) (taken : List (IPKey × IPValue)) :
    bytesOf key ((localEntries pods taken).map flowOfPair)
        + bytesOf key ((taken.filter
          fun kv => ¬ OnHost pods (ByteOrder.ntohl kv.1.srcIP)).map flowOfPair)
      = bytesOf key (taken.map flowOfPair) := by
  induction taken with
  | nil => rfl
  | cons kv taken ih =>
      unfold localEntries at ih ⊢
      by_cases hhost : OnHost pods (ByteOrder.ntohl kv.1.srcIP)
      · rw [List.filter_cons_of_pos (by simpa using hhost),
          List.filter_cons_of_neg (by simpa using hhost), List.map_cons, List.map_cons,
          bytesOf_cons, bytesOf_cons, ← ih]
        omega
      · rw [List.filter_cons_of_neg (by simpa using hhost),
          List.filter_cons_of_pos (by simpa using hhost), List.map_cons, List.map_cons,
          bytesOf_cons, bytesOf_cons, ← ih]
        omega

/-- The account of a packet. -/
theorem known_packet (skb : SkBuff) :
    (b.next o (.packet skb)).known key + b.refused o key (.packet skb)
        + b.wrapped o key (.packet skb)
      = b.known key + bytesOf key (flowOfEvent o (.packet skb)).toList := by
  simp only [Books.known, Books.next, Books.refused, Books.wrapped, handleV4, flowOfEvent]
  cases flowOf o.endian o.config skb with
  | none => rfl
  | some flow =>
      obtain ⟨k, packetSize⟩ := flow
      rw [Option.toList_some, bytesOf_singleton]
      by_cases hk : k = key
      · subst hk
        have haccount := counted_countFlow b.ipMap k packetSize
        simp only [true_and, if_true]
        omega
      · have hother : counted (countFlow b.ipMap k packetSize) key = counted b.ipMap key := by
          unfold counted
          rw [lookup_countFlow_ne b.ipMap packetSize (Ne.symm hk)]
        simp only [hk, hother, false_and, if_false, Nat.add_zero]

theorem refused_packet (skb : SkBuff) :
    b.refused o key (.packet skb)
      = match flowOf o.endian o.config skb with
        | some (k, packetSize) =>
            if k = key ∧ b.ipMap.lookup k = none ∧ ¬ b.ipMap.keys.card < maxEntries then
              packetSize.toNat
            else 0
        | none => 0 := rfl

theorem unsent_tick (t : Tick) :
    b.unsent o key (.tick t)
      = if t.Reads ∧ o.sendData = true ∧ t.exchange.delivered = true then 0
        else bytesOf key ((localEntries t.pods
          (takeEntries t.batch.order maxEntries b.ipMap).1).map flowOfPair) := rfl

/-- The account of a tick. -/
theorem known_tick (t : Tick) :
    (b.next o (.tick t)).known key + b.filtered key (.tick t) + b.unsent o key (.tick t)
      = b.known key := by
  have htakes := (takes_takeEntries t.batch.order maxEntries b.ipMap).2.bytes key
  have hsplit := bytesOf_localEntries_add key t.pods
    (takeEntries t.batch.order maxEntries b.ipMap).1
  -- what is sent and what is not sent are the entries of this host
  have hsent : bytesOf key ((sentReports o.sendData t
        (takeEntries t.batch.order maxEntries b.ipMap).1).flatten.map flowOfPair)
      + b.unsent o key (.tick t)
      = bytesOf key ((localEntries t.pods
          (takeEntries t.batch.order maxEntries b.ipMap).1).map flowOfPair) := by
    rw [unsent_tick]
    unfold sentReports
    by_cases hsend : t.Reads ∧ o.sendData = true ∧ t.exchange.delivered = true
    · by_cases hlocal : localEntries t.pods
          (takeEntries t.batch.order maxEntries b.ipMap).1 = []
      · rw [if_neg (fun h => h.2.2.1 hlocal), if_pos hsend, hlocal]
        rfl
      · rw [if_pos ⟨hsend.1, hsend.2.1, hlocal, hsend.2.2⟩, if_pos hsend, List.flatten_singleton]
        rfl
    · rw [if_neg (fun h => hsend ⟨h.1, h.2.1, h.2.2.2⟩), if_neg hsend]
      exact Nat.zero_add _
  unfold Books.known Books.filtered
  simp only [Books.next, List.flatten_append, List.map_append, bytesOf_append]
  omega

/-- One more event brings its own bytes. -/
theorem bytesOf_filterMap_flowOfEvent (es : List Event) :
    (es.map fun e => bytesOf key (flowOfEvent o e).toList).sum
      = bytesOf key (es.filterMap (flowOfEvent o)) := by
  induction es with
  | nil => rfl
  | cons e es ih =>
      rw [List.map_cons, List.sum_cons, ih, List.filterMap_cons]
      cases flowOfEvent o e with
      | none => exact Nat.zero_add _
      | some flow =>
          rw [Option.toList_some, ← bytesOf_append]
          rfl

/-- The account of a run. -/
theorem known_after (es : List Event) :
    (Books.after o es).known key
        + Runs.total (Books.next o) (Books.refused o key) Books.start es
        + Runs.total (Books.next o) (Books.wrapped o key) Books.start es
        + Runs.total (Books.next o) (Books.filtered key) Books.start es
        + Runs.total (Books.next o) (Books.unsent o key) Books.start es
      = bytesOf key (es.filterMap (flowOfEvent o)) := by
  have hstep : ∀ (b : Books) (e : Event), (b.next o e).known key
      + (b.refused o key e + b.wrapped o key e + b.filtered key e + b.unsent o key e)
      = b.known key + bytesOf key (flowOfEvent o e).toList := by
    intro b e
    cases e with
    | packet skb =>
        have hpacket := known_packet o key b skb
        simp only [Books.filtered, Books.unsent]
        omega
    | tick t =>
        have htick := known_tick o key b t
        simp only [Books.refused, Books.wrapped, flowOfEvent, Option.toList_none]
        show _ = b.known key + 0
        omega
  have hrun := Runs.run_balance hstep Books.start es
  rw [Runs.total_const, bytesOf_filterMap_flowOfEvent, Runs.total_add, Runs.total_add,
    Runs.total_add] at hrun
  have hstart : Books.start.known key = 0 := rfl
  rw [hstart, Nat.zero_add] at hrun
  rw [← hrun, Books.after]
  omega

/-- Main result: in every run the bytes of the packets of a flow are those that
have reached the server, those still in the map, those refused by a full map,
those lost by a counter that wrapped around, those that were taken out for a
source on another host, and those that were taken out and never reached the
server. -/
theorem bytes_accounted (es : List Event) :
    ∃ s, run o es = some s ∧ ∀ key,
      bytesOf key (s.reported.map flowOfPair) + counted s.ipMap key
          + Runs.total (Books.next o) (Books.refused o key) Books.start es
          + Runs.total (Books.next o) (Books.wrapped o key) Books.start es
          + Runs.total (Books.next o) (Books.filtered key) Books.start es
          + Runs.total (Books.next o) (Books.unsent o key) Books.start es
        = bytesOf key (es.filterMap (flowOfEvent o)) := by
  obtain ⟨s, hs, hkeeps⟩ := exists_run_books o es
  refine ⟨s, hs, fun key => ?_⟩
  rw [hkeeps.reported_eq, hkeeps.ipMap]
  exact known_after o key es

end Agent
