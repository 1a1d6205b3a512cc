/-
# What a failed flush loses

A tick takes its entries out of `ip_map` before it knows whether they can be
sent, and an error after that is only logged.  The buffers keep the entries, but
no later tick looks at them: what a tick sends is made from what it takes out of
the map itself (`lookup_of_sendsLater`).

So the entries of this host that a tick takes are acknowledged by the server or
dropped, all of them together, and nothing is lost exactly if the flush succeeds
(`losesNothing_iff`).  Over a run what is removed is acknowledged, up to what the
failed flushes drop (`flush_ledger`).
-/
import Kubezonnet.AgentReporting

open Ebpf GoSlice Kube Payload

namespace Agent

/-! ## Later ticks -/

/-- The pairs that reach the server between two states. -/
def reportedSince (s s' : State) : List (IPKey × IPValue) :=
  (s'.delivered.drop s.delivered.length).flatMap reportOf

/-- Some later ticks send the pair, without another packet. -/
def State.SendsLater (sendData : Bool) (s : State) (kv : IPKey × IPValue) : Prop :=
  ∃ (ts : List Tick) (s' : State), ts.foldlM (fun s t => onTick sendData t s) s = some s'
    ∧ kv ∈ reportedSince s s'

/-- A batch call leaves no other entries than there were. -/
theorem lookup_of_lookup_takeEntries {order : List IPKey} {room : ℕ} {ipMap : IpMap} {key : IPKey}
    {value : IPValue} (h : (takeEntries order room ipMap).2.lookup key = some value) :
    ipMap.lookup key = some value := by
  induction order generalizing room ipMap with
  | nil => exact h
  | cons k order ih =>
      cases room with
      | zero => exact h
      | succ room =>
          rw [takeEntries] at h
          cases hk : ipMap.lookup k with
          | none =>
              rw [hk] at h
              exact ih h
          | some v =>
              rw [hk] at h
              have herase : (ipMap.erase k).lookup key = some value := ih h
              have hne : key ≠ k := by
                rintro rfl
                rw [Finmap.lookup_erase] at herase
                exact absurd herase (by simp)
              rwa [Finmap.lookup_erase_ne hne] at herase

/-- What ticks send is in the map before them. -/
theorem exists_delivered_ticks {sendData : Bool} {ts : List Tick} {s s' : State} (hs : s.Buffered)
    (h : ts.foldlM (fun s t => onTick sendData t s) s = some s') :
    ∃ bodies, s'.delivered = s.delivered ++ bodies
      ∧ ∀ kv ∈ bodies.flatMap reportOf, s.ipMap.lookup kv.1 = some kv.2 := by
  induction ts generalizing s with
  | nil =>
      obtain rfl : s = s' := Option.some.inj h
      exact ⟨[], (List.append_nil _).symm, fun kv hkv => absurd hkv List.not_mem_nil⟩
  | cons t ts ih =>
      obtain ⟨s₁, hs₁, hbuffered, hmap, hdelivered⟩ := exists_onTick hs sendData t
      obtain ⟨hfit, htakes⟩ := takes_takeEntries t.batch.order maxEntries s.ipMap
      rw [List.foldlM_cons, hs₁] at h
      obtain ⟨bodies, hbodies, hlater⟩ := ih hbuffered h
      have happend := hbodies
      rw [hdelivered, List.append_assoc] at happend
      refine ⟨_, happend, fun kv hkv => ?_⟩
      rw [List.flatMap_append, List.mem_append] at hkv
      rcases hkv with hnow | hkv
      · exact htakes.found kv ((reportOf_sentBodies_sublist sendData t hfit).subset hnow)
      · have hleft := hlater kv hkv
        rw [hmap] at hleft
        exact lookup_of_lookup_takeEntries hleft

/-- A pair that is sent later is in the map: the buffers hold nothing that will be sent. -/
theorem lookup_of_sendsLater {sendData : Bool} {s : State} (hs : s.Buffered)
    {kv : IPKey × IPValue} (h : s.SendsLater sendData kv) : s.ipMap.lookup kv.1 = some kv.2 := by
  obtain ⟨ts, s', hticks, hkv⟩ := h
  obtain ⟨bodies, hbodies, hlookup⟩ := exists_delivered_ticks hs hticks
  rw [reportedSince, hbodies, List.drop_left] at hkv
  exact hlookup kv hkv

/-! ## A flush -/

/-- A tick, with the states before and after it. -/
structure Flush : Type where
  before : State
  tick : Tick
  after : State

/-- The server answered the request with status 200. -/
def Exchange.acknowledged : Exchange → Bool
  | .answered statusCode _ => statusCode = 200
  | _ => false

namespace Flush

/-- The entries that the batch call takes out of the map. -/
def removed (f : Flush) : List (IPKey × IPValue) :=
  (takeEntries f.tick.batch.order maxEntries f.before.ipMap).1

/-- Those of them whose source is a pod of this host. -/
def removedLocal (f : Flush) : List (IPKey × IPValue) := localEntries f.tick.pods f.removed

/-- The pairs that reach the server at the tick, if it acknowledges the request. -/
def acknowledged (f : Flush) : List (IPKey × IPValue) :=
  if f.tick.exchange.acknowledged then reportedSince f.before f.after else []

/-- Every entry of this host that is removed is acknowledged, or it is still in
the map or will be sent by a later tick. -/
def LosesNothing (f : Flush) : Prop :=
  ∀ kv ∈ f.removedLocal, kv ∈ f.acknowledged ∨ f.after.ipMap.lookup kv.1 = some kv.2
    ∨ f.after.SendsLater true kv

/-- There is nothing to send, or the batch call succeeds and the server
acknowledges the request. -/
def Succeeds (f : Flush) : Prop :=
  f.removedLocal = [] ∨ f.tick.Reads ∧ f.tick.exchange.acknowledged = true

instance (f : Flush) : Decidable f.Succeeds := inferInstanceAs (Decidable (_ ∨ _))

/-- What a flush drops. -/
def dropped (f : Flush) : List (IPKey × IPValue) := if f.Succeeds then [] else f.removedLocal

/-- The state after the tick is the one that the loop body gives. -/
structure Valid (sendData : Bool) (f : Flush) : Prop where
  buffered : f.before.Buffered
  onTick : onTick sendData f.tick f.before = some f.after

variable {f : Flush} {sendData : Bool}

/-- What a tick takes and sends is a matter of the map before it. -/
theorem Valid.spec (h : f.Valid sendData) :
    f.after.Buffered
      ∧ f.after.ipMap = (takeEntries f.tick.batch.order maxEntries f.before.ipMap).2
      ∧ f.after.delivered = f.before.delivered ++ sentBodies sendData f.tick f.removed := by
  obtain ⟨s', hs', hspec⟩ := exists_onTick h.buffered sendData f.tick
  obtain rfl : s' = f.after := Option.some.inj (hs'.symm.trans h.onTick)
  exact hspec

/-- A request that the server acknowledges has reached it. -/
theorem delivered_of_acknowledged {x : Exchange} (h : x.acknowledged = true) :
    x.delivered = true := by
  cases x with
  | newRequestFails err => exact absurd h (by simp [Exchange.acknowledged])
  | doFails delivered err => exact absurd h (by simp [Exchange.acknowledged])
  | readFails err => rfl
  | answered statusCode respContent => rfl

/-- With sending enabled either all entries of this host are acknowledged, or none. -/
theorem Valid.acknowledged_eq (h : f.Valid true) :
    f.acknowledged
      = if f.tick.Reads ∧ f.tick.exchange.acknowledged = true then f.removedLocal else [] := by
  have hfit : f.removedLocal.length ≤ maxEntries :=
    List.filter_sublist.length_le.trans (takes_takeEntries _ _ _).1
  unfold acknowledged
  rw [reportedSince, h.spec.2.2, List.drop_left]
  by_cases hack : f.tick.exchange.acknowledged = true
  · rw [if_pos hack]
    by_cases hlocal : f.removedLocal = []
    · rw [sentBodies_of_localEntries_nil hlocal, hlocal, ite_self]
      rfl
    · by_cases hread : f.tick.Reads
      · rw [sentBodies_of_reads hread hlocal, if_pos (delivered_of_acknowledged hack),
          if_pos ⟨hread, hack⟩, List.flatMap_singleton]
        exact reportOf_wire hfit
      · rw [sentBodies_of_not_reads hread, if_neg fun hsucc => hread hsucc.1]
        rfl
  · rw [if_neg hack, if_neg fun hsucc => hack hsucc.2]

/-- Nothing is lost exactly if the flush succeeds. -/
theorem Valid.losesNothing_iff (h : f.Valid true) : f.LosesNothing ↔ f.Succeeds := by
  constructor
  · intro hkeeps
    by_cases hlocal : f.removedLocal = []
    · exact Or.inl hlocal
    · right
      obtain ⟨kv, hkv⟩ := List.exists_mem_of_ne_nil _ hlocal
      -- a removed entry is not in the map any more, so it is not sent later either
      have hgone : f.after.ipMap.lookup kv.1 = none := by
        rw [h.spec.2.1, Finmap.lookup_eq_none]
        exact (takes_takeEntries _ _ _).2.gone kv (List.mem_of_mem_filter hkv)
      rcases hkeeps kv hkv with hack | hheld | hlater
      · rw [h.acknowledged_eq] at hack
        split_ifs at hack with hsucc
        · exact hsucc
        · exact absurd hack List.not_mem_nil
      · rw [hgone] at hheld
        exact absurd hheld (by simp)
      · rw [lookup_of_sendsLater h.spec.1 hlater] at hgone
        exact absurd hgone (by simp)
  · rintro (hlocal | hsucc) kv hkv
    · rw [hlocal] at hkv
      exact absurd hkv List.not_mem_nil
    · left
      rw [h.acknowledged_eq, if_pos hsucc]
      exact hkv

/-- What a flush removes is acknowledged or dropped. -/
theorem Valid.acknowledged_append_dropped (h : f.Valid true) :
    f.acknowledged ++ f.dropped = f.removedLocal := by
  rw [h.acknowledged_eq]
  unfold dropped
  by_cases hsucc : f.tick.Reads ∧ f.tick.exchange.acknowledged = true
  · have hsucceeds : f.Succeeds := Or.inr hsucc
    rw [if_pos hsucc, if_pos hsucceeds, List.append_nil]
  · rw [if_neg hsucc, List.nil_append]
    by_cases hlocal : f.removedLocal = []
    · have hsucceeds : f.Succeeds := Or.inl hlocal
      rw [if_pos hsucceeds, hlocal]
    · have hfails : ¬ f.Succeeds := not_or.2 ⟨hlocal, hsucc⟩
      rw [if_neg hfails]

end Flush

/-! ## Runs -/

/-- The flushes of a run from a state. -/
def flushesFrom (o : Options) : State → List Event → List Flush
  | _, [] => []
  | s, e :: es =>
      match step o s e with
      | none => []
      | some s' =>
          match e with
          | .packet _ => flushesFrom o s' es
          | .tick t => ⟨s, t, s'⟩ :: flushesFrom o s' es

theorem flushesFrom_packet (o : Options) (s : State) (skb : SkBuff) (es : List Event) :
    flushesFrom o s (.packet skb :: es)
      = flushesFrom o { s with ipMap := (handleV4 o.endian o.config skb s.ipMap).2 } es := rfl

theorem flushesFrom_tick {o : Options} {s s' : State} {t : Tick}
    (h : onTick o.sendData t s = some s') (es : List Event) :
    flushesFrom o s (.tick t :: es) = ⟨s, t, s'⟩ :: flushesFrom o s' es := by
  rw [flushesFrom, step, h]

/-- The flushes of a run. -/
def flushes (o : Options) (es : List Event) : List Flush := flushesFrom o State.start es

/-- The bytes of a key among some pairs of each flush. -/
def flushBytes (key : IPKey) (pairs : Flush → List (IPKey × IPValue)) (fs : List Flush) : ℕ :=
  bytesOf key ((fs.flatMap pairs).map flowOfPair)

theorem flushBytes_cons (key : IPKey) (pairs : Flush → List (IPKey × IPValue)) (f : Flush)
    (fs : List Flush) :
    flushBytes key pairs (f :: fs)
      = bytesOf key ((pairs f).map flowOfPair) + flushBytes key pairs fs := by
  unfold flushBytes
  rw [List.flatMap_cons, List.map_append, bytesOf_append]

/-- The flushes of a run are its ticks, each as the loop body makes it. -/
theorem valid_of_mem_flushesFrom {o : Options} {s : State} (hs : s.Buffered) {es : List Event}
    {f : Flush} (hf : f ∈ flushesFrom o s es) : f.Valid o.sendData ∧ .tick f.tick ∈ es := by
  induction es generalizing s with
  | nil => exact absurd hf List.not_mem_nil
  | cons e es ih =>
      cases e with
      | packet skb =>
          have hbuffered : State.Buffered
              { s with ipMap := (handleV4 o.endian o.config skb s.ipMap).2 } := ⟨hs.keys, hs.values⟩
          rw [flushesFrom_packet] at hf
          exact (ih hbuffered hf).imp_right (List.mem_cons_of_mem _)
      | tick t =>
          obtain ⟨s', hs', hbuffered, -, -⟩ := exists_onTick hs o.sendData t
          rw [flushesFrom_tick hs'] at hf
          rcases List.mem_cons.1 hf with rfl | hf
          · exact ⟨⟨hs, hs'⟩, List.mem_cons_self⟩
          · exact (ih hbuffered hf).imp_right (List.mem_cons_of_mem _)

/-- The flushes of a run from the start. -/
theorem valid_of_mem_flushes {o : Options} {es : List Event} {f : Flush} (hf : f ∈ flushes o es) :
    f.Valid o.sendData ∧ .tick f.tick ∈ es :=
  valid_of_mem_flushesFrom ⟨cap_make _ _, cap_make _ _⟩ hf

/-- The flush of a tick right after a packet. -/
theorem exists_flush_packet_tick (o : Options) {s : State} (hs : s.Buffered) (skb : SkBuff)
    (t : Tick) :
    ∃ f ∈ flushesFrom o s [.packet skb, .tick t], f.Valid o.sendData ∧ f.tick = t
      ∧ f.before.ipMap = (handleV4 o.endian o.config skb s.ipMap).2 := by
  have hbuffered : State.Buffered { s with ipMap := (handleV4 o.endian o.config skb s.ipMap).2 } :=
    ⟨hs.keys, hs.values⟩
  obtain ⟨s', hs', -⟩ := exists_onTick hbuffered o.sendData t
  refine ⟨⟨_, t, s'⟩, ?_, ⟨hbuffered, hs'⟩, rfl, rfl⟩
  rw [flushesFrom_packet, flushesFrom_tick hs']
  exact List.mem_cons_self

/-- Over any flushes, what is removed is acknowledged or dropped. -/
theorem flushBytes_acknowledged_add_dropped (key : IPKey) {fs : List Flush}
    (h : ∀ f ∈ fs, f.Valid true) :
    flushBytes key Flush.acknowledged fs + flushBytes key Flush.dropped fs
      = flushBytes key Flush.removedLocal fs := by
  induction fs with
  | nil => rfl
  | cons f fs ih =>
      have hrest := ih fun f' hf' => h f' (List.mem_cons_of_mem f hf')
      have hsplit := (h f List.mem_cons_self).acknowledged_append_dropped
      rw [flushBytes_cons, flushBytes_cons, flushBytes_cons, ← hsplit, List.map_append,
        bytesOf_append, ← hrest]
      omega

/-- Main result: with sending enabled, a tick of any run loses nothing exactly if
its flush succeeds.  So in every run the bytes acknowledged, those dropped by
failed flushes and those still in the map are the bytes removed and those still
in the map. -/
theorem flush_ledger (o : Options) (hsend : o.sendData = true) (es : List Event) :
    ∃ s, run o es = some s
      ∧ (∀ f ∈ flushes o es, f.LosesNothing ↔ f.Succeeds)
      ∧ ∀ key, flushBytes key Flush.acknowledged (flushes o es)
            + flushBytes key Flush.dropped (flushes o es) + counted s.ipMap key
          = flushBytes key Flush.removedLocal (flushes o es) + counted s.ipMap key := by
  obtain ⟨s, hs, -, -⟩ := exists_run o es
  have hvalid : ∀ f ∈ flushes o es, f.Valid true := by
    intro f hf
    rw [← hsend]
    exact (valid_of_mem_flushes hf).1
  refine ⟨s, hs, fun f hf => (hvalid f hf).losesNothing_iff, fun key => ?_⟩
  rw [flushBytes_acknowledged_add_dropped key hvalid]

/-- An agent of the subnet `10.0.0.0/24` that sends its data. -/
def sending : Options := ⟨.little, { subnetPrefix := 0x0000000A, subnetMask := 0x00FFFFFF }, true⟩

/-- A packet of 20 bytes from `10.0.0.1` to `10.0.0.2`. -/
def packetOut : SkBuff where
  data := [0x45, 0, 0, 20, 0, 0, 0, 0, 64, 1, 0, 0, 10, 0, 0, 1, 10, 0, 0, 2]
  hasDynptr := true

/-- A tick that takes the entry of the packet, on the host of its source. -/
def tickOf (exchange : Exchange) : Tick where
  batch := ⟨[⟨0x0100000A, 0x0200000A, 0, 0⟩], some .errKeyNotExist⟩
  pods := [⟨"default", "client", "n1", "192.168.0.1", ["10.0.0.1"]⟩]
  exchange := exchange

/-- A flush that the server acknowledges loses nothing. -/
theorem losesNothing_acknowledged :
    let es : List Event := [.packet packetOut, .tick (tickOf (.answered 200 ""))]
    ∃ s, run sending es = some s ∧ ∀ f ∈ flushes sending es, f.LosesNothing := by
  intro es
  obtain ⟨s, hs, hiff, -⟩ := flush_ledger sending rfl es
  refine ⟨s, hs, fun f hf => (hiff f hf).2 (Or.inr ?_)⟩
  have htick : f.tick = tickOf (.answered 200 "") := by
    rcases List.mem_cons.1 (valid_of_mem_flushes hf).2 with h | h
    · exact absurd h (by simp)
    · exact Event.tick.inj (List.mem_singleton.1 h)
  rw [htick]
  exact ⟨Or.inr rfl, rfl⟩

/-- A flush that cannot connect to the server loses the entry that it took. -/
theorem not_losesNothing_connection_refused :
    ∃ f ∈ flushes sending
        [.packet packetOut, .tick (tickOf (.doFails false "connection refused"))],
      ¬ f.LosesNothing := by
  obtain ⟨f, hf, hvalid, htick, hmap⟩ := exists_flush_packet_tick sending
    (s := State.start) ⟨cap_make _ _, cap_make _ _⟩ packetOut
    (tickOf (.doFails false "connection refused"))
  refine ⟨f, hf, fun hkeeps => ?_⟩
  have hlocal : f.removedLocal = [(⟨0x0100000A, 0x0200000A, 0, 0⟩, ⟨20⟩)] := by
    unfold Flush.removedLocal Flush.removed
    rw [htick, hmap]
    decide
  rcases hvalid.losesNothing_iff.1 hkeeps with hnone | ⟨-, hack⟩
  · rw [hlocal] at hnone
    exact absurd hnone (by simp)
  · rw [htick] at hack
    exact absurd hack (by decide)

end Agent
