/-
# The system can always settle

Whatever has happened, one more flush of every node and the delivery of the
requests on their way leave nothing behind: all maps are empty and no request is
in flight.  A run in which nothing is lost stays one (`can_settle`), so what is
said of such a run once everything has arrived can be had after every run.

A flush empties the map because the map never has more keys than a batch call
takes (`card_keys_after_le`).
-/
import Kubezonnet.ExactlyOnce
import Kubezonnet.HostOrder

open Agent Ebpf GoSlice Kube Payload

namespace Agent

/-! ## Flushing one node -/

/-- Counting a flow does not overfill the map. -/
theorem card_keys_countFlow_le {ipMap : IpMap} (h : ipMap.keys.card ≤ maxEntries) (key : IPKey)
    (packetSize : UInt64) : (countFlow ipMap key packetSize).keys.card ≤ maxEntries := by
  have hkeys : ∀ value, (ipMap.insert key value).keys = insert key ipMap.keys := by
    intro value
    ext k
    rw [Finmap.mem_keys, Finmap.mem_insert, Finset.mem_insert, Finmap.mem_keys]
  have hknown : ∀ value, key ∈ ipMap → (ipMap.insert key value).keys.card ≤ maxEntries := by
    intro value hkey
    rw [hkeys, Finset.insert_eq_of_mem (Finmap.mem_keys.2 hkey)]
    exact h
  unfold countFlow bpfMapUpdateElem
  cases hlookup : ipMap.lookup key with
  | some value => exact hknown _ (Finmap.mem_of_lookup_eq_some hlookup)
  | none =>
      dsimp only
      split_ifs with hroom
      · rcases hroom with hkey | hroom
        · exact hknown _ hkey
        · rw [hkeys]
          exact (Finset.card_insert_le _ _).trans hroom
      · exact h

/-- The map of an agent never has more keys than a batch call takes. -/
theorem card_keys_after_le (o : Options) (es : List Event) :
    (Books.after o es).ipMap.keys.card ≤ maxEntries := by
  refine Runs.run_history (I := fun _ (b : Books) => b.ipMap.keys.card ≤ maxEntries)
    (Nat.zero_le _) (fun _ b e ih => ?_) es
  cases e with
  | packet skb =>
      show (handleV4 o.endian o.config skb b.ipMap).2.keys.card ≤ maxEntries
      unfold handleV4
      cases flowOf o.endian o.config skb with
      | none => exact ih
      | some flow => exact card_keys_countFlow_le ih flow.1 flow.2
  | tick t =>
      have htakes := (takes_takeEntries t.batch.order maxEntries b.ipMap).2
      refine le_trans (Finset.card_le_card fun key hkey => ?_) ih
      by_contra hnew
      exact htakes.subset key (mt Finmap.mem_keys.2 hnew) (Finmap.mem_keys.1 hkey)

/-- A batch call that looks at every key empties the map. -/
theorem takeEntries_eq_empty {order : List IPKey} {ipMap : IpMap}
    (hcovers : ∀ key ∈ ipMap, key ∈ order) (hroom : ipMap.keys.card ≤ maxEntries) :
    (takeEntries order maxEntries ipMap).2 = ∅ := by
  have htakes := (takes_takeEntries order maxEntries ipMap).2
  apply Finmap.ext_lookup
  intro key
  rw [Finmap.lookup_empty, Finmap.lookup_eq_none]
  intro hleft
  have hkey : key ∈ ipMap := by
    by_contra hnew
    exact htakes.subset key hnew hleft
  obtain ⟨value, hvalue⟩ := Finmap.mem_iff.1 hkey
  exact htakes.gone (key, value) ((mem_takeEntries_iff hcovers hroom (key, value)).2 hvalue) hleft

/-- A flush empties the map of an agent, after any run. -/
theorem Tick.Flushes.ipMap_eq_empty {o : Options} {es : List Event} {t : Tick} {pods : List Pod}
    (h : t.Flushes pods (Books.after o es).ipMap) :
    (Books.after o (es ++ [.tick t])).ipMap = ∅ := by
  rw [Books.after, Runs.run_concat]
  exact takeEntries_eq_empty h.covers (card_keys_after_le o es)

/-- A flush loses nothing. -/
theorem Lossless.flush {o : Options} {pods : List Pod} {es : List Event} (h : Lossless o pods es)
    {t : Tick} (ht : t.Flushes pods (Books.after o es).ipMap) :
    Lossless o pods (es ++ [.tick t]) where
  ticks t' ht' := by
    rcases List.mem_append.1 ht' with hold | hnew
    · exact h.ticks t' hold
    · rw [Event.tick.inj (List.mem_singleton.1 hnew)]
      exact ⟨ht.pods, ht.reads, ht.delivered⟩
  room pre e hpre := by
    rcases List.prefix_concat_iff.1 hpre with heq | hpre
    · obtain ⟨-, hlast⟩ := List.append_inj' heq rfl
      rw [(List.cons.inj hlast).1]
      exact trivial
    · exact h.room pre e hpre

end Agent

namespace Deployment

variable {ι : Type} [DecidableEq ι]

/-! ## Flushing all nodes -/

/-- A tick of every node. -/
def flushes (t : ι → Tick) (is : List ι) : List (Event ι) := is.map fun i => .tick i (t i)

/-- Each node sees its own flush. -/
theorem eventsAt_flushes (t : ι → Tick) {is : List ι} (hnodup : is.Nodup) (i : ι) :
    eventsAt i (flushes t is) = if i ∈ is then [.tick (t i)] else [] := by
  induction is with
  | nil => rfl
  | cons j is ih =>
      obtain ⟨hj, hnodup⟩ := List.nodup_cons.1 hnodup
      have hrest := ih hnodup
      unfold eventsAt flushes at hrest ⊢
      by_cases hi : j = i
      · subst hi
        have hown : atNode j (.tick j (t j)) = some (.tick (t j)) := if_pos rfl
        rw [if_neg hj] at hrest
        rw [List.map_cons, List.filterMap_cons_some hown, hrest, if_pos List.mem_cons_self]
      · have hother : atNode i (.tick j (t j)) = none := if_neg hi
        have hmem : i ∈ j :: is ↔ i ∈ is := by
          rw [List.mem_cons]
          exact or_iff_right (Ne.symm hi)
        rw [List.map_cons, List.filterMap_cons_none hother, hrest, if_congr hmem rfl rfl]

/-! ## Delivering all requests -/

/-- The first request on its way is delivered, again and again. -/
def deliveries (n : ℕ) : List (Event ι) := List.replicate n (.deliver 0)

theorem eventsAt_deliveries (n : ℕ) (i : ι) : eventsAt i (deliveries n) = [] := by
  induction n with
  | zero => rfl
  | succ n ih => exact ih

/-- Delivering as many requests as are on their way leaves none. -/
theorem inFlight_deliveries (o : Options) (l : Ledgers ι) :
    (Runs.run (Ledgers.next o) l (deliveries l.inFlight.length)).inFlight = [] := by
  generalize hreports : l.inFlight = reports
  induction reports generalizing l with
  | nil => exact hreports
  | cons kvs reports ih =>
      show (Runs.run (Ledgers.next o) (l.next o (.deliver 0)) (deliveries reports.length)).inFlight = []
      apply ih
      simp [Ledgers.next, hreports]

/-! ## The system -/

/-- A tick of a node, or the delivery of a request. -/
def Event.Settles : Event ι → Prop
  | .tick _ _ => True
  | .deliver _ => True
  | _ => False

/-- Main result: after any run of the system, on a server after any run, ticks of
the nodes and deliveries of requests lead to a state in which all maps are empty
and no request is on its way.  If nothing was lost before, nothing is lost then. -/
theorem can_settle [Fintype ι] (o : Options) (pods : ι → List Pod) (es₀ : List Server.Event)
    (es : List (Event ι)) :
    ∃ s es' net, Server.run es₀ = some s ∧ (∀ e ∈ es', e.Settles)
      ∧ run o (Net.start s) (es ++ es') = some net
      ∧ net.inFlight = [] ∧ (∀ i, (net.agents i).ipMap = ∅)
      ∧ (Undisturbed o pods es → Undisturbed o pods (es ++ es'))
      ∧ (es ++ es').filterMap sighting = es.filterMap sighting := by
  let s := Runs.run Server.State.next Server.State.empty es₀
  -- every node flushes what its map has now
  choose t ht using fun i => exists_flushes (pods i) (Books.after o (eventsAt i es)).ipMap
  let flushed := es ++ flushes t Finset.univ.toList
  let n := (Ledgers.after o s flushed).inFlight.length
  obtain ⟨net, hrun, hkeeps⟩ := exists_run_ledgers o s (flushed ++ deliveries n)
  have hat : ∀ i, eventsAt i (flushed ++ deliveries n) = eventsAt i es ++ [.tick (t i)] := by
    intro i
    have hflush := eventsAt_flushes t (Finset.nodup_toList Finset.univ) i
    rw [if_pos (Finset.mem_toList.2 (Finset.mem_univ i))] at hflush
    have hdeliver := eventsAt_deliveries n i
    unfold eventsAt at hflush hdeliver ⊢
    rw [List.filterMap_append, List.filterMap_append, hflush, hdeliver, List.append_nil]
  have hsettles : ∀ e ∈ flushes t Finset.univ.toList ++ deliveries n, e.Settles := by
    intro e he
    rcases List.mem_append.1 he with hflush | hdeliver
    · obtain ⟨i, -, rfl⟩ := List.mem_map.1 hflush
      exact trivial
    · rw [List.eq_of_mem_replicate hdeliver]
      exact trivial
  refine ⟨s, flushes t Finset.univ.toList ++ deliveries n, net, Server.run_eq es₀, hsettles, ?_, ?_,
    fun i => ?_, fun h => ?_, ?_⟩
  · rw [← List.append_assoc]
    exact hrun
  · rw [hkeeps.inFlight, Ledgers.after, Runs.run_append, ← Ledgers.after]
    exact List.map_eq_nil_iff.2 (inFlight_deliveries o _)
  · rw [(hkeeps.agents i).ipMap, books_run, hat]
    exact (ht i).ipMap_eq_empty
  · rw [← List.append_assoc]
    refine ⟨fun e he => ?_, fun i => ?_⟩
    · rw [List.append_assoc] at he
      rcases List.mem_append.1 he with hold | hnew
      · exact h.informer e hold
      · exact hsettles _ hnew
    · rw [show es ++ flushes t Finset.univ.toList = flushed from rfl, hat]
      exact (h.nodes i).flush (ht i)
  · have hnone : (flushes t Finset.univ.toList ++ deliveries n).filterMap sighting = [] := by
      rw [List.filterMap_eq_nil_iff]
      intro e he
      have hsettle := hsettles e he
      cases e with
      | hook i ctx => exact hsettle.elim
      | tick i t => rfl
      | deliver n => rfl
      | informer e => exact hsettle.elim
    rw [List.filterMap_append, hnone, List.append_nil]

end Deployment
