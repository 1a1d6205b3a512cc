/-
# What a scrape exposes

`Collect` sends a constant metric for every counter, with the counter as a
`float64` and the namespace and the name of the pod as labels.  Here is the loop
with the arguments from which the library makes the metrics, and what somebody
who scrapes the server twice can tell from them.

No two metrics of a scrape have the same labels, and every value is the `float64`
nearest to its counter.  From one scrape to a later one a value never goes down
and grows by the bytes attributed to the pod in between: exactly up to `2 ^ 53`,
and beyond up to a `2 ^ 53`-th part of the two counters (`scrape_increase`).
-/
import Kubezonnet.Pipeline
import Kubezonnet.Rounding
import Kubezonnet.ServerCalls

open Critical Payload

namespace Server

/-! ## Translation -/

/-- The arguments of a call of `prometheus.NewDesc`. -/
structure NewDescArgs : Type where
  fqName : String
  help : String
  variableLabels : List String
  constLabels : GoMap String String
  deriving DecidableEq

/-- The `prometheus.ValueType` that the server uses. -/
inductive ValueType : Type where
  | counterValue : ValueType
  deriving DecidableEq

/-- The arguments of a call of `prometheus.MustNewConstMetric`, with the description
as it was made.  Every value the server passes is a natural number. -/
structure MustNewConstMetricArgs : Type where
  desc : NewDescArgs
  valueType : ValueType
  value : ℕ
  labelValues : List String
  deriving DecidableEq

/-- `desc`. -/
def desc : NewDescArgs where
  fqName := "pod_cross_zone_network_traffic_bytes_total"
  help := "The amount of cross-zone traffic the pod caused"
  variableLabels := ["namespace", "pod"]
  constLabels := ∅

/-- `Describe`, with what it sends. -/
def describe : List NewDescArgs := [desc]

/-- The conversion of a counter to a `float64`, which has 53 significant bits. -/
def float64 (traffic : UInt64) : ℕ := Rounding.round 53 traffic.toNat

/-- One iteration of the loop of `Collect`. -/
def sendMetric (s : State) (sent : List MustNewConstMetricArgs) (pod : PodKey) :
    List MustNewConstMetricArgs :=
  match s.statistics.lookup pod with
  | some traffic =>
      sent ++ [
        { desc := desc
          valueType := .counterValue
          value := float64 traffic
          labelValues := [pod.nspace, pod.name] }]
  | none => sent

/-- `Collect`, with the arguments of the metrics that it sends, for a `range` loop
in some order. -/
def scrape (order : RangeOrder PodKey UInt64) (s : State) : List MustNewConstMetricArgs :=
  (order.keys s.statistics).foldl (sendMetric s) []

/-- The value that a scrape has for a pod, zero when there is none. -/
def sample (metrics : List MustNewConstMetricArgs) (k : PodKey) : ℕ :=
  ((metrics.find? fun m => m.labelValues = [k.nspace, k.name]).map
    MustNewConstMetricArgs.value).getD 0

/-! ## The metrics -/

/-- The metric of a counter. -/
def constMetric (counter : PodKey × UInt64) : MustNewConstMetricArgs :=
  ⟨desc, .counterValue, float64 counter.2, [counter.1.nspace, counter.1.name]⟩

/-- The labels tell the keys apart. -/
theorem labelValues_inj {k k' : PodKey} : [k.nspace, k.name] = [k'.nspace, k'.name] ↔ k = k' := by
  rw [PodKey.mk.injEq]
  simp

/-- The counters in the order of the loop. -/
def countersIn (order : RangeOrder PodKey UInt64) (s : State) : List (PodKey × UInt64) :=
  (order.keys s.statistics).filterMap fun pod =>
    (s.statistics.lookup pod).map fun traffic => (pod, traffic)

theorem mem_countersIn {order : RangeOrder PodKey UInt64} {s : State} {k : PodKey}
    {traffic : UInt64} : (k, traffic) ∈ countersIn order s ↔ s.statistics.lookup k = some traffic := by
  rw [← mem_collect, ← coe_metrics order, Multiset.mem_coe, countersIn]

/-- `Collect` sends the metrics of the counters that the call with its steps on the
mutex reads. -/
theorem scrape_eq (order : RangeOrder PodKey UInt64) (s : State) :
    scrape order s = (countersIn order s).map constMetric
      ∧ (Locked.collect order).exec s = (.metrics (countersIn order s), s) := by
  have hloop : ∀ (pods : List PodKey) (sent : List MustNewConstMetricArgs),
      pods.foldl (sendMetric s) sent = sent ++ (pods.filterMap fun pod =>
        (s.statistics.lookup pod).map fun traffic => (pod, traffic)).map constMetric := by
    intro pods
    induction pods with
    | nil => exact fun sent => (List.append_nil sent).symm
    | cons pod pods ih =>
        intro sent
        rw [List.foldl_cons, ih, sendMetric, List.filterMap_cons]
        cases s.statistics.lookup pod with
        | some traffic => exact List.append_assoc sent [constMetric (pod, traffic)] _
        | none => rfl
  exact ⟨hloop _ [], exec_collect order s⟩

/-- No two metrics of a scrape have the same labels. -/
theorem nodup_labelValues (order : RangeOrder PodKey UInt64) (s : State) :
    ((scrape order s).map MustNewConstMetricArgs.labelValues).Nodup := by
  have hkeys : List.Sublist ((countersIn order s).map Prod.fst) (order.keys s.statistics) := by
    unfold countersIn
    generalize order.keys s.statistics = pods
    induction pods with
    | nil => exact List.Sublist.refl []
    | cons pod pods ih =>
        rw [List.filterMap_cons]
        cases s.statistics.lookup pod with
        | none => exact ih.trans (List.sublist_cons_self pod pods)
        | some traffic => exact ih.cons_cons pod
  rw [(scrape_eq order s).1, List.map_map]
  have hlabels : MustNewConstMetricArgs.labelValues ∘ constMetric
      = (fun k : PodKey => [k.nspace, k.name]) ∘ Prod.fst := rfl
  rw [hlabels, ← List.map_map]
  exact (hkeys.nodup (order.nodup _)).map fun k k' heq => labelValues_inj.1 heq

/-- A scrape has the `float64` of every counter, and zero for the others. -/
theorem sample_eq (order : RangeOrder PodKey UInt64) (s : State) (k : PodKey) :
    sample (scrape order s) k = float64 ((s.statistics.lookup k).getD 0) := by
  rw [(scrape_eq order s).1, sample]
  cases hfind : ((countersIn order s).map constMetric).find?
      fun m => m.labelValues = [k.nspace, k.name] with
  | some m =>
      obtain ⟨⟨k', traffic⟩, hmem, rfl⟩ := List.mem_map.1 (List.mem_of_find?_eq_some hfind)
      have hlabels := List.find?_some hfind
      have hk : k' = k := labelValues_inj.1 (of_decide_eq_true hlabels)
      rw [mem_countersIn, hk] at hmem
      rw [hmem]
      rfl
  | none =>
      have hnone : s.statistics.lookup k = none := by
        rw [Option.eq_none_iff_forall_ne_some]
        intro traffic htraffic
        have hcounter : (k, traffic) ∈ countersIn order s := mem_countersIn.2 htraffic
        have hmem := List.mem_map_of_mem (f := constMetric) hcounter
        exact List.find?_eq_none.1 hfind _ hmem (decide_eq_true rfl)
      rw [hnone]
      rfl

/-! ## Two scrapes -/

/-- Main result: between two scrapes, in whatever orders the loops go over the
map, the label values of a scrape are distinct, and its metrics are as announced
and have a value for every label, with the `float64` nearest to the counter.  For
a pod that is not deleted in between, and whose counter has room, the value does
not go down; it grows by the bytes attributed to the pod, exactly as long as the
counter is at most `2 ^ 53`, and otherwise up to a `2 ^ 53`-th part of the two
counters. -/
theorem scrape_increase (es es' : List Event) (order order' : RangeOrder PodKey UInt64) :
    ∃ s s', run es = some s ∧ run (es ++ es') = some s'
      ∧ ((scrape order s).map MustNewConstMetricArgs.labelValues).Nodup
      ∧ (∀ m ∈ scrape order s, m.desc ∈ describe ∧ m.valueType = .counterValue
          ∧ m.labelValues.length = m.desc.variableLabels.length)
      ∧ ∀ k,
        let before := ((s.statistics.lookup k).getD 0).toNat
        let grown := Runs.total State.next (State.bytesAttributed k) s es'
        Rounding.Representable 53 (sample (scrape order s) k)
        ∧ (∀ value, Rounding.Representable 53 value →
            Nat.dist before (sample (scrape order s) k) ≤ Nat.dist before value)
        ∧ ((∀ e ∈ es', ∀ pod, e.action = .unregister pod → podKey pod ≠ k) →
          before + grown < 2 ^ 64 →
            sample (scrape order s) k ≤ sample (scrape order' s') k
            ∧ (before + grown ≤ 2 ^ 53 →
                sample (scrape order' s') k = sample (scrape order s) k + grown)
            ∧ 2 ^ 53 * Nat.dist (sample (scrape order' s') k) (sample (scrape order s) k + grown)
                ≤ before + (before + grown)) := by
  have hrun : run (es ++ es')
      = some (Runs.run State.next (Runs.run State.next State.empty es) es') := by
    rw [run_eq, Runs.run_append]
  refine ⟨_, _, run_eq es, hrun, nodup_labelValues order _, fun m hm => ?_, fun k => ?_⟩
  · rw [(scrape_eq order _).1] at hm
    obtain ⟨counter, -, rfl⟩ := List.mem_map.1 hm
    exact ⟨List.mem_singleton_self desc, rfl, rfl⟩
  · generalize Runs.run State.next State.empty es = s
    intro before grown
    rw [sample_eq, sample_eq]
    refine ⟨Rounding.representable_round (by decide) before,
      fun value hvalue => Rounding.round_nearest (by decide) hvalue, fun hk hroom => ?_⟩
    have hafter : float64 (((Runs.run State.next s es').statistics.lookup k).getD 0)
        = Rounding.round 53 (before + grown) := by
      rw [counter_run hk, float64, UInt64.toNat_add, UInt64.toNat_ofNat', Nat.add_mod_mod,
        Nat.mod_eq_of_lt hroom]
    rw [hafter]
    show Rounding.round 53 before ≤ _ ∧ (_ → _ = Rounding.round 53 before + grown)
      ∧ 2 ^ 53 * Nat.dist _ (Rounding.round 53 before + grown) ≤ _
    refine ⟨Rounding.round_mono (by decide) (Nat.le_add_right before grown), fun hsmall => ?_, ?_⟩
    · rw [Rounding.round_of_le (by decide) hsmall, Rounding.round_of_le (by decide) (by omega)]
    · -- both roundings may lose
      have hbefore := Rounding.dist_round_le (p := 53) (by decide) before
      have hlater := Rounding.dist_round_le (p := 53) (by decide) (before + grown)
      have htriangle : Nat.dist (Rounding.round 53 (before + grown)) (Rounding.round 53 before + grown)
          ≤ Nat.dist (before + grown) (Rounding.round 53 (before + grown))
            + Nat.dist before (Rounding.round 53 before) := by
        unfold Nat.dist
        omega
      calc 2 ^ 53 * Nat.dist (Rounding.round 53 (before + grown)) (Rounding.round 53 before + grown)
          ≤ 2 ^ 53 * (Nat.dist (before + grown) (Rounding.round 53 (before + grown))
              + Nat.dist before (Rounding.round 53 before)) := Nat.mul_le_mul_left _ htriangle
        _ = 2 ^ 53 * Nat.dist (before + grown) (Rounding.round 53 (before + grown))
              + 2 ^ 53 * Nat.dist before (Rounding.round 53 before) := Nat.mul_add _ _ _
        _ ≤ before + (before + grown) := by omega

/-- Three bytes more in a counter above `2 ^ 53`, and 500 in one below, by two
scrapes that go over the map in opposite orders. -/
theorem scrape_increase_two_counters :
    let zone : String → GoMap String String := fun z =>
      (∅ : GoMap String String).insert "topology.kubernetes.io/zone" z
    let a : Kube.Pod := ⟨"default", "a", "n1", "192.168.0.1", ["10.0.0.1"]⟩
    let b : Kube.Pod := ⟨"default", "b", "n2", "192.168.0.2", ["10.0.1.1"]⟩
    let es : List Event := [.nodeAdd (.node ⟨"n1", zone "x"⟩), .nodeAdd (.node ⟨"n2", zone "y"⟩),
      .podAdd (.pod a), .podAdd (.pod b),
      .payload [⟨0x0A000001, 0x0A000101, 40000, 80, .ofNat (2 ^ 53 + 1)⟩,
        ⟨0x0A000101, 0x0A000001, 80, 40000, 1500⟩]]
    let es' : List Event := [.payload [⟨0x0A000001, 0x0A000101, 40000, 80, 3⟩],
      .payload [⟨0x0A000101, 0x0A000001, 80, 40000, 500⟩]]
    let order : RangeOrder PodKey UInt64 := default
    ∃ s s', run es = some s ∧ run (es ++ es') = some s'
      ∧ sample (scrape order s) (podKey a) = 2 ^ 53
      ∧ sample (scrape order.reverse s') (podKey a) = 2 ^ 53 + 4
      ∧ 2 ^ 53 * Nat.dist (sample (scrape order.reverse s') (podKey a))
            (sample (scrape order s) (podKey a) + 3) ≤ (2 ^ 53 + 1) + (2 ^ 53 + 1 + 3)
      ∧ sample (scrape order s) (podKey b) = 1500
      ∧ sample (scrape order.reverse s') (podKey b) = 2000 := by
  intro zone a b es es' order
  obtain ⟨s, s', hs, hs', -, -, hsamples⟩ := scrape_increase es es' order order.reverse
  obtain rfl := eq_of_run hs
  obtain rfl := eq_of_run hs'
  have hkept : ∀ k, ∀ e ∈ es', ∀ pod, e.action = .unregister pod → podKey pod ≠ k := by
    intro k e he pod hpod
    simp only [es', List.mem_cons, List.not_mem_nil, or_false] at he
    rcases he with rfl | rfl <;> cases hpod
  have hbefore : (((Runs.run State.next State.empty es).statistics.lookup (podKey a)).getD 0).toNat
      = 2 ^ 53 + 1 := by decide
  have hgrown : Runs.total State.next (State.bytesAttributed (podKey a))
      (Runs.run State.next State.empty es) es' = 3 := by decide
  obtain ⟨-, -, hincrease⟩ := hsamples (podKey a)
  obtain ⟨-, -, hbound⟩ := hincrease (hkept _) (by decide)
  obtain ⟨-, -, hincrease'⟩ := hsamples (podKey b)
  obtain ⟨-, hexact, -⟩ := hincrease' (hkept _) (by decide)
  rw [hbefore, hgrown] at hbound
  have hfirst : sample (scrape order (Runs.run State.next State.empty es)) (podKey b) = 1500 := by
    rw [sample_eq]
    decide
  refine ⟨_, _, hs, hs', ?_, ?_, hbound, hfirst, ?_⟩
  · rw [sample_eq]
    decide
  · rw [sample_eq]
    decide
  · rw [hexact (by decide), hfirst]
    decide

end Server
