/-
# The life of a series

`Collect` emits one series for every key of the statistics.  A key gets there
only when an entry is attributed to it, and what an entry is attributed to is a
pod that is known or a node that has a zone (`resolve_cases`), whatever
addresses the indexes still map to it.

* `podSeries_gone`: every series belongs to a known pod or to a node, and the
  series of a deleted pod stays away until the pod is added again;
* `nodeSeries_gone_iff`: `onNodeDelete` does not touch the statistics, so the
  series of a deleted node stays away only if there was none.
-/
import Kubezonnet.ServerActions

open Kube Payload

namespace Server

/-! ## Series -/

/-- A scrape emits a series for the key. -/
def State.Emits (s : State) (k : PodKey) : Prop := ∃ traffic, (k, traffic) ∈ collect s

/-- The series are the keys of the statistics. -/
theorem emits_iff {s : State} {k : PodKey} : s.Emits k ↔ k ∈ s.statistics := by
  unfold State.Emits collect
  rw [Finmap.mem_iff]
  apply exists_congr
  intro traffic
  rw [Multiset.mem_map, Finmap.lookup_eq_some_iff]
  constructor
  · rintro ⟨⟨k', traffic'⟩, hmem, heq⟩
    obtain ⟨rfl, rfl⟩ := Prod.mk.inj heq
    exact hmem
  · exact fun hmem => ⟨⟨k, traffic⟩, hmem, rfl⟩

/-- The event adds or updates the pod with the key. -/
def Event.AddsPod (k : PodKey) : Event → Prop
  | .podAdd (.pod pod) | .podUpdate _ (.pod pod) => podKey pod = k
  | _ => False

/-- The event adds or updates the node. -/
def Event.SetsNode (name : String) : Event → Prop
  | .nodeAdd (.node node) | .nodeUpdate _ (.node node) => node.name = name
  | _ => False

/-! ## What an entry is attributed to -/

/-- The source of an attributed entry resolves to the key. -/
theorem resolve_of_attribution {s : State} {entry : Entry} {k : PodKey}
    (h : s.attribution entry = some k) : ∃ zone, s.resolve entry.srcIP = some (k, zone) := by
  unfold State.attribution at h
  cases hsrc : s.resolve entry.srcIP with
  | none => simp [hsrc] at h
  | some src =>
      cases hdst : s.resolve entry.dstIP with
      | none => simp [hsrc, hdst] at h
      | some dst =>
          simp only [hsrc, hdst] at h
          split_ifs at h
          obtain rfl : src.1 = k := Option.some.inj h
          exact ⟨src.2, rfl⟩

/-- Accounting for an entry adds at most the series the entry is attributed to. -/
theorem mem_statistics_account {s : State} {entry : Entry} {k : PodKey} :
    k ∈ (s.account entry).statistics ↔ k ∈ s.statistics ∨ s.attribution entry = some k := by
  unfold State.account
  cases s.attribution entry with
  | none => simp
  | some k' =>
      show k ∈ Finmap.insert k' _ s.statistics ↔ _
      rw [Finmap.mem_insert, Option.some.injEq, or_comm, eq_comm]

/-- A payload adds the series that its entries are attributed to. -/
theorem mem_statistics_report {s : State} {data : List Entry} {k : PodKey} :
    k ∈ (s.act (.report data)).statistics
      ↔ k ∈ s.statistics ∨ ∃ entry ∈ data, s.attribution entry = some k := by
  rw [act_report]
  induction data generalizing s with
  | nil => simp
  | cons entry data ih =>
      rw [Runs.run_cons, ih, mem_statistics_account, attribution_account, or_assoc]
      simp only [List.mem_cons, exists_eq_or_imp]

/-! ## What a step can do -/

/-- The events that the actions come from. -/
theorem Event.action_cases (e : Event) :
    (∃ pod, e.action = .register pod ∧ e.AddsPod (podKey pod))
      ∨ (∃ pod, e.action = .unregister pod)
      ∨ (∃ node zone, e.action = .setZone node zone ∧ e.SetsNode node)
      ∨ (∃ node, e.action = .dropNode node)
      ∨ (∃ data, e.action = .report data ∧ e = .payload data)
      ∨ e.action = .ignore := by
  by_cases hignore : e.action = .ignore
  · exact Or.inr (Or.inr (Or.inr (Or.inr (Or.inr hignore))))
  · -- any other event carries an object of its own type
    rcases e with obj | ⟨_, obj⟩ | obj | obj | ⟨_, obj⟩ | obj | data
    · rcases obj with pod | node | _
      · exact Or.inl ⟨pod, rfl, rfl⟩
      · exact absurd rfl hignore
      · exact absurd rfl hignore
    · rcases obj with pod | node | _
      · exact Or.inl ⟨pod, rfl, rfl⟩
      · exact absurd rfl hignore
      · exact absurd rfl hignore
    · rcases obj with pod | node | _
      · exact Or.inr (Or.inl ⟨pod, rfl⟩)
      · exact absurd rfl hignore
      · exact absurd rfl hignore
    · rcases obj with pod | node | _
      · exact absurd rfl hignore
      · exact Or.inr (Or.inr (Or.inl ⟨_, _, rfl, rfl⟩))
      · exact absurd rfl hignore
    · rcases obj with pod | node | _
      · exact absurd rfl hignore
      · exact Or.inr (Or.inr (Or.inl ⟨_, _, rfl, rfl⟩))
      · exact absurd rfl hignore
    · rcases obj with pod | node | _
      · exact absurd rfl hignore
      · exact Or.inr (Or.inr (Or.inr (Or.inl ⟨_, rfl⟩)))
      · exact absurd rfl hignore
    · exact Or.inr (Or.inr (Or.inr (Or.inr (Or.inl ⟨data, rfl, rfl⟩))))

/-- A pod becomes known only when it is added or updated. -/
theorem mem_podIndex_next {s : State} {e : Event} {k : PodKey} (h : k ∈ (s.next e).podIndex) :
    k ∈ s.podIndex ∨ e.AddsPod k := by
  unfold State.next at h
  rcases e.action_cases with ⟨pod, ha, hadds⟩ | ⟨pod, ha⟩ | ⟨node, zone, ha, -⟩ | ⟨node, ha⟩
    | ⟨data, ha, -⟩ | ha
  · rw [ha, podIndex_register, Finmap.mem_insert] at h
    rcases h with rfl | hmem
    · exact Or.inr hadds
    · exact Or.inl hmem
  · rw [ha, podIndex_unregister, Finmap.mem_erase] at h
    exact Or.inl h.2
  · rw [ha] at h
    exact Or.inl h
  · rw [ha] at h
    exact Or.inl h
  · rw [ha, (report_indexes s data).2.2.1] at h
    exact Or.inl h
  · rw [ha] at h
    exact Or.inl h

/-- A node gets a zone only when it is added or updated. -/
theorem mem_nodeIndex_next {s : State} {e : Event} {name : String}
    (h : name ∈ (s.next e).nodeIndex) : name ∈ s.nodeIndex ∨ e.SetsNode name := by
  unfold State.next at h
  rcases e.action_cases with ⟨pod, ha, -⟩ | ⟨pod, ha⟩ | ⟨node, zone, ha, hsets⟩ | ⟨node, ha⟩
    | ⟨data, ha, -⟩ | ha
  · rw [ha, nodeIndex_register] at h
    exact Or.inl h
  · rw [ha, nodeIndex_unregister] at h
    exact Or.inl h
  · rw [ha] at h
    rcases Finmap.mem_insert.1 h with rfl | hmem
    · exact Or.inr hsets
    · exact Or.inl hmem
  · rw [ha] at h
    exact Or.inl (Finmap.mem_erase.1 h).2
  · rw [ha, (report_indexes s data).2.2.2] at h
    exact Or.inl h
  · rw [ha] at h
    exact Or.inl h

/-- A series appears only when an entry of a payload is attributed to it. -/
theorem mem_statistics_next {s : State} {e : Event} {k : PodKey}
    (h : k ∈ (s.next e).statistics) :
    k ∈ s.statistics ∨ ∃ data, e = .payload data ∧ ∃ entry ∈ data, s.attribution entry = some k := by
  unfold State.next at h
  rcases e.action_cases with ⟨pod, ha, -⟩ | ⟨pod, ha⟩ | ⟨node, zone, ha, -⟩ | ⟨node, ha⟩
    | ⟨data, ha, hdata⟩ | ha
  · rw [ha, statistics_register] at h
    exact Or.inl h
  · rw [ha, statistics_unregister, Finmap.mem_erase] at h
    exact Or.inl h.2
  · rw [ha] at h
    exact Or.inl h
  · rw [ha] at h
    exact Or.inl h
  · rw [ha, mem_statistics_report] at h
    exact h.imp_right fun hattr => ⟨data, hdata, hattr⟩
  · rw [ha] at h
    exact Or.inl h

/-! ## Series of pods -/

/-- Every series belongs to a known pod or to a node. -/
def State.Owned (s : State) : Prop :=
  ∀ k ∈ s.statistics, k ∈ s.podIndex ∨ ∃ node, k = nodeKey node

/-- Nothing is known about the pod, and it has no series. -/
def State.Gone (s : State) (k : PodKey) : Prop := k ∉ s.podIndex ∧ k ∉ s.statistics

/-- An attributed entry belongs to a known pod or to a node. -/
theorem owner_of_attribution {s : State} {entry : Entry} {k : PodKey}
    (h : s.attribution entry = some k) : k ∈ s.podIndex ∨ ∃ node, k = nodeKey node := by
  obtain ⟨zone, hresolve⟩ := resolve_of_attribution h
  rcases resolve_cases hresolve with ⟨-, hpod⟩ | ⟨-, node, -, rfl, -⟩
  · exact Or.inl hpod
  · exact Or.inr ⟨node, rfl⟩

/-- Every action keeps the series owned. -/
theorem State.Owned.act {s : State} (h : s.Owned) (a : Action) : (s.act a).Owned := by
  intro k hk
  cases a with
  | register pod =>
      rw [statistics_register] at hk
      rw [podIndex_register, Finmap.mem_insert]
      rcases h k hk with hpod | hnode
      · exact Or.inl (Or.inr hpod)
      · exact Or.inr hnode
  | unregister pod =>
      -- the pod loses its record and its series together
      rw [statistics_unregister, Finmap.mem_erase] at hk
      rw [podIndex_unregister, Finmap.mem_erase]
      rcases h k hk.2 with hpod | hnode
      · exact Or.inl ⟨hk.1, hpod⟩
      · exact Or.inr hnode
  | setZone node zone => exact h k hk
  | dropNode node => exact h k hk
  | report data =>
      rw [(report_indexes s data).2.2.1]
      rcases mem_statistics_report.1 hk with hk | ⟨entry, -, hattr⟩
      · exact h k hk
      · exact owner_of_attribution hattr
  | ignore => exact h k hk

/-- In every reachable state the series are owned. -/
theorem owned_run (es : List Event) : (Runs.run State.next State.empty es).Owned := by
  refine Runs.run_history (I := fun _ s => State.Owned s) ?_ (fun _ s e h => h.act e.action) es
  intro k hk
  exact absurd hk Finmap.notMem_empty

/-- A deleted pod is gone. -/
theorem gone_unregister (s : State) (pod : Pod) : (s.act (.unregister pod)).Gone (podKey pod) := by
  constructor
  · rw [podIndex_unregister, Finmap.mem_erase]
    exact fun h => h.1 rfl
  · rw [statistics_unregister, Finmap.mem_erase]
    exact fun h => h.1 rfl

/-- A pod that is gone stays so under every event that does not add it. -/
theorem State.Gone.next {s : State} {k : PodKey} (h : s.Gone k) (hk : k.nspace ≠ "_node_")
    {e : Event} (he : ¬ e.AddsPod k) : (s.next e).Gone k := by
  constructor
  · intro hmem
    rcases mem_podIndex_next hmem with hpod | hadds
    · exact h.1 hpod
    · exact he hadds
  · intro hmem
    rcases mem_statistics_next hmem with hseries | ⟨data, -, entry, -, hattr⟩
    · exact h.2 hseries
    · -- stale addresses may still lead to the key, but the pod is not known
      rcases owner_of_attribution hattr with hpod | ⟨node, rfl⟩
      · exact h.1 hpod
      · exact hk rfl

/-- A pod that is gone stays so in every run that does not add it. -/
theorem State.Gone.run {s : State} {k : PodKey} (h : s.Gone k) (hk : k.nspace ≠ "_node_")
    {es : List Event} (hes : ∀ e ∈ es, ¬ e.AddsPod k) : (Runs.run State.next s es).Gone k := by
  induction es generalizing s with
  | nil => exact h
  | cons e es ih =>
      exact ih (h.next hk (hes e List.mem_cons_self)) fun e' he' => hes e' (List.mem_cons_of_mem _ he')

/-- Main result: in every reachable state every key of the statistics is a known
pod or stands for a node, and after the deletion of a pod no events emit a series
for it until the pod is added or updated again. -/
theorem podSeries_gone (es : List Event) :
    ∃ s, run es = some s
      ∧ (∀ k ∈ s.statistics, k ∈ s.podIndex ∨ ∃ node, k = nodeKey node)
      ∧ ∀ pod : Pod, pod.nspace ≠ "_node_" → ∀ es', (∀ e ∈ es', ¬ e.AddsPod (podKey pod)) →
          ∃ s', run (es ++ .podDelete (.pod pod) :: es') = some s' ∧ ¬ s'.Emits (podKey pod) := by
  refine ⟨_, run_eq es, owned_run es, fun pod hpod es' hes' => ⟨_, run_eq _, ?_⟩⟩
  rw [Runs.run_append, Runs.run_cons, emits_iff]
  exact ((gone_unregister _ pod).run hpod hes').2

/-! ## Series of nodes -/

/-- Without a zone for the node, its key is only attributed to a pod of that key. -/
theorem podIpIndex_of_attribution_nodeKey {s : State} {entry : Entry} {name : String}
    (hnode : name ∉ s.nodeIndex) (h : s.attribution entry = some (nodeKey name)) :
    s.podIpIndex.lookup entry.srcIP = some (nodeKey name) := by
  obtain ⟨zone, hresolve⟩ := resolve_of_attribution h
  rcases resolve_cases hresolve with ⟨hip, -⟩ | ⟨-, node, -, heq, hmem⟩
  · exact hip
  · obtain rfl : name = node := congrArg PodKey.name heq
    exact absurd hmem hnode

/-- Main result: the series of a deleted node stays away until the node is added
or updated again if and only if it was not there before the deletion, and no
payload after it has an entry attributed to a pod that goes by the node's key. -/
theorem nodeSeries_gone_iff (es es' : List Event) (node : Node)
    (hes' : ∀ e ∈ es', ¬ e.SetsNode node.name) :
    (∀ pre s, pre <+: es' → run (es ++ .nodeDelete (.node node) :: pre) = some s →
        nodeKey node.name ∉ s.statistics ∧ ¬ s.Emits (nodeKey node.name))
      ↔ (∀ s, run es = some s → nodeKey node.name ∉ s.statistics)
        ∧ ∀ pre data s, pre ++ [.payload data] <+: es' →
          run (es ++ .nodeDelete (.node node) :: pre) = some s → ∀ entry ∈ data,
          s.podIpIndex.lookup entry.srcIP = some (nodeKey node.name) →
          s.attribution entry ≠ some (nodeKey node.name) := by
  have hrun : ∀ pre, run (es ++ .nodeDelete (.node node) :: pre)
      = some (Runs.run State.next
        ((Runs.run State.next State.empty es).next (.nodeDelete (.node node))) pre) := by
    intro pre
    rw [run_eq, Runs.run_append, Runs.run_cons]
  simp only [emits_iff, and_self, hrun, run_eq, Option.some.injEq, forall_eq']
  constructor
  · intro h
    -- the deletion itself leaves the statistics alone
    have hdeleted := h [] _ List.nil_prefix rfl
    refine ⟨hdeleted, ?_⟩
    rintro pre data s hpre rfl entry hentry - hattr
    have hafter := h _ _ hpre rfl
    rw [Runs.run_concat] at hafter
    exact hafter (mem_statistics_report.2 (Or.inr ⟨entry, hentry, hattr⟩))
  · rintro ⟨hbefore, hspared⟩
    -- the node has no zone in any of the states
    have hzones : Runs.Always State.next (fun s => node.name ∉ s.nodeIndex)
        ((Runs.run State.next State.empty es).next (.nodeDelete (.node node))) es' := by
      refine Runs.always_of_step (Q := fun _ => True) (C := fun _ e => ¬ e.SetsNode node.name)
        ?_ ?_ (fun _ _ => trivial) ?_
      · intro s e hs _ he _ hmem
        rcases mem_nodeIndex_next hmem with hold | hsets
        · exact hs hold
        · exact he hsets
      · intro hmem
        exact (Finmap.mem_erase.1 hmem).1 rfl
      · intro pre e hpre
        exact hes' e (hpre.subset (List.mem_append_right _ List.mem_cons_self))
    rintro pre s hpre rfl
    refine Runs.always_of_step (P := fun s => nodeKey node.name ∉ s.statistics)
      (C := fun s e => ∀ data, e = .payload data → ∀ entry ∈ data,
        s.podIpIndex.lookup entry.srcIP = some (nodeKey node.name) →
        s.attribution entry ≠ some (nodeKey node.name)) ?_ hbefore hzones ?_ pre hpre
    · intro s e hs hnode he _ hmem
      rcases mem_statistics_next hmem with hold | ⟨data, hdata, entry, hentry, hattr⟩
      · exact hs hold
      · exact he data hdata entry hentry (podIpIndex_of_attribution_nodeKey hnode hattr) hattr
    · rintro pre' e hpre' data rfl
      exact hspared pre' data _ hpre' rfl

/-- Traffic of a host-network pod of a node, and then the deletion of the node: the
series of the node is still emitted. -/
theorem nodeSeries_outlives_node :
    let zone : String → GoMap String String := fun z =>
      (∅ : GoMap String String).insert "topology.kubernetes.io/zone" z
    let node : Node := ⟨"n1", zone "x"⟩
    let proxy : Pod := ⟨"kube-system", "proxy", "n1", "192.168.0.1", ["192.168.0.1"]⟩
    let web : Pod := ⟨"default", "web", "n2", "192.168.0.2", ["10.0.1.1"]⟩
    let es : List Event := [.nodeAdd (.node node), .nodeAdd (.node ⟨"n2", zone "y"⟩),
      .podAdd (.pod proxy), .podAdd (.pod web),
      .payload [⟨0xC0A80001, 0x0A000101, 40000, 80, 1500⟩]]
    ∃ s, run (es ++ [.nodeDelete (.node node)]) = some s ∧ nodeKey "n1" ∈ s.statistics
      ∧ s.Emits (nodeKey "n1") := by
  intro zone node proxy web es
  have hseries : nodeKey "n1" ∈
      (Runs.run State.next State.empty (es ++ [.nodeDelete (.node node)])).statistics := by
    decide
  exact ⟨_, run_eq _, hseries, emits_iff.2 hseries⟩

/-- A node without traffic is deleted, and then its pods are seen again. -/
theorem nodeSeries_gone_iff_no_traffic :
    let node : Node := ⟨"n1", ∅⟩
    let proxy : Pod := ⟨"kube-system", "proxy", "n1", "192.168.0.1", ["192.168.0.1"]⟩
    let es : List Event := [.nodeAdd (.node node), .podAdd (.pod proxy)]
    let es' : List Event := [.podUpdate (.pod proxy) (.pod proxy),
      .payload [⟨0xC0A80001, 0xC0A80001, 40000, 80, 1500⟩]]
    (∀ pre s, pre <+: es' → run (es ++ .nodeDelete (.node node) :: pre) = some s →
        nodeKey node.name ∉ s.statistics ∧ ¬ s.Emits (nodeKey node.name))
      ↔ (∀ s, run es = some s → nodeKey node.name ∉ s.statistics)
        ∧ ∀ pre data s, pre ++ [.payload data] <+: es' →
          run (es ++ .nodeDelete (.node node) :: pre) = some s → ∀ entry ∈ data,
          s.podIpIndex.lookup entry.srcIP = some (nodeKey node.name) →
          s.attribution entry ≠ some (nodeKey node.name) := by
  intro node proxy es es'
  apply nodeSeries_gone_iff es es' node
  intro e he hsets
  rcases List.mem_cons.1 he with rfl | he
  · exact hsets
  · rw [List.mem_singleton.1 he] at hsets
    exact hsets

end Server
