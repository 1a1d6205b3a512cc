/-
# What an event does to the server

Every event is one of five actions on the state, or none: registering a pod,
unregistering a pod, setting the zone of a node, dropping a node, or accounting
for reported entries.  `step_eq` says that the handlers never panic and that a
handler does exactly its action; after it no proof looks at a handler again.

The sections below say for each index what a lookup gives after an action.
`resolve` is what the two nested lookups of `handlePayload` come to, and
`attribution` the key an entry is accounted to.
-/
import Kubezonnet.Runs
import Kubezonnet.ServerState

open IpWord Payload Kube

namespace Server

/-! ## Parsing without a panic -/

/-- `handlePod` and `onPodDelete` find the host address without a panic. -/
theorem parseHostIP_eq (pod : Pod) : parseHostIP pod = some pod.hostWord := by
  unfold parseHostIP Pod.hostWord ipToUint32
  by_cases h : pod.hostIP = ""
  · -- no host address is parsed, and the empty string would not parse either
    have hempty : ipv4Word "" = none := by decide
    rw [if_neg (by simpa using h), h, hempty]
    rfl
  · rw [if_pos h, guardedWord_eq]
    rfl

/-- `handlePod` collects the pod's IPv4 addresses without a panic. -/
theorem parsePodIPs_eq (podIPs : List String) (ips : List UInt32) :
    parsePodIPs podIPs ips = some (ips ++ podIPs.filterMap ipv4Word) := by
  induction podIPs generalizing ips with
  | nil => rw [parsePodIPs, List.filterMap_nil, List.append_nil]
  | cons podIP podIPs ih =>
      rw [parsePodIPs, ipToUint32, guardedWord_eq, Option.bind_eq_bind, Option.bind_some]
      cases hw : ipv4Word podIP with
      | none =>
          rw [List.filterMap_cons_none hw]
          exact ih ips
      | some ip =>
          rw [List.filterMap_cons_some hw, List.append_cons]
          exact ih (ips ++ [ip])

/-! ## Actions -/

/-- What an event asks of the state. -/
inductive Action : Type where
  | register (pod : Pod) : Action
  | unregister (pod : Pod) : Action
  | setZone (node zone : String) : Action
  | dropNode (node : String) : Action
  | report (data : List Entry) : Action
  | ignore : Action

/-- The action of an event.  A handler ignores an object of another type. -/
def Event.action : Event → Action
  | .podAdd (.pod pod) => .register pod
  | .podUpdate _ (.pod pod) => .register pod
  | .podDelete (.pod pod) => .unregister pod
  | .nodeAdd (.node node) => .setZone node.name (zoneOf node)
  | .nodeUpdate _ (.node node) => .setZone node.name (zoneOf node)
  | .nodeDelete (.node node) => .dropNode node.name
  | .payload data => .report data
  | _ => .ignore

/-- The addresses recorded for a pod, empty when the pod is not known. -/
def State.recorded (s : State) (k : PodKey) : List UInt32 :=
  match s.podIndex.lookup k with
  | some info => info.ips
  | none => []

/-- The state after an action. -/
def State.act (s : State) : Action → State
  | .register pod =>
      pod.words.foldl (indexIP pod pod.hostWord)
        { s with podIndex := s.podIndex.insert (podKey pod) ⟨pod.nodeName, pod.words⟩ }
  | .unregister pod =>
      { s with
        podIpIndex := (s.recorded (podKey pod)).foldl (unindexIP pod.hostWord) s.podIpIndex
        podIndex := s.podIndex.erase (podKey pod)
        statistics := s.statistics.erase (podKey pod) }
  | .setZone node zone => { s with nodeIndex := s.nodeIndex.insert node zone }
  | .dropNode node =>
      { s with
        nodeIpIndex := GoMap.deleteWhere s.nodeIpIndex fun _ nodeName => nodeName = node
        nodeIndex := s.nodeIndex.erase node }
  | .report data => (handleEntries data s []).1
  | .ignore => s

/-- Deleting a key that a map does not have changes nothing. -/
theorem erase_of_lookup_eq_none {K V : Type} [DecidableEq K] {m : GoMap K V} {k : K}
    (h : m.lookup k = none) : m.erase k = m := by
  apply Finmap.ext_lookup
  intro k'
  rw [GoMap.lookup_erase_ite]
  split_ifs with hk
  · rw [hk, h]
  · rfl

/-- The state after an event. -/
def State.next (s : State) (e : Event) : State := s.act e.action

/-- The handlers never panic, and do what the action of the event says. -/
theorem step_eq (s : State) (e : Event) : step s e = some (s.next e) := by
  have hpod : ∀ pod : Pod, handlePod (.pod pod) s = some (s.act (.register pod)) := by
    intro pod
    simp only [handlePod, parseHostIP_eq, parsePodIPs_eq, Option.bind_eq_bind, Option.bind_some,
      List.nil_append, State.act, Pod.words]
  have hdelete : ∀ pod : Pod, onPodDelete (.pod pod) s = some (s.act (.unregister pod)) := by
    intro pod
    simp only [onPodDelete, parseHostIP_eq, Option.bind_eq_bind, Option.bind_some, State.act,
      State.recorded]
    cases hinfo : s.podIndex.lookup (podKey pod) with
    | some info => rfl
    | none =>
        -- the key is deleted from the index although it is not there
        simp only [erase_of_lookup_eq_none hinfo, List.foldl_nil]
  cases e with
  | podAdd obj => cases obj with
    | pod pod => exact hpod pod
    | node node => rfl
    | deletedFinalStateUnknown key obj => rfl
  | podUpdate oldObj newObj => cases newObj with
    | pod pod => exact hpod pod
    | node node => rfl
    | deletedFinalStateUnknown key obj => rfl
  | podDelete obj => cases obj with
    | pod pod => exact hdelete pod
    | node node => rfl
    | deletedFinalStateUnknown key obj => rfl
  | nodeAdd obj => cases obj <;> rfl
  | nodeUpdate oldObj newObj => cases newObj <;> rfl
  | nodeDelete obj => cases obj <;> rfl
  | payload data => rfl

/-- A run of the server never panics. -/
theorem run_eq (es : List Event) : run es = some (Runs.run State.next State.empty es) := by
  have hrun : ∀ s, es.foldlM step s = some (Runs.run State.next s es) := by
    induction es with
    | nil => exact fun s => rfl
    | cons e es ih =>
        intro s
        rw [List.foldlM_cons, step_eq, Option.bind_eq_bind, Option.bind_some, ih, Runs.run_cons]
  exact hrun State.empty

theorem eq_of_run {es : List Event} {s : State} (h : run es = some s) :
    Runs.run State.next State.empty es = s :=
  Option.some.inj ((run_eq es).symm.trans h)

theorem run_concat_eq (es : List Event) (e : Event) :
    run (es ++ [e]) = some ((Runs.run State.next State.empty es).next e) := by
  rw [run_eq, Runs.run_concat]

/-! ## Registering a pod -/

/-- The loop of `handlePod` changes only the two address indexes. -/
theorem foldl_indexIP_other (pod : Pod) (hostIP : UInt32) (ips : List UInt32) (s : State) :
    (ips.foldl (indexIP pod hostIP) s).podIndex = s.podIndex
      ∧ (ips.foldl (indexIP pod hostIP) s).nodeIndex = s.nodeIndex
      ∧ (ips.foldl (indexIP pod hostIP) s).statistics = s.statistics := by
  induction ips generalizing s with
  | nil => exact ⟨rfl, rfl, rfl⟩
  | cons ip ips ih =>
      obtain ⟨h1, h2, h3⟩ := ih (indexIP pod hostIP s ip)
      rw [List.foldl_cons, h1, h2, h3]
      unfold indexIP
      split_ifs <;> exact ⟨rfl, rfl, rfl⟩

/-- One iteration of that loop files one address. -/
theorem lookup_indexIP (pod : Pod) (s : State) (x ip : UInt32) :
    (indexIP pod pod.hostWord s x).podIpIndex.lookup ip
        = (if ip = x ∧ ¬ pod.IsHost ip then some (podKey pod) else s.podIpIndex.lookup ip)
      ∧ (indexIP pod pod.hostWord s x).nodeIpIndex.lookup ip
        = (if ip = x ∧ pod.IsHost ip then some pod.nodeName else s.nodeIpIndex.lookup ip) := by
  have hx : indexIP pod pod.hostWord s x
      = if pod.IsHost x then { s with nodeIpIndex := s.nodeIpIndex.insert x pod.nodeName }
        else { s with podIpIndex := s.podIpIndex.insert x (podKey pod) } := rfl
  rw [hx]
  -- only the index that the address goes to changes, and only at this address
  by_cases heq : ip = x
  · subst heq
    by_cases hhost : pod.IsHost ip <;> simp [hhost]
  · by_cases hhost : pod.IsHost x
    · simp [hhost, heq]
    · simp [hhost, heq]

/-- The loop of `handlePod` files every listed address under the pod or, if it
is the host address, under the node. -/
theorem lookup_foldl_indexIP (pod : Pod) (ips : List UInt32) (s : State) (ip : UInt32) :
    (ips.foldl (indexIP pod pod.hostWord) s).podIpIndex.lookup ip
        = (if ip ∈ ips ∧ ¬ pod.IsHost ip then some (podKey pod) else s.podIpIndex.lookup ip)
      ∧ (ips.foldl (indexIP pod pod.hostWord) s).nodeIpIndex.lookup ip
        = (if ip ∈ ips ∧ pod.IsHost ip then some pod.nodeName else s.nodeIpIndex.lookup ip) := by
  induction ips generalizing s with
  | nil => simp
  | cons x ips ih =>
      obtain ⟨hpod, hnode⟩ := ih (indexIP pod pod.hostWord s x)
      obtain ⟨hpodx, hnodex⟩ := lookup_indexIP pod s x ip
      rw [List.foldl_cons, hpod, hnode, hpodx, hnodex]
      -- a later occurrence of the address files it as the first one does
      by_cases hmem : ip ∈ ips
      · by_cases hhost : pod.IsHost ip <;> simp [hmem, hhost]
      · by_cases hhost : pod.IsHost ip <;> simp [hmem, hhost]

section Register

variable (s : State) (pod : Pod)

@[simp] theorem podIndex_register :
    (s.act (.register pod)).podIndex
      = s.podIndex.insert (podKey pod) ⟨pod.nodeName, pod.words⟩ :=
  (foldl_indexIP_other pod _ _ _).1

@[simp] theorem nodeIndex_register : (s.act (.register pod)).nodeIndex = s.nodeIndex :=
  (foldl_indexIP_other pod _ _ _).2.1

@[simp] theorem statistics_register : (s.act (.register pod)).statistics = s.statistics :=
  (foldl_indexIP_other pod _ _ _).2.2

/-- A registered pod is found at all of its addresses but the host address. -/
theorem lookup_podIpIndex_register (ip : UInt32) :
    (s.act (.register pod)).podIpIndex.lookup ip
      = if ip ∈ pod.words ∧ ¬ pod.IsHost ip then some (podKey pod) else s.podIpIndex.lookup ip :=
  (lookup_foldl_indexIP pod _ _ ip).1

/-- The node of a registered pod is found at the host address, if the pod lists it. -/
theorem lookup_nodeIpIndex_register (ip : UInt32) :
    (s.act (.register pod)).nodeIpIndex.lookup ip
      = if ip ∈ pod.words ∧ pod.IsHost ip then some pod.nodeName else s.nodeIpIndex.lookup ip :=
  (lookup_foldl_indexIP pod _ _ ip).2

end Register

/-! ## Unregistering a pod -/

/-- The loop of `onPodDelete` removes the recorded addresses but the host address. -/
theorem lookup_foldl_unindexIP (pod : Pod) (ips : List UInt32) (m : GoMap UInt32 PodKey)
    (ip : UInt32) :
    (ips.foldl (unindexIP pod.hostWord) m).lookup ip
      = if ip ∈ ips ∧ ¬ pod.IsHost ip then none else m.lookup ip := by
  induction ips generalizing m with
  | nil => simp
  | cons x ips ih =>
      have hguard : (pod.hostWord = 0 ∨ x ≠ pod.hostWord) ↔ ¬ pod.IsHost x := by
        unfold Pod.IsHost
        tauto
      have hx : (unindexIP pod.hostWord m x).lookup ip
          = if ip = x ∧ ¬ pod.IsHost ip then none else m.lookup ip := by
        rw [unindexIP, if_congr hguard rfl rfl]
        by_cases heq : ip = x
        · subst heq
          by_cases hhost : pod.IsHost ip <;> simp [hhost]
        · by_cases hhost : pod.IsHost x <;> simp [hhost, heq]
      rw [List.foldl_cons, ih, hx]
      by_cases hmem : ip ∈ ips
      · by_cases hhost : pod.IsHost ip <;> simp [hmem, hhost]
      · by_cases hhost : pod.IsHost ip <;> simp [hmem, hhost]

section Unregister

variable (s : State) (pod : Pod)

@[simp] theorem podIndex_unregister :
    (s.act (.unregister pod)).podIndex = s.podIndex.erase (podKey pod) := rfl

@[simp] theorem nodeIpIndex_unregister :
    (s.act (.unregister pod)).nodeIpIndex = s.nodeIpIndex := rfl

@[simp] theorem nodeIndex_unregister :
    (s.act (.unregister pod)).nodeIndex = s.nodeIndex := rfl

@[simp] theorem statistics_unregister :
    (s.act (.unregister pod)).statistics = s.statistics.erase (podKey pod) := rfl

/-- Unregistering a pod removes its recorded addresses from the pod index, but
the address that is the host address of the object at hand. -/
theorem lookup_podIpIndex_unregister (ip : UInt32) :
    (s.act (.unregister pod)).podIpIndex.lookup ip
      = if ip ∈ s.recorded (podKey pod) ∧ ¬ pod.IsHost ip then none
        else s.podIpIndex.lookup ip :=
  lookup_foldl_unindexIP pod (s.recorded (podKey pod)) s.podIpIndex ip

end Unregister

/-! ## Nodes -/

/-- Dropping a node removes the addresses filed under it. -/
theorem lookup_nodeIpIndex_dropNode (s : State) (node : String) (ip : UInt32) :
    (s.act (.dropNode node)).nodeIpIndex.lookup ip
      = if s.nodeIpIndex.lookup ip = some node then none else s.nodeIpIndex.lookup ip := by
  have h := GoMap.lookup_deleteWhere s.nodeIpIndex (fun _ nodeName => nodeName = node) ip
  simp only [State.act, h]
  cases s.nodeIpIndex.lookup ip with
  | none => simp
  | some n => by_cases hn : n = node <;> simp [hn]

/-! ## Resolving an address -/

/-- The key and the zone an address stands for.  The pod index has precedence: a
pod that it names but that is not known, or whose node is not known, is not
looked for among the nodes. -/
def State.resolve (s : State) (ip : UInt32) : Option (PodKey × String) :=
  match s.podIpIndex.lookup ip with
  | some k =>
      match s.podIndex.lookup k with
      | some info => (s.nodeIndex.lookup info.node).map fun zone => (k, zone)
      | none => none
  | none =>
      match s.nodeIpIndex.lookup ip with
      | some node => (s.nodeIndex.lookup node).map fun zone => (nodeKey node, zone)
      | none => none

/-- An address that resolves is that of a known pod or, where the pod index has
nothing, that of a node with a zone. -/
theorem resolve_cases {s : State} {ip : UInt32} {k : PodKey} {zone : String}
    (h : s.resolve ip = some (k, zone)) :
    (s.podIpIndex.lookup ip = some k ∧ k ∈ s.podIndex)
      ∨ (s.podIpIndex.lookup ip = none
        ∧ ∃ node, s.nodeIpIndex.lookup ip = some node ∧ k = nodeKey node ∧ node ∈ s.nodeIndex) := by
  unfold State.resolve at h
  cases hip : s.podIpIndex.lookup ip with
  | some k' =>
      simp only [hip] at h
      cases hinfo : s.podIndex.lookup k' with
      | none => simp [hinfo] at h
      | some info =>
          simp only [hinfo, Option.map_eq_some_iff, Prod.mk.injEq] at h
          obtain ⟨-, -, rfl, -⟩ := h
          exact Or.inl ⟨rfl, Finmap.mem_of_lookup_eq_some hinfo⟩
  | none =>
      simp only [hip] at h
      cases hnode : s.nodeIpIndex.lookup ip with
      | none => simp [hnode] at h
      | some node =>
          simp only [hnode, Option.map_eq_some_iff, Prod.mk.injEq] at h
          obtain ⟨zone', hzone, rfl, -⟩ := h
          exact Or.inr ⟨rfl, node, rfl, rfl, Finmap.mem_of_lookup_eq_some hzone⟩

/-- The key an entry is accounted to: that of its source, if the source and the
destination resolve to different zones. -/
def State.attribution (s : State) (entry : Entry) : Option PodKey :=
  match s.resolve entry.srcIP, s.resolve entry.dstIP with
  | some (k, srcZone), some (_, dstZone) => if srcZone ≠ dstZone then some k else none
  | _, _ => none

/-- The first nested lookup of `handlePayload` resolves the source. -/
theorem sourceOf_eq (s : State) (entry : Entry) : sourceOf s entry = s.resolve entry.srcIP := by
  unfold sourceOf State.resolve
  cases s.podIpIndex.lookup entry.srcIP with
  | some k =>
      cases hinfo : s.podIndex.lookup k with
      | none => simp [hinfo]
      | some info => cases hzone : s.nodeIndex.lookup info.node <;> simp [hinfo, hzone]
  | none =>
      cases hnode : s.nodeIpIndex.lookup entry.srcIP with
      | none => simp
      | some node => cases hzone : s.nodeIndex.lookup node <;> simp [hzone]

/-- The second nested lookup of `handlePayload` resolves the destination. -/
theorem destinationOf_eq (s : State) (entry : Entry) :
    destinationOf s entry = s.resolve entry.dstIP := by
  -- the two lookups differ in the address alone
  show sourceOf s { entry with srcIP := entry.dstIP } = _
  rw [sourceOf_eq]

/-- The state after an entry is accounted for. -/
def State.account (s : State) (entry : Entry) : State :=
  match s.attribution entry with
  | some k => { s with statistics := GoMap.addTo s.statistics k entry.traffic }
  | none => s

/-- An iteration of `handlePayload` accounts for its entry. -/
theorem handleEntry_fst (s : State) (flowLogs : List FlowLog) (entry : Entry) :
    (handleEntry s flowLogs entry).1 = s.account entry := by
  unfold handleEntry State.account State.attribution
  rw [sourceOf_eq, destinationOf_eq]
  cases s.resolve entry.srcIP with
  | none => rfl
  | some src =>
      cases s.resolve entry.dstIP with
      | none => rfl
      | some dst =>
          obtain ⟨k, srcZone⟩ := src
          obtain ⟨k', dstZone⟩ := dst
          by_cases hzone : srcZone = dstZone <;> simp [hzone]

/-- The loop of `handlePayload` accounts for the entries one after another. -/
theorem handleEntries_fst (data : List Entry) (s : State) (flowLogs : List FlowLog) :
    (handleEntries data s flowLogs).1 = Runs.run State.account s data := by
  induction data generalizing s flowLogs with
  | nil => rfl
  | cons entry data ih =>
      rw [handleEntries, Runs.run_cons, ← handleEntry_fst s flowLogs entry]
      exact ih _ _

theorem act_report (s : State) (data : List Entry) :
    s.act (.report data) = Runs.run State.account s data :=
  handleEntries_fst data s []

/-- Accounting for an entry leaves the indexes alone. -/
theorem account_indexes (s : State) (entry : Entry) :
    (s.account entry).podIpIndex = s.podIpIndex
      ∧ (s.account entry).nodeIpIndex = s.nodeIpIndex
      ∧ (s.account entry).podIndex = s.podIndex
      ∧ (s.account entry).nodeIndex = s.nodeIndex := by
  unfold State.account
  cases s.attribution entry <;> exact ⟨rfl, rfl, rfl, rfl⟩

/-- Accounting for an entry changes no attribution. -/
theorem attribution_account (s : State) (entry : Entry) :
    (s.account entry).attribution = s.attribution := by
  obtain ⟨h1, h2, h3, h4⟩ := account_indexes s entry
  have hresolve : (s.account entry).resolve = s.resolve := by
    funext ip
    unfold State.resolve
    rw [h1, h2, h3, h4]
  funext e
  unfold State.attribution
  rw [hresolve]

/-- Accounting for entries leaves the indexes alone. -/
theorem report_indexes (s : State) (data : List Entry) :
    (s.act (.report data)).podIpIndex = s.podIpIndex
      ∧ (s.act (.report data)).nodeIpIndex = s.nodeIpIndex
      ∧ (s.act (.report data)).podIndex = s.podIndex
      ∧ (s.act (.report data)).nodeIndex = s.nodeIndex := by
  rw [act_report]
  refine Runs.run_history (I := fun _ (t : State) => t.podIpIndex = s.podIpIndex
    ∧ t.nodeIpIndex = s.nodeIpIndex ∧ t.podIndex = s.podIndex ∧ t.nodeIndex = s.nodeIndex)
    ⟨rfl, rfl, rfl, rfl⟩ ?_ data
  intro _ t entry h
  obtain ⟨h1, h2, h3, h4⟩ := account_indexes t entry
  rw [h1, h2, h3, h4]
  exact h

end Server
