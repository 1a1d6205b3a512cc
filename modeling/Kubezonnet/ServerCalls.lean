/-
# The calls of the server and its mutex

Informers and HTTP requests call the server from goroutines of their own.  Here
is every handler with its steps on the mutex where `cmd/server/main.go` has
them: what it parses or decodes before it takes the mutex, one step for each
access to a map, and the returns that come before the mutex is taken.

Every call is disciplined (`disciplined_prog`), and between its lock and its
unlock it does what the handler without steps does (`exec_prog`).
-/
import Kubezonnet.CriticalSections
import Kubezonnet.ServerActions

open Critical Critical.Prog Kube Payload

namespace Server

/-! ## Translation -/

/-- The order in which a `range` loop visits the keys of a map. -/
structure RangeOrder (K V : Type) [DecidableEq K] : Type where
  keys : GoMap K V → List K
  nodup : ∀ m, (keys m).Nodup
  mem_keys : ∀ m k, k ∈ keys m ↔ k ∈ m

/-- Every map can be visited in some order. -/
noncomputable instance (K V : Type) [DecidableEq K] : Inhabited (RangeOrder K V) where
  default :=
    { keys := fun m => m.keys.toList
      nodup := fun m => m.keys.nodup_toList
      mem_keys := fun m k => by rw [Finset.mem_toList, Finmap.mem_keys] }

/-- The other way round. -/
def RangeOrder.reverse {K V : Type} [DecidableEq K] (order : RangeOrder K V) : RangeOrder K V where
  keys m := (order.keys m).reverse
  nodup m := List.nodup_reverse.2 (order.nodup m)
  mem_keys m k := by rw [List.mem_reverse, order.mem_keys]

/-- What a call comes to: a handler of an informer returns, a request is answered
and its flow logs are printed, a scrape has sent its metrics, or the call panics. -/
inductive Result : Type where
  | returned : Result
  | response (response : Response) (flowLogs : List FlowLog) : Result
  | metrics (metrics : List (PodKey × UInt64)) : Result
  | panicked : Result

namespace Locked

/-- `handlePod`. -/
def handlePod (obj : Obj) : Prog State Result :=
  match obj with
  | .pod pod =>
      match parseHostIP pod, parsePodIPs pod.podIPs [] with
      | some hostIP, some ips => do
          acquire
          modify fun s =>
            { s with podIndex := s.podIndex.insert (podKey pod) ⟨pod.nodeName, ips⟩ }
          forEach ips fun ip => modify fun s => indexIP pod hostIP s ip
          release
          pure .returned
      | _, _ => pure .panicked
  | _ => pure .returned

/-- The block of `onPodDelete` for a pod that is found. -/
def unindexPod (hostIP : UInt32) (key : PodKey) : Option PodInfo → Prog State Unit
  | some info => do
      forEach info.ips fun ip => modify fun s =>
        { s with podIpIndex := unindexIP hostIP s.podIpIndex ip }
      modify fun s => { s with podIndex := s.podIndex.erase key }
  | none => pure ()

/-- `onPodDelete`. -/
def onPodDelete (obj : Obj) : Prog State Result :=
  match obj with
  | .pod pod =>
      match parseHostIP pod with
      | some hostIP => do
          acquire
          let found ← read fun s => s.podIndex.lookup (podKey pod)
          unindexPod hostIP (podKey pod) found
          modify fun s => { s with statistics := s.statistics.erase (podKey pod) }
          release
          pure .returned
      | none => pure .panicked
  | _ => pure .returned

/-- `onNodeAdd`, and `onNodeUpdate` on the new object. -/
def onNodeAdd (obj : Obj) : Prog State Result :=
  match obj with
  | .node node => do
      acquire
      modify fun s => { s with nodeIndex := s.nodeIndex.insert node.name (zoneOf node) }
      release
      pure .returned
  | _ => pure .returned

/-- One iteration of the loop of `onNodeDelete`. -/
def unindexNodeIP (node : String) (ip : UInt32) : Prog State Unit := do
  let nodeName ← read fun s => s.nodeIpIndex.lookup ip
  if nodeName = some node then
    modify fun s => { s with nodeIpIndex := s.nodeIpIndex.erase ip }
  else pure ()

/-- `onNodeDelete`, with a `range` loop in some order. -/
def onNodeDelete (order : RangeOrder UInt32 String) (obj : Obj) : Prog State Result :=
  match obj with
  | .node node => do
      acquire
      let ips ← read fun s => order.keys s.nodeIpIndex
      forEach ips (unindexNodeIP node.name)
      modify fun s => { s with nodeIndex := s.nodeIndex.erase node.name }
      release
      pure .returned
  | _ => pure .returned

/-- The lookups of `handlePayload` for one of the two addresses of an entry,
`none` where the loop goes on to the next entry. -/
def resolve (ip : UInt32) : Prog State (Option (PodKey × String)) := do
  let foundPod ← read fun s => s.podIpIndex.lookup ip
  match foundPod with
  | some key => do
      let found ← read fun s => s.podIndex.lookup key
      match found with
      | none => pure none
      | some pod => do
          let zone ← read fun s => s.nodeIndex.lookup pod.node
          pure (zone.map fun zone => (key, zone))
  | none => do
      let found ← read fun s => s.nodeIpIndex.lookup ip
      match found with
      | none => pure none
      | some node => do
          let zone ← read fun s => s.nodeIndex.lookup node
          pure (zone.map fun zone => (nodeKey node, zone))

/-- One iteration of the loop of `handlePayload`. -/
def handleEntry (flowLogs : List FlowLog) (entry : Entry) : Prog State (List FlowLog) := do
  let source ← resolve entry.srcIP
  match source with
  | none => pure flowLogs
  | some (sourcePodKey, srcZone) => do
      let destination ← resolve entry.dstIP
      match destination with
      | none => pure flowLogs
      | some (dstPodKey, dstZone) =>
          if srcZone ≠ dstZone then do
            modify fun s =>
              { s with statistics := GoMap.addTo s.statistics sourcePodKey entry.traffic }
            pure (flowLogs ++ [
              { src := sourcePodKey
                srcPort := entry.srcPort.toNat
                dst := dstPodKey
                dstPort := entry.dstPort.toNat
                bytes := entry.traffic.toInt64.toInt }])
          else pure flowLogs

/-- `handlePayload`. -/
def handlePayload (r : Request) : Prog State Result :=
  if r.method ≠ "POST" then pure (.response ⟨405, "Invalid request method"⟩ [])
  else
    match r.body with
    | .error _ => pure (.response ⟨500, "Failed to read request body"⟩ [])
    | .ok body =>
        match decode body with
        | none => pure .panicked
        | some (.error err) =>
            pure (.response ⟨400, "Failed to decode request body: " ++ err⟩ [])
        | some (.ok data) => do
            acquire
            let flowLogs ← data.foldlM handleEntry []
            release
            pure (.response ⟨200, ""⟩ flowLogs)

/-- `Collect`, with a `range` loop in some order. -/
def collect (order : RangeOrder PodKey UInt64) : Prog State Result := do
  acquire
  let pods ← read fun s => order.keys s.statistics
  let metrics ← pods.foldlM (fun metrics pod => do
    let traffic ← read fun s => s.statistics.lookup pod
    pure (metrics ++ (traffic.map fun traffic => (pod, traffic)).toList)) []
  release
  pure (.metrics metrics)

end Locked

/-- A call of the server: by the informer of the pods, by that of the nodes, or by
an HTTP request to one of the two paths. -/
inductive Call : Type where
  | podAdd (obj : Obj) : Call
  | podUpdate (oldObj newObj : Obj) : Call
  | podDelete (obj : Obj) : Call
  | nodeAdd (obj : Obj) : Call
  | nodeUpdate (oldObj newObj : Obj) : Call
  | nodeDelete (order : RangeOrder UInt32 String) (obj : Obj) : Call
  | writeStatistics (r : Request) : Call
  | metrics (order : RangeOrder PodKey UInt64) : Call

/-- What a call does. -/
def Call.prog : Call → Prog State Result
  | .podAdd obj => Locked.handlePod obj
  | .podUpdate _ newObj => Locked.handlePod newObj
  | .podDelete obj => Locked.onPodDelete obj
  | .nodeAdd obj => Locked.onNodeAdd obj
  | .nodeUpdate _ newObj => Locked.onNodeAdd newObj
  | .nodeDelete order obj => Locked.onNodeDelete order obj
  | .writeStatistics r => Locked.handlePayload r
  | .metrics order => Locked.collect order

/-! ## Discipline -/

/-- Goes through the steps of a program that stays inside. -/
theorem goes_resolve (ip : UInt32) : (Locked.resolve ip).Goes .inside .inside := by
  refine goes_bind (goes_read _) fun foundPod => ?_
  cases foundPod with
  | some key =>
      refine goes_bind (goes_read _) fun found => ?_
      cases found with
      | none => exact goes_pure _ _
      | some pod => exact goes_bind (goes_read _) fun zone => goes_pure _ _
  | none =>
      refine goes_bind (goes_read _) fun found => ?_
      cases found with
      | none => exact goes_pure _ _
      | some node => exact goes_bind (goes_read _) fun zone => goes_pure _ _

theorem goes_handleEntry (flowLogs : List FlowLog) (entry : Entry) :
    (Locked.handleEntry flowLogs entry).Goes .inside .inside := by
  refine goes_bind (goes_resolve _) fun source => ?_
  cases source with
  | none => exact goes_pure _ _
  | some src =>
      refine goes_bind (goes_resolve _) fun destination => ?_
      cases destination with
      | none => exact goes_pure _ _
      | some dst => exact goes_ite (goes_bind (goes_modify _) fun _ => goes_pure _ _) (goes_pure _ _)

/-- The end of a critical section. -/
theorem goes_close (result : Result) :
    (do release; pure result : Prog State Result).Goes .inside .after :=
  goes_bind goes_release fun _ => goes_pure _ _

/-- A program that returns at once is disciplined. -/
theorem disciplined_pure (result : Result) : (pure result : Prog State Result).Disciplined :=
  Or.inl ⟨result, rfl⟩

theorem disciplined_handlePod (obj : Obj) : (Locked.handlePod obj).Disciplined := by
  cases obj with
  | pod pod =>
      simp only [Locked.handlePod, parseHostIP_eq, parsePodIPs_eq]
      exact Or.inr (goes_bind goes_acquire fun _ => goes_bind (goes_modify _) fun _ =>
        goes_bind (goes_forEach (fun _ => goes_modify _) _) fun _ => goes_close _)
  | node node => exact disciplined_pure _
  | deletedFinalStateUnknown key obj => exact disciplined_pure _

theorem disciplined_onPodDelete (obj : Obj) : (Locked.onPodDelete obj).Disciplined := by
  cases obj with
  | pod pod =>
      simp only [Locked.onPodDelete, parseHostIP_eq]
      refine Or.inr (goes_bind goes_acquire fun _ => goes_bind (goes_read _) fun found => ?_)
      refine goes_bind (b := .inside) ?_ fun _ => goes_bind (goes_modify _) fun _ => goes_close _
      cases found with
      | none => exact goes_pure _ _
      | some info =>
          exact goes_bind (goes_forEach (fun _ => goes_modify _) _) fun _ => goes_modify _
  | node node => exact disciplined_pure _
  | deletedFinalStateUnknown key obj => exact disciplined_pure _

theorem disciplined_onNodeAdd (obj : Obj) : (Locked.onNodeAdd obj).Disciplined := by
  cases obj with
  | node node =>
      exact Or.inr (goes_bind goes_acquire fun _ => goes_bind (goes_modify _) fun _ => goes_close _)
  | pod pod => exact disciplined_pure _
  | deletedFinalStateUnknown key obj => exact disciplined_pure _

theorem disciplined_onNodeDelete (order : RangeOrder UInt32 String) (obj : Obj) :
    (Locked.onNodeDelete order obj).Disciplined := by
  cases obj with
  | node node =>
      refine Or.inr (goes_bind goes_acquire fun _ => goes_bind (goes_read _) fun ips => ?_)
      refine goes_bind (goes_forEach (fun ip => ?_) ips) fun _ =>
        goes_bind (goes_modify _) fun _ => goes_close _
      exact goes_bind (goes_read _) fun nodeName => goes_ite (goes_modify _) (goes_pure _ _)
  | pod pod => exact disciplined_pure _
  | deletedFinalStateUnknown key obj => exact disciplined_pure _

theorem disciplined_handlePayload (r : Request) : (Locked.handlePayload r).Disciplined := by
  unfold Locked.handlePayload
  split_ifs
  · exact disciplined_pure _
  · rcases r.body with err | body
    · exact disciplined_pure _
    · dsimp only
      rcases decode body with - | err | data
      · exact disciplined_pure _
      · exact disciplined_pure _
      · exact Or.inr (goes_bind goes_acquire fun _ =>
          goes_bind (goes_foldlM goes_handleEntry data []) fun _ => goes_close _)

theorem disciplined_collect (order : RangeOrder PodKey UInt64) :
    (Locked.collect order).Disciplined := by
  refine Or.inr (goes_bind goes_acquire fun _ => goes_bind (goes_read _) fun pods => ?_)
  refine goes_bind (goes_foldlM (fun metrics pod => ?_) pods []) fun _ => goes_close _
  exact goes_bind (goes_read _) fun traffic => goes_pure _ _

/-- No call returns with the mutex, and none works on the state without it. -/
theorem disciplined_prog (c : Call) : c.prog.Disciplined := by
  cases c with
  | podAdd obj => exact disciplined_handlePod obj
  | podUpdate oldObj newObj => exact disciplined_handlePod newObj
  | podDelete obj => exact disciplined_onPodDelete obj
  | nodeAdd obj => exact disciplined_onNodeAdd obj
  | nodeUpdate oldObj newObj => exact disciplined_onNodeAdd newObj
  | nodeDelete order obj => exact disciplined_onNodeDelete order obj
  | writeStatistics r => exact disciplined_handlePayload r
  | metrics order => exact disciplined_collect order

/-! ## What a call does when it is alone -/

/-- The event that a call is to the state, if it works on the state. -/
def Call.event : Call → Option Event
  | .podAdd obj => some (.podAdd obj)
  | .podUpdate oldObj newObj => some (.podUpdate oldObj newObj)
  | .podDelete obj => some (.podDelete obj)
  | .nodeAdd obj => some (.nodeAdd obj)
  | .nodeUpdate oldObj newObj => some (.nodeUpdate oldObj newObj)
  | .nodeDelete _ obj => some (.nodeDelete obj)
  | .writeStatistics r =>
      if r.method ≠ "POST" then none
      else
        match r.body with
        | .error _ => none
        | .ok body =>
            match decode body with
            | some (.ok data) => some (.payload data)
            | _ => none
  | .metrics _ => none

/-- The state after a call. -/
def Call.next (c : Call) (s : State) : State :=
  match c.event with
  | some e => s.next e
  | none => s

/-- The result of a call in a state is that of the handler without steps. -/
def Call.Answers (c : Call) (s : State) (result : Result) : Prop :=
  match c with
  | .writeStatistics r =>
      match Server.handlePayload r s with
      | some (response, _, flowLogs) => result = .response response flowLogs
      | none => result = .panicked
  | .metrics _ => ∃ metrics : List (PodKey × UInt64),
      result = .metrics metrics ∧ (metrics : Multiset (PodKey × UInt64)) = Server.collect s
  | _ => result = .returned

/-- The block of `onPodDelete` for a pod that is found, and the two lookups
around it, forget the addresses recorded for the pod. -/
theorem exec_unindexPod (hostIP : UInt32) (key : PodKey) (s : State) :
    ((Locked.unindexPod hostIP key (s.podIndex.lookup key)).exec s).2
      = { s with
          podIpIndex := (s.recorded key).foldl (unindexIP hostIP) s.podIpIndex
          podIndex := s.podIndex.erase key } := by
  have hloop : ∀ (ips : List UInt32) (t : State),
      ips.foldl (fun t ip => { t with podIpIndex := unindexIP hostIP t.podIpIndex ip }) t
        = { t with podIpIndex := ips.foldl (unindexIP hostIP) t.podIpIndex } := by
    intro ips
    induction ips with
    | nil => exact fun t => rfl
    | cons ip ips ih => exact fun t => ih _
  unfold State.recorded
  cases hfound : s.podIndex.lookup key with
  | some info =>
      simp only [Locked.unindexPod, exec_bind, exec_forEach, exec_modify, hloop]
  | none => simp only [Locked.unindexPod, exec_pure, List.foldl_nil, erase_of_lookup_eq_none hfound]

theorem exec_handlePod (obj : Obj) (s : State) :
    (Locked.handlePod obj).exec s = (.returned, s.next (.podAdd obj)) := by
  cases obj with
  | pod pod =>
      simp only [Locked.handlePod, parseHostIP_eq, parsePodIPs_eq, exec_bind, exec_acquire,
        exec_modify, exec_forEach, exec_release, exec_pure, List.nil_append]
      rfl
  | node node => rfl
  | deletedFinalStateUnknown key obj => rfl

theorem exec_onPodDelete (obj : Obj) (s : State) :
    (Locked.onPodDelete obj).exec s = (.returned, s.next (.podDelete obj)) := by
  cases obj with
  | pod pod =>
      simp only [Locked.onPodDelete, parseHostIP_eq, exec_bind, exec_acquire, exec_read,
        exec_unindexPod, exec_modify, exec_release, exec_pure]
      rfl
  | node node => rfl
  | deletedFinalStateUnknown key obj => rfl

theorem exec_onNodeAdd (obj : Obj) (s : State) :
    (Locked.onNodeAdd obj).exec s = (.returned, s.next (.nodeAdd obj)) := by
  cases obj <;> rfl

/-- One iteration of the loop of `onNodeDelete`. -/
def eraseNodeIP (node : String) (m : GoMap UInt32 String) (ip : UInt32) : GoMap UInt32 String :=
  if m.lookup ip = some node then m.erase ip else m

/-- After some iterations the addresses visited are not those of the node. -/
theorem lookup_foldl_eraseNodeIP (node : String) (ips : List UInt32) (m : GoMap UInt32 String)
    (ip : UInt32) :
    (ips.foldl (eraseNodeIP node) m).lookup ip
      = if ip ∈ ips ∧ m.lookup ip = some node then none else m.lookup ip := by
  induction ips generalizing m with
  | nil => simp
  | cons x ips ih =>
      have hx : (eraseNodeIP node m x).lookup ip
          = if ip = x ∧ m.lookup ip = some node then none else m.lookup ip := by
        unfold eraseNodeIP
        by_cases hip : ip = x
        · subst hip
          by_cases hnode : m.lookup ip = some node <;> simp [hnode]
        · by_cases hnode : m.lookup x = some node <;> simp [hnode, hip]
      rw [List.foldl_cons, ih, hx]
      by_cases hnode : m.lookup ip = some node
      · by_cases hip : ip = x <;> simp [hip, hnode]
      · simp [hnode]

/-- A `range` loop that deletes the addresses of a node does so in any order. -/
theorem foldl_eraseNodeIP (order : RangeOrder UInt32 String) (node : String)
    (m : GoMap UInt32 String) :
    (order.keys m).foldl (eraseNodeIP node) m
      = GoMap.deleteWhere m fun _ nodeName => nodeName = node := by
  apply Finmap.ext_lookup
  intro ip
  rw [lookup_foldl_eraseNodeIP, GoMap.lookup_deleteWhere]
  cases hip : m.lookup ip with
  | none => simp
  | some nodeName =>
      have hmem : ip ∈ order.keys m := (order.mem_keys m ip).2 (Finmap.mem_of_lookup_eq_some hip)
      by_cases hnode : nodeName = node <;> simp [hmem, hnode]

/-- The loop of `onNodeDelete`. -/
theorem exec_unindexNodeIPs (node : String) (ips : List UInt32) (s : State) :
    (forEach ips (Locked.unindexNodeIP node)).exec s
      = ((), { s with nodeIpIndex := ips.foldl (eraseNodeIP node) s.nodeIpIndex }) := by
  rw [exec_forEach]
  induction ips generalizing s with
  | nil => rfl
  | cons ip ips ih =>
      have hbody : ((Locked.unindexNodeIP node ip).exec s).2
          = { s with nodeIpIndex := eraseNodeIP node s.nodeIpIndex ip } := by
        unfold Locked.unindexNodeIP eraseNodeIP
        rw [exec_bind, exec_read]
        split_ifs <;> rfl
      rw [List.foldl_cons, hbody]
      exact ih _

theorem exec_onNodeDelete (order : RangeOrder UInt32 String) (obj : Obj) (s : State) :
    (Locked.onNodeDelete order obj).exec s = (.returned, s.next (.nodeDelete obj)) := by
  cases obj with
  | node node =>
      simp only [Locked.onNodeDelete, exec_bind, exec_acquire, exec_read, exec_unindexNodeIPs,
        foldl_eraseNodeIP, exec_modify, exec_release, exec_pure]
      rfl
  | pod pod => rfl
  | deletedFinalStateUnknown key obj => rfl

/-! ## Payloads and scrapes -/

theorem exec_resolve (ip : UInt32) (s : State) :
    (Locked.resolve ip).exec s = (s.resolve ip, s) := by
  unfold Locked.resolve State.resolve
  simp only [exec_bind, exec_read]
  cases s.podIpIndex.lookup ip with
  | some key =>
      simp only [exec_bind, exec_read]
      cases s.podIndex.lookup key <;> rfl
  | none =>
      simp only [exec_bind, exec_read]
      cases s.nodeIpIndex.lookup ip <;> rfl

/-- An iteration with steps does what the iteration without steps does. -/
theorem exec_handleEntry (flowLogs : List FlowLog) (entry : Entry) (s : State) :
    (Locked.handleEntry flowLogs entry).exec s
      = ((Server.handleEntry s flowLogs entry).2, (Server.handleEntry s flowLogs entry).1) := by
  unfold Locked.handleEntry Server.handleEntry
  rw [exec_bind, exec_resolve, sourceOf_eq, destinationOf_eq]
  cases s.resolve entry.srcIP with
  | none => rfl
  | some src =>
      dsimp only
      rw [exec_bind, exec_resolve]
      cases s.resolve entry.dstIP with
      | none => rfl
      | some dst =>
          dsimp only
          split_ifs <;> rfl

theorem exec_handleEntries (data : List Entry) (flowLogs : List FlowLog) (s : State) :
    (data.foldlM Locked.handleEntry flowLogs).exec s
      = ((handleEntries data s flowLogs).2, (handleEntries data s flowLogs).1) := by
  induction data generalizing flowLogs s with
  | nil => rfl
  | cons entry data ih =>
      rw [List.foldlM_cons, exec_bind, exec_handleEntry, ih]
      rfl

/-- The metrics that `Collect` sends, in the order of its loop. -/
theorem exec_collect (order : RangeOrder PodKey UInt64) (s : State) :
    (Locked.collect order).exec s
      = (.metrics ((order.keys s.statistics).filterMap fun pod =>
          (s.statistics.lookup pod).map fun traffic => (pod, traffic)), s) := by
  have hloop : ∀ (pods : List PodKey) (metrics : List (PodKey × UInt64)),
      (pods.foldlM (fun metrics pod => do
        let traffic ← read fun s : State => s.statistics.lookup pod
        pure (metrics ++ (traffic.map fun traffic => (pod, traffic)).toList)) metrics).exec s
      = (metrics ++ pods.filterMap fun pod =>
          (s.statistics.lookup pod).map fun traffic => (pod, traffic), s) := by
    intro pods
    induction pods with
    | nil => exact fun metrics => by simp
    | cons pod pods ih =>
        intro metrics
        rw [List.foldlM_cons, exec_bind, exec_bind, exec_read, exec_pure, ih, List.filterMap_cons]
        cases s.statistics.lookup pod <;> simp
  simp only [Locked.collect, exec_bind, exec_acquire, exec_read, hloop, exec_release, exec_pure,
    List.nil_append]

/-- A metric is sent for every counter, with its value. -/
theorem mem_collect {s : State} {k : PodKey} {traffic : UInt64} :
    (k, traffic) ∈ collect s ↔ s.statistics.lookup k = some traffic := by
  unfold collect
  rw [Multiset.mem_map, Finmap.lookup_eq_some_iff]
  constructor
  · rintro ⟨⟨k', traffic'⟩, hmem, heq⟩
    obtain ⟨rfl, rfl⟩ := Prod.mk.inj heq
    exact hmem
  · exact fun hmem => ⟨⟨k, traffic⟩, hmem, rfl⟩

/-- No metric is sent twice. -/
theorem nodup_collect (s : State) : (collect s).Nodup := by
  refine Multiset.Nodup.map (fun e e' heq => ?_) s.statistics.nodup_entries
  obtain ⟨h1, h2⟩ := Prod.mk.inj heq
  exact Sigma.ext h1 (heq_of_eq h2)

/-- The metrics of a scrape, whatever the order of its loop. -/
theorem coe_metrics (order : RangeOrder PodKey UInt64) (s : State) :
    (((order.keys s.statistics).filterMap fun pod =>
        (s.statistics.lookup pod).map fun traffic => (pod, traffic) :
          List (PodKey × UInt64)) : Multiset (PodKey × UInt64)) = collect s := by
  have hnodup : ((order.keys s.statistics).filterMap fun pod =>
      (s.statistics.lookup pod).map fun traffic => (pod, traffic)).Nodup := by
    refine (order.nodup s.statistics).filterMap fun pod pod' metric h h' => ?_
    obtain ⟨traffic, -, rfl⟩ := Option.map_eq_some_iff.1 h
    obtain ⟨traffic', -, heq⟩ := Option.map_eq_some_iff.1 h'
    exact (Prod.mk.inj heq).1.symm
  rw [Multiset.Nodup.ext (Multiset.coe_nodup.2 hnodup) (nodup_collect s)]
  rintro ⟨k, traffic⟩
  rw [mem_collect, Multiset.mem_coe, List.mem_filterMap]
  constructor
  · rintro ⟨pod, -, hmetric⟩
    obtain ⟨traffic', hlookup, heq⟩ := Option.map_eq_some_iff.1 hmetric
    obtain ⟨rfl, rfl⟩ := Prod.mk.inj heq
    exact hlookup
  · intro hlookup
    refine ⟨k, (order.mem_keys _ k).2 (Finmap.mem_of_lookup_eq_some hlookup), ?_⟩
    rw [hlookup]
    rfl

/-- A request with steps does what the request without steps does. -/
theorem exec_handlePayload (r : Request) (s : State) :
    ((Locked.handlePayload r).exec s).2 = (Call.writeStatistics r).next s
      ∧ (Call.writeStatistics r).Answers s ((Locked.handlePayload r).exec s).1 := by
  simp only [Locked.handlePayload, Call.next, Call.event, Call.Answers, Server.handlePayload]
  split_ifs
  · exact ⟨rfl, rfl⟩
  · rcases r.body with err | body
    · exact ⟨rfl, rfl⟩
    · dsimp only
      rcases decode body with - | err | data
      · exact ⟨rfl, rfl⟩
      · exact ⟨rfl, rfl⟩
      · simp only [exec_bind, exec_acquire, exec_handleEntries, exec_release, exec_pure]
        exact ⟨rfl, rfl⟩

/-- An update is handled as an addition of the new object. -/
theorem next_update (s : State) (oldObj newObj : Obj) :
    s.next (.podUpdate oldObj newObj) = s.next (.podAdd newObj)
      ∧ s.next (.nodeUpdate oldObj newObj) = s.next (.nodeAdd newObj) := by
  cases newObj <;> exact ⟨rfl, rfl⟩

/-- Alone, a call does to the state what its event does, and answers as the
handler without steps. -/
theorem exec_prog (c : Call) (s : State) :
    (c.prog.exec s).2 = c.next s ∧ c.Answers s (c.prog.exec s).1 := by
  cases c with
  | podAdd obj =>
      rw [Call.prog, exec_handlePod]
      exact ⟨rfl, rfl⟩
  | podUpdate oldObj newObj =>
      rw [Call.prog, exec_handlePod]
      exact ⟨(next_update s oldObj newObj).1.symm, rfl⟩
  | podDelete obj =>
      rw [Call.prog, exec_onPodDelete]
      exact ⟨rfl, rfl⟩
  | nodeAdd obj =>
      rw [Call.prog, exec_onNodeAdd]
      exact ⟨rfl, rfl⟩
  | nodeUpdate oldObj newObj =>
      rw [Call.prog, exec_onNodeAdd]
      exact ⟨(next_update s oldObj newObj).2.symm, rfl⟩
  | nodeDelete order obj =>
      rw [Call.prog, exec_onNodeDelete]
      exact ⟨rfl, rfl⟩
  | writeStatistics r => exact exec_handlePayload r s
  | metrics order =>
      rw [Call.prog, exec_collect]
      exact ⟨rfl, _, rfl, coe_metrics order s⟩

end Server
