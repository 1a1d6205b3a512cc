/-
# The server

`cmd/server/main.go`: the four indexes and the statistics, the event handlers
of the pod and node informers, and the handler of the agents' payloads.

The handlers are translated as they stand.  A handler returns `none` where the
Go code panics.  An informer hands its handlers an `interface`, and their type
assertions become matches on `Kube.Obj`.  The mutex makes
every handler one atomic step of the state, so a run of the server is a
sequence of `Event`s.
-/
import Kubezonnet.KubeObjects
import Kubezonnet.Payload

open IpWord Payload Kube

namespace Server

/-! ## State -/

/-- `podKey`. -/
structure PodKey : Type where
  nspace : String
  name : String
  deriving DecidableEq, Repr

/-- `PodInfo`. -/
structure PodInfo : Type where
  node : String
  ips : List UInt32
  deriving DecidableEq, Repr

/-- `Server`, without the Kubernetes client and the mutex. -/
structure State : Type where
  podIpIndex : GoMap UInt32 PodKey
  nodeIpIndex : GoMap UInt32 String
  podIndex : GoMap PodKey PodInfo
  nodeIndex : GoMap String String
  statistics : GoMap PodKey UInt64

/-- The state `main` starts the server with. -/
def State.empty : State := ⟨∅, ∅, ∅, ∅, ∅⟩

/-- The key of a pod. -/
def podKey (pod : Pod) : PodKey := ⟨pod.nspace, pod.name⟩

/-- The key that stands for the host-network pods of a node. -/
def nodeKey (node : String) : PodKey := ⟨"_node_", node⟩

/-! ## Pod handlers -/

/-- The server's copy of `ipToUint32`. -/
def ipToUint32 : GoNet.IP → Option UInt32 := IpWord.ipToUint32

/-- The block of `handlePod` and `onPodDelete` that computes `hostIP`: zero when
the pod has no IPv4 host address. -/
def parseHostIP (pod : Pod) : Option UInt32 :=
  if pod.hostIP ≠ "" then do
    let hostIP ← guardedWord ipToUint32 pod.hostIP
    some (hostIP.getD 0)
  else some 0

/-- The loop of `handlePod` over the pod's addresses. -/
def parsePodIPs : List String → List UInt32 → Option (List UInt32)
  | [], ips => some ips
  | podIP :: podIPs, ips => do
      let ip ← guardedWord ipToUint32 podIP
      match ip with
      | none => parsePodIPs podIPs ips
      | some ip => parsePodIPs podIPs (ips ++ [ip])

/-- One iteration of the second loop of `handlePod`. -/
def indexIP (pod : Pod) (hostIP : UInt32) (s : State) (ip : UInt32) : State :=
  if hostIP ≠ 0 ∧ ip = hostIP then
    { s with nodeIpIndex := s.nodeIpIndex.insert ip pod.nodeName }
  else
    { s with podIpIndex := s.podIpIndex.insert ip (podKey pod) }

/-- `handlePod`. -/
def handlePod (obj : Obj) (s : State) : Option State :=
  match obj with
  | .pod pod => do
      let hostIP ← parseHostIP pod
      let ips ← parsePodIPs pod.podIPs []
      let s := { s with podIndex := s.podIndex.insert (podKey pod) ⟨pod.nodeName, ips⟩ }
      some (ips.foldl (indexIP pod hostIP) s)
  | _ => some s

/-- `onPodAdd`. -/
def onPodAdd (obj : Obj) (s : State) : Option State := handlePod obj s

/-- `onPodUpdate`; the old object is not used. -/
def onPodUpdate (_oldObj newObj : Obj) (s : State) : Option State := handlePod newObj s

/-- One iteration of the loop of `onPodDelete`. -/
def unindexIP (hostIP : UInt32) (podIpIndex : GoMap UInt32 PodKey) (ip : UInt32) :
    GoMap UInt32 PodKey :=
  if hostIP = 0 ∨ ip ≠ hostIP then podIpIndex.erase ip else podIpIndex

/-- `onPodDelete`. -/
def onPodDelete (obj : Obj) (s : State) : Option State :=
  match obj with
  | .pod pod => do
      let hostIP ← parseHostIP pod
      let s := match s.podIndex.lookup (podKey pod) with
        | some info =>
            { s with
              podIpIndex := info.ips.foldl (unindexIP hostIP) s.podIpIndex
              podIndex := s.podIndex.erase (podKey pod) }
        | none => s
      some { s with statistics := s.statistics.erase (podKey pod) }
  | _ => some s

/-! ## Node handlers -/

/-- The zone of a node, by its topology label. -/
def zoneOf (node : Node) : String :=
  (node.labels.lookup "topology.kubernetes.io/zone").getD "unknown"

/-- `onNodeAdd`. -/
def onNodeAdd (obj : Obj) (s : State) : Option State :=
  match obj with
  | .node node => some { s with nodeIndex := s.nodeIndex.insert node.name (zoneOf node) }
  | _ => some s

/-- `onNodeUpdate`; the old object is not used. -/
def onNodeUpdate (_oldObj newObj : Obj) (s : State) : Option State :=
  match newObj with
  | .node node => some { s with nodeIndex := s.nodeIndex.insert node.name (zoneOf node) }
  | _ => some s

/-- `onNodeDelete`. -/
def onNodeDelete (obj : Obj) (s : State) : Option State :=
  match obj with
  | .node node =>
      some { s with
        nodeIpIndex := GoMap.deleteWhere s.nodeIpIndex fun _ nodeName => nodeName = node.name
        nodeIndex := s.nodeIndex.erase node.name }
  | _ => some s

/-! ## Payloads -/

/-- `flowLog`. -/
structure FlowLog : Type where
  src : PodKey
  srcPort : ℤ
  dst : PodKey
  dstPort : ℤ
  bytes : ℤ
  deriving DecidableEq, Repr

/-- The first half of an iteration of `handlePayload`: the key and the zone of
the source, `none` where the loop goes on to the next entry. -/
def sourceOf (s : State) (entry : Entry) : Option (PodKey × String) :=
  match s.podIpIndex.lookup entry.srcIP with
  | some sourcePodKey => do
      let sourcePod ← s.podIndex.lookup sourcePodKey
      let srcZone ← s.nodeIndex.lookup sourcePod.node
      some (sourcePodKey, srcZone)
  | none => do
      let srcNode ← s.nodeIpIndex.lookup entry.srcIP
      let srcZone ← s.nodeIndex.lookup srcNode
      some (nodeKey srcNode, srcZone)

/-- The second half of an iteration of `handlePayload`: the key and the zone of
the destination, `none` where the loop goes on to the next entry. -/
def destinationOf (s : State) (entry : Entry) : Option (PodKey × String) :=
  match s.podIpIndex.lookup entry.dstIP with
  | some dstPodKey => do
      let dstPod ← s.podIndex.lookup dstPodKey
      let dstZone ← s.nodeIndex.lookup dstPod.node
      some (dstPodKey, dstZone)
  | none => do
      let dstNode ← s.nodeIpIndex.lookup entry.dstIP
      let dstZone ← s.nodeIndex.lookup dstNode
      some (nodeKey dstNode, dstZone)

/-- One iteration of the loop of `handlePayload`. -/
def handleEntry (s : State) (flowLogs : List FlowLog) (entry : Entry) : State × List FlowLog :=
  match sourceOf s entry with
  | none => (s, flowLogs)
  | some (sourcePodKey, srcZone) =>
      match destinationOf s entry with
      | none => (s, flowLogs)
      | some (dstPodKey, dstZone) =>
          if srcZone ≠ dstZone then
            ({ s with statistics := GoMap.addTo s.statistics sourcePodKey entry.traffic },
              flowLogs ++ [
                { src := sourcePodKey
                  srcPort := entry.srcPort.toNat
                  dst := dstPodKey
                  dstPort := entry.dstPort.toNat
                  bytes := entry.traffic.toInt64.toInt }])
          else (s, flowLogs)

/-- The loop of `handlePayload` over the decoded entries. -/
def handleEntries : List Entry → State → List FlowLog → State × List FlowLog
  | [], s, flowLogs => (s, flowLogs)
  | entry :: data, s, flowLogs =>
      let (s, flowLogs) := handleEntry s flowLogs entry
      handleEntries data s flowLogs

/-- A request to `/write-network-statistics`: its method, and what reading its
body gives. -/
structure Request : Type where
  method : String
  body : Except String (GoSlice.Slice UInt8)

/-- The status and the text of a response. -/
structure Response : Type where
  status : ℕ
  text : String
  deriving DecidableEq, Repr

/-- `handlePayload`, with the flow logs it prints. -/
def handlePayload (r : Request) (s : State) : Option (Response × State × List FlowLog) :=
  if r.method ≠ "POST" then some (⟨405, "Invalid request method"⟩, s, [])
  else
    match r.body with
    | .error _ => some (⟨500, "Failed to read request body"⟩, s, [])
    | .ok body => do
        let data ← decode body
        match data with
        | .error err => some (⟨400, "Failed to decode request body: " ++ err⟩, s, [])
        | .ok data =>
            let (s, flowLogs) := handleEntries data s []
            some (⟨200, ""⟩, s, flowLogs)

/-- `Collect`: the metrics of a scrape, in no particular order. -/
def collect (s : State) : Multiset (PodKey × UInt64) :=
  s.statistics.entries.map fun e => (e.1, e.2)

/-! ## Runs -/

/-- One step of the server: a call of an informer handler, or the loop over the
entries of a decoded payload. -/
inductive Event : Type where
  | podAdd (obj : Obj) : Event
  | podUpdate (oldObj newObj : Obj) : Event
  | podDelete (obj : Obj) : Event
  | nodeAdd (obj : Obj) : Event
  | nodeUpdate (oldObj newObj : Obj) : Event
  | nodeDelete (obj : Obj) : Event
  | payload (data : List Entry) : Event

/-- The state after an event. -/
def step (s : State) : Event → Option State
  | .podAdd obj => onPodAdd obj s
  | .podUpdate oldObj newObj => onPodUpdate oldObj newObj s
  | .podDelete obj => onPodDelete obj s
  | .nodeAdd obj => onNodeAdd obj s
  | .nodeUpdate oldObj newObj => onNodeUpdate oldObj newObj s
  | .nodeDelete obj => onNodeDelete obj s
  | .payload data => some (handleEntries data s []).1

/-- The state after a run of events from the empty state. -/
def run (es : List Event) : Option State := es.foldlM step State.empty

end Server
