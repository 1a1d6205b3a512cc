/-
# The agent's loop

`Run` of `agent/agent.go`, from the point on where the eBPF program is attached.
At every tick the loop empties `ip_map` into two buffers that it reuses, keeps
the flows of its own node and posts them to the server.  A tick that reads
nothing, or whose read fails, goes on to the next one.

What the agent cannot determine is an input of the tick: the order in which the
batch call takes entries and the error it returns, the pods in the informer's
store, and what becomes of the request.  The buffers are slices that keep their
array from tick to tick.
-/
import Kubezonnet.AgentFilter
import Kubezonnet.HandleV4

open Ebpf GoSlice Kube Payload WordBytes

namespace Agent

/-! ## The batch call -/

/-- The errors of `BatchLookupAndDelete`, as far as the loop tells them apart. -/
inductive BatchError : Type where
  | errKeyNotExist : BatchError
  | other (err : String) : BatchError
  deriving DecidableEq, Repr

/-- A batch call: the keys it takes as far as they are there and fit, in order,
and the error it returns. -/
structure Batch : Type where
  order : List IPKey
  err : Option BatchError

/-- The entries that a batch call takes out of the map, at most `room` of them,
and the map without them. -/
def takeEntries : List IPKey → ℕ → IpMap → List (IPKey × IPValue) × IpMap
  | [], _, ipMap => ([], ipMap)
  | _ :: _, 0, ipMap => ([], ipMap)
  | key :: order, room + 1, ipMap =>
      match ipMap.lookup key with
      | some value =>
          let (taken, ipMap) := takeEntries order room (ipMap.erase key)
          ((key, value) :: taken, ipMap)
      | none => takeEntries order (room + 1) ipMap

/-- What a batch call leaves: the number of entries, the map and the buffers. -/
structure BatchResult : Type where
  n : ℕ
  ipMap : IpMap
  keys : Slice IPKey
  values : Slice IPValue

/-- `BatchLookupAndDelete`: the entries go to the first slots of the buffers, and
the other slots keep what they have. -/
def batchLookupAndDelete (batch : Batch) (ipMap : IpMap) (keys : Slice IPKey)
    (values : Slice IPValue) : BatchResult :=
  let (taken, ipMap) := takeEntries batch.order keys.len ipMap
  { n := taken.length
    ipMap := ipMap
    keys := keys.fill (taken.map Prod.fst)
    values := values.fill (taken.map Prod.snd) }

/-! ## The request -/

/-- What becomes of a request: it cannot be made, it fails before or after it
reached the server, its response cannot be read, or it is answered. -/
inductive Exchange : Type where
  | newRequestFails (err : String) : Exchange
  | doFails (delivered : Bool) (err : String) : Exchange
  | readFails (err : String) : Exchange
  | answered (statusCode : ℕ) (respContent : String) : Exchange
  deriving DecidableEq, Repr

/-- The request reached the server. -/
def Exchange.delivered : Exchange → Bool
  | .newRequestFails _ => false
  | .doFails delivered _ => delivered
  | .readFails _ => true
  | .answered _ _ => true

/-- The error of `sendDataToServer`. -/
def Exchange.error : Exchange → Option String
  | .newRequestFails err => some ("new request: " ++ err)
  | .doFails _ err => some ("do request: " ++ err)
  | .readFails err => some ("read response: " ++ err)
  | .answered statusCode respContent =>
      if statusCode ≠ 200 then some ("write not successful: " ++ respContent) else none

/-- `sendDataToServer`: the bodies that reached the server, and the error. -/
def sendDataToServer (keys : List IPKey) (values : List IPValue) (exchange : Exchange) :
    Option (List (Slice UInt8) × Option String) := do
  let content ← encode keys values
  some (if exchange.delivered then [content] else [], exchange.error)

/-! ## The loop -/

/-- The agent and its map, with the bodies that have reached the server. -/
structure State : Type where
  ipMap : IpMap
  keys : Slice IPKey
  values : Slice IPValue
  delivered : List (Slice UInt8)

/-- The state at the start of the loop. -/
def State.start : State where
  ipMap := ∅
  keys := Slice.make ⟨0, 0, 0, 0⟩ maxEntries
  values := Slice.make ⟨0⟩ maxEntries
  delivered := []

/-- The inputs of a tick. -/
structure Tick : Type where
  batch : Batch
  pods : List Pod
  exchange : Exchange

/-- The body of the loop from the batch call on, which returned `n` entries,
without the debug output.  The errors of `sendDataToServer` are only logged. -/
def afterBatch (sendData : Bool) (t : Tick) (n : ℕ) (s : State) : Option State :=
  if n = 0 then some s
  else if t.batch.err ≠ none ∧ t.batch.err ≠ some .errKeyNotExist then some s
  else do
    let keys ← s.keys.sub 0 n
    let values ← s.values.sub 0 n
    let s := { s with keys := keys, values := values }
    let pods ← convertToPods (t.pods.map .pod)
    let (finalKeys, finalValues) ← filterSrcIpOnCurrentHost keys.elems values.elems pods
    if sendData ∧ finalKeys.length > 0 then do
      let (bodies, _) ← sendDataToServer finalKeys finalValues t.exchange
      some { s with delivered := s.delivered ++ bodies }
    else some s

/-- The body of the loop at a tick. -/
def onTick (sendData : Bool) (t : Tick) (s : State) : Option State := do
  let keys ← s.keys.sub 0 maxEntries
  let values ← s.values.sub 0 maxEntries
  let res := batchLookupAndDelete t.batch s.ipMap keys values
  afterBatch sendData t res.n
    { s with ipMap := res.ipMap, keys := res.keys, values := res.values }

/-- What happens on a node: a packet passes the hook, or the agent's ticker fires. -/
inductive Event : Type where
  | packet (skb : SkBuff) : Event
  | tick (t : Tick) : Event

/-- The configuration of an agent. -/
structure Options : Type where
  endian : Endian
  config : Config
  sendData : Bool

/-- The state after an event. -/
def step (o : Options) (s : State) : Event → Option State
  | .packet skb => some { s with ipMap := (handleV4 o.endian o.config skb s.ipMap).2 }
  | .tick t => onTick o.sendData t s

/-- The state after a run of events. -/
def run (o : Options) (es : List Event) : Option State := es.foldlM (step o) State.start

end Agent
