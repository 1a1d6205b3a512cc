/-
# The system on many CPUs

In `Deployment` a hook counts a packet in one go, and a tick takes its entries in
one go.  Here the hooks of a node run on all its CPUs at once, one operation on the
map after the other, and the batch call of the agent takes its entries one by one in
between.  What can go wrong is here as well: agents and the server start over, and
requests are lost on their way.  Nothing is kept on disk, and the map is not pinned,
so what starts over has nothing of what it had.

A run of `Deployment` is a run of this system in which nothing comes between the
operations of an invocation, or between those of a batch call (`exists_run_alone`).
-/
import Kubezonnet.LostUpdates
import Kubezonnet.Deployment

open Agent Ebpf ElemMap GoSlice Payload WordBytes

namespace Ebpf

/-! ## Maps with and without references -/

theorem Represents.erase {m : Map IPKey} {ipMap : IpMap} (h : Represents m ipMap) (key : IPKey) :
    Represents ⟨m.elems.erase key, m.next⟩ (ipMap.erase key) := by
  intro k
  by_cases hk : k = key
  · rw [hk, Finmap.lookup_erase, Finmap.lookup_erase]
    rfl
  · rw [Finmap.lookup_erase_ne hk, Finmap.lookup_erase_ne hk]
    exact h k

/-- A removal finds what the map without references has. -/
theorem Represents.lookupAndDelete {m : Map IPKey} {ipMap : IpMap} (h : Represents m ipMap)
    (key : IPKey) :
    (m.lookupAndDelete key).1 = (ipMap.lookup key).map IPValue.packetSize
      ∧ Represents (m.lookupAndDelete key).2 (ipMap.erase key) := by
  have hkey := h key
  unfold Map.lookupAndDelete
  cases hlookup : m.elems.lookup key with
  | some elem =>
      rw [hlookup, Option.map_some] at hkey
      rw [← hkey]
      exact ⟨rfl, h.erase key⟩
  | none =>
      rw [hlookup, Option.map_none] at hkey
      rw [← hkey]
      refine ⟨rfl, fun k => ?_⟩
      by_cases hk : k = key
      · rw [hk, Finmap.lookup_erase, hlookup]
        rfl
      · rw [Finmap.lookup_erase_ne hk]
        exact h k

end Ebpf

namespace Racing

/-! ## Nodes -/

/-- A node: the map, the invocations on its CPUs and what the batch call under way
has taken, and the buffers of the agent. -/
structure Node : Type where
  kernel : Ebpf.System
  keys : Slice IPKey
  values : Slice IPValue

/-- A node on which the agent has just started. -/
def Node.start : Node where
  kernel := ⟨Map.empty, [], []⟩
  keys := Slice.make ⟨0, 0, 0, 0⟩ maxEntries
  values := Slice.make ⟨0⟩ maxEntries

/-- `nf_postrouting_hook` up to the operations on the map: an invocation of
`handle_v4` begins if the packet is counted. -/
def Node.enterHook (o : Options) (ctx : NfCtx) (node : Node) : Node :=
  if bpfNtohs o.endian (loadWord16 o.endian ctx.protocol.1 ctx.protocol.2) = ethPIp then
    match flowOf o.endian o.config ctx.skb with
    | some (key, packetSize) =>
        { node with kernel := { node.kernel with
          invocations := node.kernel.invocations ++ [⟨key, packetSize, .lookup⟩] } }
    | none => node
  else node

/-- The next operation of an invocation. -/
def Node.cpu (n : ℕ) (node : Node) : Node := { node with kernel := node.kernel.step (.run n) }

/-- The batch call under way takes an entry, if there is room in the buffers. -/
def Node.take (key : IPKey) (node : Node) : Node :=
  if node.kernel.removed.length < maxEntries then
    { node with kernel := node.kernel.step (.remove key) }
  else node

/-- An entry that was taken, as the batch call writes it. -/
def pairOfFlow (flow : IPKey × UInt64) : IPKey × IPValue := (flow.1, ⟨flow.2⟩)

/-- The batch call returns with what it has taken, and the agent goes on: the node
after it, and the bodies that reach the server.  What was taken is known by now, so
the order of the tick plays no part, and the rest of the loop body does not look at
the map. -/
def Node.finishTick (sendData : Bool) (t : Tick) (node : Node) :
    Option (Node × List (Slice UInt8)) := do
  let keys ← node.keys.sub 0 maxEntries
  let values ← node.values.sub 0 maxEntries
  let taken := node.kernel.removed.map pairOfFlow
  let s ← afterBatch sendData t taken.length
    { ipMap := ∅
      keys := keys.fill (taken.map Prod.fst)
      values := values.fill (taken.map Prod.snd)
      delivered := [] }
  some (⟨{ node.kernel with removed := [] }, s.keys, s.values⟩, s.delivered)

/-- The buffers are those that the agent was started with, and what was taken fits. -/
structure Node.Sound (node : Node) : Prop where
  keys : node.keys.cap = maxEntries
  values : node.values.cap = maxEntries
  removed : node.kernel.removed.length ≤ maxEntries

theorem Node.sound_start : Node.start.Sound := ⟨cap_make _ _, cap_make _ _, Nat.zero_le _⟩

/-- An invocation begins with the flow that the hook counts. -/
theorem Node.enterHook_eq (o : Options) (ctx : NfCtx) (node : Node) :
    node.enterHook o ctx
      = match Deployment.hookFlow o ctx with
        | some flow => { node with kernel := { node.kernel with
            invocations := node.kernel.invocations ++ [⟨flow.1, flow.2, .lookup⟩] } }
        | none => node := by
  unfold Node.enterHook Deployment.hookFlow
  simp only [protocol_eq_ethPIp_iff]
  split_ifs
  · cases flowOf o.endian o.config ctx.skb <;> rfl
  · rfl

theorem Node.Sound.enterHook {node : Node} (h : node.Sound) (o : Options) (ctx : NfCtx) :
    (node.enterHook o ctx).Sound := by
  rw [Node.enterHook_eq]
  cases Deployment.hookFlow o ctx with
  | none => exact h
  | some flow => exact ⟨h.keys, h.values, h.removed⟩

theorem Node.Sound.cpu {node : Node} (h : node.Sound) (n : ℕ) : (node.cpu n).Sound := by
  refine ⟨h.keys, h.values, ?_⟩
  show (node.kernel.step (.run n)).removed.length ≤ maxEntries
  simp only [System.step]
  cases node.kernel.invocations[n]? with
  | none => exact h.removed
  | some inv => exact h.removed

theorem Node.Sound.take {node : Node} (h : node.Sound) (key : IPKey) : (node.take key).Sound := by
  unfold Node.take
  split_ifs with hroom
  · refine ⟨h.keys, h.values, ?_⟩
    show (node.kernel.step (.remove key)).removed.length ≤ maxEntries
    simp only [System.step]
    cases node.kernel.ipMap.lookupAndDelete key with
    | mk value ipMap =>
        cases value with
        | none => exact h.removed
        | some value =>
            dsimp only
            rw [List.length_append, List.length_singleton]
            omega
  · exact h

/-- When the batch call returns the agent does not panic, and sends what a tick sends
that takes these entries. -/
theorem Node.Sound.exists_finishTick {node : Node} (h : node.Sound) (sendData : Bool) (t : Tick) :
    ∃ node', node.finishTick sendData t
        = some (node', (sentReports sendData t (node.kernel.removed.map pairOfFlow)).map bodyOf)
      ∧ node'.Sound ∧ node'.kernel = { node.kernel with removed := [] } := by
  obtain ⟨keys, hkeys, hkeysArr, -⟩ := exists_sub_zero h.keys.ge
  obtain ⟨values, hvalues, hvaluesArr, -⟩ := exists_sub_zero h.values.ge
  have hkeysCap : keys.cap = maxEntries := by rw [Slice.cap, hkeysArr, ← Slice.cap, h.keys]
  have hvaluesCap : values.cap = maxEntries := by
    rw [Slice.cap, hvaluesArr, ← Slice.cap, h.values]
  have hfit : (node.kernel.removed.map pairOfFlow).length ≤ maxEntries := by
    rw [List.length_map]
    exact h.removed
  obtain ⟨s', hs', hbuffered, -, hdelivered⟩ := @exists_afterBatch ⟨∅, keys, values, []⟩ _ ∅ _ _
    hfit hkeysCap hvaluesCap sendData t
  rw [List.nil_append, sentBodies_eq] at hdelivered
  refine ⟨⟨{ node.kernel with removed := [] }, s'.keys, s'.values⟩, ?_,
    ⟨hbuffered.keys, hbuffered.values, Nat.zero_le _⟩, rfl⟩
  simp only [Node.finishTick, hkeys, hvalues, Option.bind_eq_bind, Option.bind_some, hs', hdelivered]

/-! ## The system -/

/-- The nodes, the bodies that have left them but are not handled yet, the server,
and the last states of the servers before it. -/
structure Net (ι : Type) : Type where
  nodes : ι → Node
  inFlight : List (Slice UInt8)
  server : Server.State
  earlier : List Server.State

/-- All agents start on a server that is already running. -/
def Net.start {ι : Type} (server : Server.State) : Net ι := ⟨fun _ => Node.start, [], server, []⟩

/-- What happens in the system: a packet reaches the hook of a node, an invocation or
the batch call of a node goes on by one operation, a batch call returns, a request or
an event of the informers reaches the server, or something goes wrong. -/
inductive Event (ι : Type) : Type where
  | hook (i : ι) (ctx : NfCtx) : Event ι
  | cpu (i : ι) (n : ℕ) : Event ι
  | take (i : ι) (key : IPKey) : Event ι
  | tick (i : ι) (t : Tick) : Event ι
  | deliver (n : ℕ) : Event ι
  | informer (e : Deployment.InformerEvent) : Event ι
  | agentRestarts (i : ι) : Event ι
  | serverRestarts : Event ι
  | requestLost (n : ℕ) : Event ι

variable {ι : Type} [DecidableEq ι]

/-- A node moves. -/
def Net.onNode (net : Net ι) (i : ι) (f : Node → Node) : Net ι :=
  { net with nodes := Function.update net.nodes i (f (net.nodes i)) }

/-- The state after an event. -/
def step (o : Options) (net : Net ι) : Event ι → Option (Net ι)
  | .hook i ctx => some (net.onNode i (Node.enterHook o ctx))
  | .cpu i n => some (net.onNode i (Node.cpu n))
  | .take i key => some (net.onNode i (Node.take key))
  | .tick i t => do
      let (node, bodies) ← (net.nodes i).finishTick o.sendData t
      some { net with
        nodes := Function.update net.nodes i node
        inFlight := net.inFlight ++ bodies }
  | .deliver n =>
      match net.inFlight[n]? with
      | none => some net
      | some body => do
          let (_, server, _) ← Server.handlePayload ⟨"POST", .ok body⟩ net.server
          some { net with inFlight := net.inFlight.eraseIdx n, server := server }
  | .informer e => do
      let server ← Server.step net.server e.1
      some { net with server := server }
  | .agentRestarts i => some (net.onNode i fun _ => Node.start)
  | .serverRestarts =>
      some { net with server := Server.State.empty, earlier := net.server :: net.earlier }
  | .requestLost n => some { net with inFlight := net.inFlight.eraseIdx n }

/-- The state after a run of events. -/
def run (o : Options) (net : Net ι) (es : List (Event ι)) : Option (Net ι) :=
  es.foldlM (step o) net

/-! ## Nothing in between -/

/-- A node on which nothing is under way has the map of an agent. -/
structure Node.Holds (node : Node) (ipMap : IpMap) : Prop where
  sound : node.Sound
  ipMap : Represents node.kernel.ipMap ipMap
  removed : node.kernel.removed = []

/-- An invocation with nothing in between does what the hook does in one go.
Where none begins, the two operations after it are of no invocation. -/
theorem Node.Holds.hook {node : Node} {ipMap : IpMap} (h : node.Holds ipMap) (o : Options)
    (ctx : NfCtx) :
    let n := node.kernel.invocations.length
    (((node.enterHook o ctx).cpu n).cpu n).Holds
      (nfPostroutingHook o.endian o.config ctx ipMap).2 := by
  intro n
  have hsound := ((h.sound.enterHook o ctx).cpu n).cpu n
  rw [Deployment.nfPostroutingHook_snd]
  rw [Node.enterHook_eq] at hsound ⊢
  cases hflow : Deployment.hookFlow o ctx with
  | none =>
      have hnone : (node.cpu n).cpu n = node := by
        simp [Node.cpu, System.step, n]
      dsimp only
      rw [hnone]
      exact h
  | some flow =>
      obtain ⟨hmap, -⟩ := represents_alone h.ipMap flow.1 flow.2
      -- the new invocation is the last one
      simp only [hflow, Node.cpu, System.step, n, List.getElem?_concat_length, List.length_append,
        List.length_singleton, List.getElem?_set_self, Nat.lt_succ_self] at hsound ⊢
      exact ⟨hsound, hmap, h.removed⟩

/-- The batch call takes some entries one after the other. -/
def Node.takeAll (order : List IPKey) (node : Node) : Node :=
  order.foldl (fun node key => node.take key) node

theorem Node.Sound.takeAll {node : Node} (h : node.Sound) (order : List IPKey) :
    (node.takeAll order).Sound := by
  induction order generalizing node with
  | nil => exact h
  | cons key order ih => exact ih (h.take key)

theorem takeEntries_zero (order : List IPKey) (ipMap : IpMap) :
    takeEntries order 0 ipMap = ([], ipMap) := by
  cases order <;> rfl

/-- Entries that are taken one after the other are those taken in one go. -/
theorem Node.takeAll_spec {node : Node} {ipMap : IpMap} {room : ℕ} (order : List IPKey)
    (h : Represents node.kernel.ipMap ipMap)
    (hroom : node.kernel.removed.length + room = maxEntries) :
    Represents (node.takeAll order).kernel.ipMap (takeEntries order room ipMap).2
      ∧ (node.takeAll order).kernel.removed
        = node.kernel.removed ++ (takeEntries order room ipMap).1.map flowOfPair := by
  induction order generalizing node ipMap room with
  | nil => exact ⟨h, (List.append_nil _).symm⟩
  | cons key order ih =>
      show Represents ((node.take key).takeAll order).kernel.ipMap _
        ∧ ((node.take key).takeAll order).kernel.removed = _
      cases room with
      | zero =>
          have hfull : node.take key = node := if_neg (by omega)
          rw [hfull, takeEntries_zero]
          have hrest := ih h hroom
          rwa [takeEntries_zero] at hrest
      | succ room =>
          have hfree : node.kernel.removed.length < maxEntries := by omega
          obtain ⟨hvalue, hmap⟩ := h.lookupAndDelete key
          rw [Node.take, if_pos hfree, takeEntries]
          cases hlookup : ipMap.lookup key with
          | none =>
              rw [hlookup, Option.map_none] at hvalue
              have hstep : node.kernel.step (.remove key) = node.kernel := by
                simp only [System.step]
                generalize node.kernel.ipMap.lookupAndDelete key = found at hvalue
                obtain ⟨value, ipMap'⟩ := found
                obtain rfl : value = none := hvalue
                rfl
              rw [hstep]
              exact ih h hroom
          | some value =>
              rw [hlookup, Option.map_some] at hvalue
              have hstep : node.kernel.step (.remove key) = { node.kernel with
                  ipMap := (node.kernel.ipMap.lookupAndDelete key).2
                  removed := node.kernel.removed ++ [(key, value.packetSize)] } := by
                simp only [System.step]
                generalize node.kernel.ipMap.lookupAndDelete key = found at hvalue ⊢
                obtain ⟨value', ipMap'⟩ := found
                obtain rfl : value' = some value.packetSize := hvalue
                rfl
              rw [hstep]
              have hnext : ((node.kernel.removed ++ [(key, value.packetSize)]).length + room)
                  = maxEntries := by
                rw [List.length_append, List.length_singleton]
                omega
              obtain ⟨hrest, hremoved⟩ := @ih ⟨{ node.kernel with
                ipMap := (node.kernel.ipMap.lookupAndDelete key).2
                removed := node.kernel.removed ++ [(key, value.packetSize)] },
                node.keys, node.values⟩ (ipMap.erase key) room hmap hnext
              refine ⟨hrest, hremoved.trans ?_⟩
              rw [List.append_assoc]
              rfl

/-- The nodes have what the agents have, and nothing else differs. -/
structure Net.Plays (r : Net ι) (net : Deployment.Net ι) : Prop where
  nodes : ∀ i, (r.nodes i).Holds (net.agents i).ipMap
  agents : ∀ i, (net.agents i).Buffered
  inFlight : r.inFlight = net.inFlight
  server : r.server = net.server
  earlier : r.earlier = []

/-- One node moves, and the others stay where they are. -/
theorem Net.Plays.update {r : Net ι} {net : Deployment.Net ι} (h : r.Plays net) (i : ι)
    {node : Node} {s : Agent.State} (hnode : node.Holds s.ipMap) (hs : s.Buffered) :
    (∀ j, (Function.update r.nodes i node j).Holds (Function.update net.agents i s j).ipMap)
      ∧ ∀ j, (Function.update net.agents i s j).Buffered := by
  have hnodes := Deployment.related_update (R := fun (node : Node) (s : Agent.State) =>
    node.Holds s.ipMap) h.nodes i hnode
  refine ⟨hnodes, ?_⟩
  rw [Function.forall_update_iff net.agents fun _ s => s.Buffered]
  exact ⟨hs, fun j _ => h.agents j⟩

theorem Net.onNode_onNode (r : Net ι) (i : ι) (f g : Node → Node) :
    (r.onNode i f).onNode i g = r.onNode i fun node => g (f node) := by
  unfold Net.onNode
  dsimp only
  rw [Function.update_self, Function.update_idem]

theorem run_singleton (o : Options) (r : Net ι) (e : Event ι) : run o r [e] = step o r e :=
  bind_pure (step o r e)

theorem run_append (o : Options) (r : Net ι) (es es' : List (Event ι)) :
    run o r (es ++ es') = (run o r es).bind fun r' => run o r' es' :=
  List.foldlM_append

/-- A batch call that takes some entries without anything in between. -/
theorem run_take (o : Options) (r : Net ι) (i : ι) (order : List IPKey) :
    run o r (order.map (.take i)) = some (r.onNode i (Node.takeAll order)) := by
  induction order generalizing r with
  | nil =>
      have hsame : r.onNode i (Node.takeAll []) = r := by
        unfold Net.onNode
        show { r with nodes := Function.update r.nodes i (r.nodes i) } = r
        rw [Function.update_eq_self]
      rw [hsame]
      rfl
  | cons key order ih =>
      show run o (r.onNode i (Node.take key)) (order.map (.take i)) = _
      rw [ih, Net.onNode_onNode]
      rfl

/-- The operations of an event, one after the other. -/
def alone (r : Net ι) : Deployment.Event ι → List (Event ι)
  | .hook i ctx =>
      let n := (r.nodes i).kernel.invocations.length
      [.hook i ctx, .cpu i n, .cpu i n]
  | .tick i t => t.batch.order.map (.take i) ++ [.tick i t]
  | .deliver n => [.deliver n]
  | .informer e => [.informer e]

/-- A packet is played by its invocation. -/
theorem Net.Plays.hook {r : Net ι} {net : Deployment.Net ι} (h : r.Plays net) (o : Options)
    (i : ι) (ctx : NfCtx) :
    ∃ net' r', Deployment.step o net (.hook i ctx) = some net'
      ∧ run o r (alone r (.hook i ctx)) = some r' ∧ r'.Plays net' := by
  obtain ⟨hnodes, hagents⟩ := h.update i ((h.nodes i).hook o ctx)
    (s := { net.agents i with
      ipMap := (nfPostroutingHook o.endian o.config ctx (net.agents i).ipMap).2 })
    ⟨(h.agents i).keys, (h.agents i).values⟩
  refine ⟨_, _, rfl, rfl, ?_, hagents, h.inFlight, h.server, h.earlier⟩
  rw [Net.onNode_onNode, Net.onNode_onNode]
  exact hnodes

/-- A tick is played by the operations of its batch call and the rest of it. -/
theorem Net.Plays.tick {r : Net ι} {net : Deployment.Net ι} (h : r.Plays net) (o : Options)
    (i : ι) (t : Tick) :
    ∃ net' r', Deployment.step o net (.tick i t) = some net'
      ∧ run o r (alone r (.tick i t)) = some r' ∧ r'.Plays net' := by
  let taken := (takeEntries t.batch.order maxEntries (net.agents i).ipMap).1
  let bodies := (sentReports o.sendData t taken).map bodyOf
  obtain ⟨s, hs, hbuffered, hmap, hdelivered⟩ := exists_onTick (h.agents i) o.sendData t
  rw [sentBodies_eq] at hdelivered
  have hstep : Deployment.step o net (.tick i t) = some { net with
      agents := Function.update net.agents i s
      inFlight := net.inFlight ++ bodies } := by
    simp only [Deployment.step, hs, hdelivered, List.drop_left, Option.bind_eq_bind,
      Option.bind_some, bodies, taken]
  -- the node takes the same entries
  have hroom : (r.nodes i).kernel.removed.length + maxEntries = maxEntries := by
    rw [(h.nodes i).removed]
    exact Nat.zero_add _
  obtain ⟨hrest, hremoved⟩ := Node.takeAll_spec t.batch.order (h.nodes i).ipMap hroom
  rw [(h.nodes i).removed, List.nil_append] at hremoved
  have htaken : ((r.nodes i).takeAll t.batch.order).kernel.removed.map pairOfFlow = taken := by
    rw [hremoved, List.map_map]
    exact List.map_id _
  -- and so it sends the same bodies
  obtain ⟨node, hnode, hsound, hkernel⟩ :=
    ((h.nodes i).sound.takeAll t.batch.order).exists_finishTick o.sendData t
  rw [htaken] at hnode
  have hplay : run o r (alone r (.tick i t)) = some { r with
      nodes := Function.update r.nodes i node
      inFlight := r.inFlight ++ bodies } := by
    rw [alone, run_append, run_take, Option.bind_some, run_singleton]
    simp only [step, Net.onNode, Function.update_self, Function.update_idem, hnode,
      Option.bind_eq_bind, Option.bind_some, bodies]
  have hholds : node.Holds s.ipMap := by
    refine ⟨hsound, ?_, ?_⟩
    · rw [hkernel, hmap]
      exact hrest
    · rw [hkernel]
  obtain ⟨hnodes, hagents⟩ := h.update i hholds hbuffered
  refine ⟨_, _, hstep, hplay, hnodes, hagents, ?_, h.server, h.earlier⟩
  show r.inFlight ++ bodies = net.inFlight ++ bodies
  rw [h.inFlight]

/-- An event is played by its operations.  A request is handled in one go, and so is
an event of the informers. -/
theorem Net.Plays.exists_run {r : Net ι} {net net' : Deployment.Net ι} (h : r.Plays net)
    {o : Options} {e : Deployment.Event ι} (hstep : Deployment.step o net e = some net') :
    ∃ r', run o r (alone r e) = some r' ∧ r'.Plays net' := by
  cases e with
  | hook i ctx =>
      obtain ⟨net'', r', hstep', hplay, hplays⟩ := h.hook o i ctx
      obtain rfl := Option.some.inj (hstep.symm.trans hstep')
      exact ⟨r', hplay, hplays⟩
  | tick i t =>
      obtain ⟨net'', r', hstep', hplay, hplays⟩ := h.tick o i t
      obtain rfl := Option.some.inj (hstep.symm.trans hstep')
      exact ⟨r', hplay, hplays⟩
  | deliver n =>
      rw [alone, run_singleton]
      simp only [step, Deployment.step, h.inFlight, h.server] at hstep ⊢
      cases hn : net.inFlight[n]? with
      | none =>
          rw [hn] at hstep
          obtain rfl := Option.some.inj hstep
          exact ⟨r, rfl, h⟩
      | some body =>
          rw [hn] at hstep
          obtain ⟨⟨response, server, flowLogs⟩, hpost, hserver⟩ := Option.bind_eq_some_iff.1 hstep
          obtain rfl := Option.some.inj hserver
          refine ⟨{ r with inFlight := net.inFlight.eraseIdx n, server := server }, ?_, h.nodes,
            h.agents, rfl, rfl, h.earlier⟩
          simp only [hpost, Option.bind_eq_bind, Option.bind_some]
  | informer e =>
      obtain ⟨server, hserver, hnet⟩ := Option.bind_eq_some_iff.1 hstep
      obtain rfl := Option.some.inj hnet
      refine ⟨{ r with server := server }, ?_, h.nodes, h.agents, h.inFlight, rfl, h.earlier⟩
      rw [alone, run_singleton]
      simp only [step, h.server, hserver, Option.bind_eq_bind, Option.bind_some]

omit [DecidableEq ι] in
theorem plays_start (server : Server.State) :
    (Net.start server : Net ι).Plays (Deployment.Net.start server) where
  nodes _ := ⟨Node.sound_start, fun _ => rfl, rfl⟩
  agents _ := ⟨cap_make _ _, cap_make _ _⟩
  inFlight := rfl
  server := rfl
  earlier := rfl

/-- The packet that an event brings to a hook, and the node of the hook. -/
def sighting : Event ι → Option (ι × NfCtx)
  | .hook i ctx => some (i, ctx)
  | _ => none

omit [DecidableEq ι] in
/-- The operations of an event bring the packet of the event to the hook, and no other. -/
theorem filterMap_sighting_alone (r : Net ι) (e : Deployment.Event ι) :
    (alone r e).filterMap sighting = [e].filterMap Deployment.sighting := by
  cases e with
  | hook i ctx => rfl
  | tick i t =>
      have htake : (t.batch.order.map (Event.take i)).filterMap sighting = [] := by
        rw [List.filterMap_map]
        exact List.filterMap_eq_nil_iff.2 fun _ _ => rfl
      rw [alone, List.filterMap_append, htake]
      rfl
  | deliver n => rfl
  | informer e => rfl

/-- Main result: every run in which hooks and ticks are done in one go is a run, of
the same packets, in which the operations of all nodes follow one another, with the
same requests on their way, the same server and the same entries in the maps. -/
theorem exists_run_alone (o : Options) (server : Server.State) (es : List (Deployment.Event ι)) :
    ∃ net es' r, Deployment.run o (Deployment.Net.start server) es = some net
      ∧ run o (Net.start server) es' = some r
      ∧ es'.filterMap sighting = es.filterMap Deployment.sighting
      ∧ r.inFlight = net.inFlight ∧ r.server = net.server ∧ r.earlier = []
      ∧ ∀ i, Represents (r.nodes i).kernel.ipMap (net.agents i).ipMap := by
  have hplays : ∃ net es' r, Deployment.run o (Deployment.Net.start server) es = some net
      ∧ run o (Net.start server) es' = some r
      ∧ es'.filterMap sighting = es.filterMap Deployment.sighting ∧ r.Plays net := by
    induction es using List.reverseRecOn with
    | nil => exact ⟨_, [], _, rfl, rfl, rfl, plays_start server⟩
    | append_singleton es e ih =>
        obtain ⟨net, es', r, hnet, hr, hpackets, hplays⟩ := ih
        -- the run goes on, as every run does
        obtain ⟨net', hnet', -⟩ := Deployment.exists_run_ledgers o server (es ++ [e])
        have hstep : Deployment.step o net e = some net' := by
          rw [← hnet', Deployment.run, List.foldlM_append, ← Deployment.run, hnet]
          exact (bind_pure (Deployment.step o net e)).symm
        obtain ⟨r', hr', hplays'⟩ := hplays.exists_run hstep
        refine ⟨net', es' ++ alone r e, r', hnet', ?_, ?_, hplays'⟩
        · rw [run_append, hr, Option.bind_some, hr']
        · rw [List.filterMap_append, List.filterMap_append, hpackets, filterMap_sighting_alone]
  obtain ⟨net, es', r, hnet, hr, hpackets, hplays⟩ := hplays
  exact ⟨net, es', r, hnet, hr, hpackets, hplays.inFlight, hplays.server, hplays.earlier,
    fun i => (hplays.nodes i).ipMap⟩

end Racing
