/-
# The whole system

The agents on their nodes, the requests on their way, and the server.  The steps
are those of the code: a packet passes the hook of a node, an agent's ticker
fires, the server handles a request that has reached it, an informer tells the
server something.  In which order they come is open, and so is how long a request
takes; that it does not reach the server at all is an input of the tick.

`Ledgers` is the system without buffers and bodies: the books of every agent, the
pairs on their way and those the server has handled.  The system keeps the
ledgers and never panics (`exists_run_ledgers`), each agent is where its own
events have brought it (`books_run`), and no request is lost or made up
(`requests_run`).
-/
import Kubezonnet.AgentLedger
import Kubezonnet.Hook
import Kubezonnet.Serialization

open Agent Ebpf GoSlice Payload

namespace Deployment

variable {ι : Type}

/-! ## The system -/

/-- The agents, the bodies that have left them but are not handled yet, and the server. -/
structure Net (ι : Type) : Type where
  agents : ι → Agent.State
  inFlight : List (Slice UInt8)
  server : Server.State

/-- All agents start on a server that is already running. -/
def Net.start (server : Server.State) : Net ι := ⟨fun _ => Agent.State.start, [], server⟩

/-- What an informer tells the server: an event that is no payload. -/
def InformerEvent : Type := { e : Server.Event // ∀ data, e ≠ .payload data }

/-- What happens in the system. -/
inductive Event (ι : Type) : Type where
  | hook (i : ι) (ctx : NfCtx) : Event ι
  | tick (i : ι) (t : Tick) : Event ι
  | deliver (n : ℕ) : Event ι
  | informer (e : InformerEvent) : Event ι

variable [DecidableEq ι]

/-- The state after an event.  All agents run with the same options. -/
def step (o : Options) (net : Net ι) : Event ι → Option (Net ι)
  | .hook i ctx =>
      let s := net.agents i
      let ipMap := (nfPostroutingHook o.endian o.config ctx s.ipMap).2
      some { net with agents := Function.update net.agents i { s with ipMap := ipMap } }
  | .tick i t => do
      let s ← onTick o.sendData t (net.agents i)
      -- what the agent has sent at this tick is on its way
      let bodies := s.delivered.drop (net.agents i).delivered.length
      some { net with
        agents := Function.update net.agents i s
        inFlight := net.inFlight ++ bodies }
  | .deliver n =>
      match net.inFlight[n]? with
      | none => some net
      | some body => do
          let (_, server, _) ← Server.handlePayload ⟨"POST", .ok body⟩ net.server
          some { net with inFlight := net.inFlight.eraseIdx n, server := server }
  | .informer e => do
      let server ← Server.step net.server e.1
      some { net with server := server }

/-- The state after a run of events. -/
def run (o : Options) (net : Net ι) (es : List (Event ι)) : Option (Net ι) :=
  es.foldlM (step o) net

/-! ## Ledgers -/

/-- The books of the agents, the pairs of the requests on their way, those of the
requests that were handled, and the server. -/
structure Ledgers (ι : Type) : Type where
  books : ι → Books
  inFlight : List (List (IPKey × IPValue))
  handled : List (List (IPKey × IPValue))
  server : Server.State

/-- The ledgers at the start. -/
def Ledgers.start (server : Server.State) : Ledgers ι := ⟨fun _ => Books.start, [], [], server⟩

/-- The ledgers after an event. -/
def Ledgers.next (o : Options) (l : Ledgers ι) : Event ι → Ledgers ι
  | .hook i ctx =>
      if ctx.IsIPv4 then
        { l with books := Function.update l.books i ((l.books i).next o (.packet ctx.skb)) }
      else l
  | .tick i t =>
      { l with
        books := Function.update l.books i ((l.books i).next o (.tick t))
        inFlight := l.inFlight
          ++ sentReports o.sendData t (takeEntries t.batch.order maxEntries (l.books i).ipMap).1 }
  | .deliver n =>
      match l.inFlight[n]? with
      | none => l
      | some kvs =>
          { l with
            inFlight := l.inFlight.eraseIdx n
            handled := l.handled ++ [kvs]
            server := Runs.run Server.State.account l.server (kvs.map toEntry) }
  | .informer e => { l with server := l.server.next e.1 }

/-- The ledgers after a run. -/
def Ledgers.after (o : Options) (server : Server.State) (es : List (Event ι)) : Ledgers ι :=
  Runs.run (Ledgers.next o) (Ledgers.start server) es

/-- The system keeps the ledgers. -/
structure Net.Keeps (net : Net ι) (l : Ledgers ι) : Prop where
  agents : ∀ i, (net.agents i).Keeps (l.books i)
  inFlight : net.inFlight = l.inFlight.map bodyOf
  fits : ∀ kvs ∈ l.inFlight, kvs.length ≤ maxEntries
  server : net.server = l.server

/-- The server decodes and accounts for a body of pairs. -/
theorem handlePayload_bodyOf {kvs : List (IPKey × IPValue)} (h : kvs.length ≤ maxEntries)
    (s : Server.State) :
    ∃ flowLogs, Server.handlePayload ⟨"POST", .ok (bodyOf kvs)⟩ s
      = some (⟨200, ""⟩, Runs.run Server.State.account s (kvs.map toEntry), flowLogs) := by
  have hlen : 4 + 20 * kvs.length < 2 ^ 32 := by
    unfold maxEntries at h
    omega
  have hdecode : decode (bodyOf kvs) = some (.ok (kvs.map toEntry)) := decode_wire kvs hlen
  refine ⟨(Server.handleEntries (kvs.map toEntry) s []).2, ?_⟩
  rw [← Server.handleEntries_fst (kvs.map toEntry) s []]
  simp only [Server.handlePayload, hdecode, ne_eq, not_true_eq_false, ↓reduceIte,
    Option.bind_eq_bind, Option.bind_some]

/-- One member of each of two families moves, and the others stay related. -/
theorem related_update {α β : Type} {R : α → β → Prop} {f : ι → α} {g : ι → β}
    (h : ∀ j, R (f j) (g j)) (i : ι) {a : α} {b : β} (hab : R a b) (j : ι) :
    R (Function.update f i a j) (Function.update g i b j) := by
  by_cases hj : j = i
  · subst hj
    rw [Function.update_self, Function.update_self]
    exact hab
  · rw [Function.update_of_ne hj, Function.update_of_ne hj]
    exact h j

/-- An event does not panic, and keeps the ledgers. -/
theorem Net.Keeps.exists_step {net : Net ι} {l : Ledgers ι} (h : net.Keeps l) (o : Options)
    (e : Event ι) : ∃ net', step o net e = some net' ∧ net'.Keeps (l.next o e) := by
  cases e with
  | hook i ctx =>
      refine ⟨_, rfl, ?_⟩
      simp only [Ledgers.next, nfPostroutingHook_eq]
      split_ifs with hip
      · obtain ⟨s', hs', hkeeps⟩ := (h.agents i).exists_step o (.packet ctx.skb)
        obtain rfl := Option.some.inj hs'
        exact ⟨related_update h.agents i hkeeps, h.inFlight, h.fits, h.server⟩
      · have hsame : Function.update net.agents i (net.agents i) = net.agents :=
          Function.update_eq_self i net.agents
        refine ⟨fun j => ?_, h.inFlight, h.fits, h.server⟩
        show (Function.update net.agents i (net.agents i) j).Keeps (l.books j)
        rw [hsame]
        exact h.agents j
  | tick i t =>
      obtain ⟨s', hs', hkeeps⟩ := (h.agents i).exists_step o (.tick t)
      have htick : onTick o.sendData t (net.agents i) = some s' := hs'
      have hdelivered : s'.delivered.drop (net.agents i).delivered.length
          = (sentReports o.sendData t
            (takeEntries t.batch.order maxEntries (l.books i).ipMap).1).map bodyOf := by
        rw [hkeeps.delivered, (h.agents i).delivered, Books.next, List.map_append, List.drop_left]
      have hstep : step o net (.tick i t) = some { net with
          agents := Function.update net.agents i s'
          inFlight := net.inFlight ++ s'.delivered.drop (net.agents i).delivered.length } := by
        simp only [step, htick, Option.bind_eq_bind, Option.bind_some]
      refine ⟨_, hstep, related_update h.agents i hkeeps, ?_, ?_, h.server⟩
      · show net.inFlight ++ _ = _
        rw [hdelivered, h.inFlight, ← List.map_append]
        rfl
      · intro kvs hkvs
        rcases List.mem_append.1 hkvs with hkvs | hkvs
        · exact h.fits kvs hkvs
        · exact length_sentReports_le hkvs
  | deliver n =>
      have hget : net.inFlight[n]? = (l.inFlight[n]?).map bodyOf := by
        rw [h.inFlight, List.getElem?_map]
      simp only [step, Ledgers.next, hget]
      cases hn : l.inFlight[n]? with
      | none => exact ⟨net, rfl, h⟩
      | some kvs =>
          have hfits : kvs.length ≤ maxEntries := h.fits kvs (List.mem_of_getElem? hn)
          obtain ⟨flowLogs, hpost⟩ := handlePayload_bodyOf hfits net.server
          simp only [Option.map_some, hpost, Option.bind_eq_bind, Option.bind_some]
          refine ⟨_, rfl, h.agents, ?_, ?_, ?_⟩
          · show net.inFlight.eraseIdx n = (l.inFlight.eraseIdx n).map bodyOf
            rw [h.inFlight, List.eraseIdx_map]
          · exact fun kvs' hkvs' => h.fits kvs' (List.mem_of_mem_eraseIdx hkvs')
          · show Runs.run Server.State.account net.server _ = _
            rw [h.server]
  | informer e =>
      refine ⟨{ net with server := net.server.next e.1 }, ?_, h.agents, h.inFlight, h.fits, ?_⟩
      · simp only [step, Server.step_eq, Option.bind_eq_bind, Option.bind_some]
      · show net.server.next e.1 = l.server.next e.1
        rw [h.server]

omit [DecidableEq ι] in
theorem keeps_start (server : Server.State) :
    (Net.start server : Net ι).Keeps (Ledgers.start server) where
  agents _ := ⟨⟨cap_make _ _, cap_make _ _⟩, rfl, rfl⟩
  inFlight := rfl
  fits _ h := absurd h List.not_mem_nil
  server := rfl

/-- Every run of the system keeps the ledgers. -/
theorem exists_run_ledgers (o : Options) (server : Server.State) (es : List (Event ι)) :
    ∃ net, run o (Net.start server) es = some net ∧ net.Keeps (Ledgers.after o server es) := by
  induction es using List.reverseRecOn with
  | nil => exact ⟨_, rfl, keeps_start server⟩
  | append_singleton es e ih =>
      obtain ⟨net, hrun, hkeeps⟩ := ih
      obtain ⟨net', hstep, hkeeps'⟩ := hkeeps.exists_step o e
      refine ⟨net', ?_, ?_⟩
      · unfold run at hrun ⊢
        rw [List.foldlM_append, hrun]
        simp [hstep]
      · rw [Ledgers.after, Runs.run_concat]
        exact hkeeps'

/-! ## The view of one node -/

/-- What an event of the system is to the agent of a node. -/
def atNode (i : ι) : Event ι → Option Agent.Event
  | .hook j ctx => if j = i ∧ ctx.IsIPv4 then some (.packet ctx.skb) else none
  | .tick j t => if j = i then some (.tick t) else none
  | _ => none

/-- The events of a node, in order. -/
def eventsAt (i : ι) (es : List (Event ι)) : List Agent.Event := es.filterMap (atNode i)

/-- An event moves the books of its own node, and no others. -/
theorem books_next (o : Options) (l : Ledgers ι) (e : Event ι) (i : ι) :
    (l.next o e).books i = ((atNode i e).map fun e => (l.books i).next o e).getD (l.books i) := by
  cases e with
  | hook j ctx =>
      simp only [Ledgers.next, atNode]
      by_cases hip : ctx.IsIPv4
      · by_cases hj : j = i
        · subst hj
          simp [hip]
        · simp [hip, hj, Function.update_of_ne (Ne.symm hj)]
      · simp [hip]
  | tick j t =>
      simp only [Ledgers.next, atNode]
      by_cases hj : j = i
      · subst hj
        simp
      · simp [hj, Function.update_of_ne (Ne.symm hj)]
  | deliver n =>
      simp only [Ledgers.next, atNode, Option.map_none, Option.getD_none]
      cases l.inFlight[n]? <;> rfl
  | informer e => rfl

/-- Every agent is where its own events have brought it. -/
theorem books_run (o : Options) (server : Server.State) (es : List (Event ι)) (i : ι) :
    (Ledgers.after o server es).books i = Books.after o (eventsAt i es) := by
  refine Runs.run_history (I := fun es (l : Ledgers ι) =>
    l.books i = Books.after o (eventsAt i es)) rfl (fun es l e ih => ?_) es
  rw [books_next, ih, eventsAt, eventsAt, List.filterMap_append]
  cases hat : atNode i e with
  | none => rw [List.filterMap_cons_none hat, List.filterMap_nil, List.append_nil]; rfl
  | some e' =>
      rw [List.filterMap_cons_some hat, List.filterMap_nil, Books.after, Books.after,
        Runs.run_concat]
      rfl

/-! ## Packets -/

/-- The flow of a packet that a hook counts. -/
def hookFlow (o : Options) (ctx : NfCtx) : Option (IPKey × UInt64) :=
  if ctx.IsIPv4 then flowOf o.endian o.config ctx.skb else none

/-- What a hook does to the map. -/
theorem nfPostroutingHook_snd (o : Options) (ctx : NfCtx) (ipMap : IpMap) :
    (nfPostroutingHook o.endian o.config ctx ipMap).2
      = match hookFlow o ctx with
        | some flow => countFlow ipMap flow.1 flow.2
        | none => ipMap := by
  rw [nfPostroutingHook_eq, hookFlow]
  split_ifs
  · unfold handleV4
    cases flowOf o.endian o.config ctx.skb <;> rfl
  · rfl

/-- The packet that an event brings to a hook, and the node of the hook. -/
def sighting : Event ι → Option (ι × NfCtx)
  | .hook i ctx => some (i, ctx)
  | _ => none

/-! ## Requests -/

/-- The requests of an agent, in whatever order. -/
def requestsOf (b : Books) : Multiset (List (IPKey × IPValue)) := b.sent

/-- The requests that have left the agents: those handled and those on their way. -/
def Ledgers.requests (l : Ledgers ι) : Multiset (List (IPKey × IPValue)) :=
  (l.handled : Multiset _) + (l.inFlight : Multiset _)

/-- What one agent sends is added to what all agents have sent. -/
theorem sum_requestsOf_update [Fintype ι] (books : ι → Books) (i : ι) {b : Books}
    {new : List (List (IPKey × IPValue))} (hb : b.sent = (books i).sent ++ new) :
    ∑ j, requestsOf (Function.update books i b j) = ∑ j, requestsOf (books j) + new := by
  have hterm : ∀ j, requestsOf (Function.update books i b j)
      = requestsOf (books j) + if j = i then (new : Multiset _) else 0 := by
    intro j
    by_cases hj : j = i
    · subst hj
      rw [Function.update_self, if_pos rfl, requestsOf, hb, ← Multiset.coe_add]
      rfl
    · rw [Function.update_of_ne hj, if_neg hj, add_zero]
  rw [Finset.sum_congr rfl fun j _ => hterm j, Finset.sum_add_distrib,
    Finset.sum_ite_eq' Finset.univ i, if_pos (Finset.mem_univ i)]

/-- The request that is handled leaves those that are on their way. -/
theorem coe_eraseIdx_add {α : Type} (xs : List α) (n : ℕ) (hn : n < xs.length) :
    ({xs[n]} : Multiset α) + (xs.eraseIdx n : Multiset α) = xs :=
  Multiset.coe_eq_coe.2 (List.getElem_cons_eraseIdx_perm hn)

/-- No request is lost on its way or made up: those that were handled and those
on their way are those that the agents have sent. -/
theorem requests_run [Fintype ι] (o : Options) (server : Server.State) (es : List (Event ι)) :
    (Ledgers.after o server es).requests
      = ∑ i, requestsOf ((Ledgers.after o server es).books i) := by
  refine Runs.run_history (I := fun _ (l : Ledgers ι) => l.requests = ∑ i, requestsOf (l.books i))
    ?_ (fun _ l e ih => ?_) es
  · exact (Finset.sum_eq_zero fun i _ => rfl).symm
  cases e with
  | hook i ctx =>
      have hnone : ((l.books i).next o (.packet ctx.skb)).sent = (l.books i).sent ++ [] :=
        (List.append_nil _).symm
      simp only [Ledgers.next]
      split_ifs
      · rw [sum_requestsOf_update l.books i hnone, ← ih]
        exact (add_zero _).symm
      · exact ih
  | tick i t =>
      simp only [Ledgers.next]
      rw [sum_requestsOf_update l.books i rfl, ← ih, Ledgers.requests, Ledgers.requests,
        ← Multiset.coe_add, add_assoc]
  | deliver n =>
      simp only [Ledgers.next]
      cases hn : l.inFlight[n]? with
      | none => exact ih
      | some kvs =>
          obtain ⟨hlt, rfl⟩ := List.getElem?_eq_some_iff.1 hn
          have hmove := coe_eraseIdx_add l.inFlight n hlt
          show Ledgers.requests _ = ∑ i, requestsOf (l.books i)
          rw [← ih, Ledgers.requests, Ledgers.requests, ← Multiset.coe_add, add_assoc,
            Multiset.coe_singleton, hmove]
  | informer e => exact ih

/-- An amount of the requests, added up where they are and where they come from. -/
theorem sum_requests_run [Fintype ι] (o : Options) (server : Server.State) (es : List (Event ι))
    (f : List (IPKey × IPValue) → ℕ) :
    ((Ledgers.after o server es).handled.map f).sum + ((Ledgers.after o server es).inFlight.map f).sum
      = ∑ i, ((Books.after o (eventsAt i es)).sent.map f).sum := by
  let total : Multiset (List (IPKey × IPValue)) →+ ℕ :=
    Multiset.sumAddMonoidHom.comp (Multiset.mapAddMonoidHom f)
  have htotal : ∀ reports : List (List (IPKey × IPValue)), total reports = (reports.map f).sum :=
    fun reports => by simp [total]
  have h := congrArg total (requests_run o server es)
  rw [map_sum, Ledgers.requests, map_add, htotal, htotal] at h
  rw [h]
  refine Finset.sum_congr rfl fun i _ => ?_
  rw [← books_run o server]
  exact htotal _

end Deployment
