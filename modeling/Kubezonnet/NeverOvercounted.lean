/-
# What the server claims

The statistics of all series together never say more than the hooks have seen,
and what they do not say yet is on its way or on a node: in every run of the
system the counters, the requests on their way and what the nodes have not sent
add up to at most what the counters were at the start and the bytes of the packets
(`never_overcounted`).  Neither operations of many CPUs in between each other, nor
retries of the batch call, nor requests that are handled late and out of order, nor
informer events between them make a byte count twice, and no entry counts for two
series.

Faults only lose bytes: this is so also when the counters of all lives of the server
are added up, as whoever scrapes them does.
-/
import Kubezonnet.ServerAccounting
import Kubezonnet.Races

open Agent Ebpf ElemMap GoSlice Payload

namespace Server

/-! ## The counters of some series -/

/-- What the counters of some series say together. -/
def State.totalOver (series : Finset PodKey) (s : State) : ℕ :=
  ∑ k ∈ series, ((s.statistics.lookup k).getD 0).toNat

/-- An entry counts at most once over all series. -/
theorem totalOver_account_le (series : Finset PodKey) (s : State) (entry : Entry) :
    (s.account entry).totalOver series ≤ s.totalOver series + entry.traffic.toNat := by
  unfold State.account
  cases s.attribution entry with
  | none => exact Nat.le_add_right _ _
  | some k =>
      -- only the counter of the key grows, and by no more than the traffic
      have hterm : ∀ k' ∈ series,
          (((GoMap.addTo s.statistics k entry.traffic).lookup k').getD 0).toNat
            ≤ ((s.statistics.lookup k').getD 0).toNat
              + if k = k' then entry.traffic.toNat else 0 := by
        intro k' _
        by_cases hk : k = k'
        · subst hk
          rw [GoMap.lookup_addTo_self, Option.getD_some, UInt64.toNat_add, if_pos rfl]
          exact Nat.mod_le _ _
        · rw [GoMap.lookup_addTo_ne _ _ (Ne.symm hk), if_neg hk, Nat.add_zero]
      have hone : ∑ k' ∈ series, (if k = k' then entry.traffic.toNat else 0)
          ≤ entry.traffic.toNat := by
        rw [Finset.sum_ite_eq]
        split_ifs
        · exact Nat.le_refl _
        · exact Nat.zero_le _
      calc State.totalOver series { s with statistics := GoMap.addTo s.statistics k entry.traffic }
          ≤ ∑ k' ∈ series, (((s.statistics.lookup k').getD 0).toNat
              + if k = k' then entry.traffic.toNat else 0) := Finset.sum_le_sum hterm
        _ = s.totalOver series + ∑ k' ∈ series, (if k = k' then entry.traffic.toNat else 0) :=
            Finset.sum_add_distrib
        _ ≤ s.totalOver series + entry.traffic.toNat := Nat.add_le_add_left hone _

/-- A payload counts at most its traffic. -/
theorem totalOver_run_account_le (series : Finset PodKey) (s : State) (data : List Entry) :
    (Runs.run State.account s data).totalOver series
      ≤ s.totalOver series + (data.map fun entry => entry.traffic.toNat).sum := by
  induction data generalizing s with
  | nil => exact Nat.le_refl _
  | cons entry data ih =>
      rw [Runs.run_cons, List.map_cons, List.sum_cons, ← Nat.add_assoc]
      exact (ih _).trans (Nat.add_le_add_right (totalOver_account_le series s entry) _)

/-- An event that is no payload lets no counter grow. -/
theorem totalOver_next_le (series : Finset PodKey) (s : State) {e : Event}
    (he : ∀ data, e ≠ .payload data) : (s.next e).totalOver series ≤ s.totalOver series := by
  refine Finset.sum_le_sum fun k _ => ?_
  rw [lookup_statistics_event s e he k, counterAfter, Runs.resetCounter]
  split_ifs
  · exact Nat.zero_le _
  · exact Nat.le_refl _

end Server

namespace Agent

/-! ## Bytes of reports -/

/-- The bytes of some pairs. -/
def pairsTotal (kvs : List (IPKey × IPValue)) : ℕ := (kvs.map fun kv => kv.2.packetSize.toNat).sum

/-- Fewer pairs have fewer bytes. -/
theorem pairsTotal_le_of_sublist {kvs kvs' : List (IPKey × IPValue)} (h : kvs.Sublist kvs') :
    pairsTotal kvs ≤ pairsTotal kvs' :=
  (h.map _).sum_le_sum fun _ _ => Nat.zero_le _

/-- A tick sends at most what it takes. -/
theorem sum_sentReports_le (sendData : Bool) (t : Tick) (taken : List (IPKey × IPValue)) :
    ((sentReports sendData t taken).map pairsTotal).sum ≤ pairsTotal taken := by
  unfold sentReports
  split_ifs
  · rw [List.map_singleton, List.sum_singleton]
    exact pairsTotal_le_of_sublist List.filter_sublist
  · exact Nat.zero_le _

/-- The bytes of bodies, as the server decodes them. -/
def bodiesTotal (bodies : List (Slice UInt8)) : ℕ :=
  (bodies.map fun body => pairsTotal (reportOf body)).sum

theorem bodiesTotal_append (bodies bodies' : List (Slice UInt8)) :
    bodiesTotal (bodies ++ bodies') = bodiesTotal bodies + bodiesTotal bodies' := by
  unfold bodiesTotal
  rw [List.map_append, List.sum_append]

/-- The bodies of reports have the bytes of the reports. -/
theorem bodiesTotal_bodyOf {reports : List (List (IPKey × IPValue))}
    (h : ∀ kvs ∈ reports, kvs.length ≤ maxEntries) :
    bodiesTotal (reports.map bodyOf) = (reports.map pairsTotal).sum := by
  unfold bodiesTotal
  rw [List.map_map]
  congr 1
  exact List.map_congr_left fun kvs hkvs => congrArg pairsTotal (reportOf_wire (h kvs hkvs))

/-- A body that is taken out of some takes its bytes with it. -/
theorem bodiesTotal_eraseIdx {bodies : List (Slice UInt8)} {n : ℕ} {body : Slice UInt8}
    (h : bodies[n]? = some body) :
    bodiesTotal (bodies.eraseIdx n) + pairsTotal (reportOf body) = bodiesTotal bodies := by
  obtain ⟨hlt, rfl⟩ := List.getElem?_eq_some_iff.1 h
  have hperm := (List.getElem_cons_eraseIdx_perm hlt).map fun body => pairsTotal (reportOf body)
  unfold bodiesTotal
  rw [← hperm.sum_eq, List.map_cons, List.sum_cons, Nat.add_comm]

theorem bodiesTotal_eraseIdx_le (bodies : List (Slice UInt8)) (n : ℕ) :
    bodiesTotal (bodies.eraseIdx n) ≤ bodiesTotal bodies :=
  ((bodies.eraseIdx_sublist n).map _).sum_le_sum fun _ _ => Nat.zero_le _

end Agent

namespace Ebpf

/-! ## Bytes of a kernel -/

/-- The bytes that an invocation has yet to count. -/
def Invocation.pending (inv : Invocation) : ℕ := if inv.pc = .done then 0 else inv.packetSize.toNat

/-- The bytes in the map, those that the invocations have yet to count, and those
that were removed. -/
def System.known (s : System) : ℕ :=
  s.ipMap.total + (s.invocations.map Invocation.pending).sum
    + (s.removed.map fun flow => flow.2.toNat).sum

/-- An operation of an invocation puts at most what it had yet to count into the map. -/
theorem total_next_le (inv : Invocation) (ipMap : Map IPKey) :
    (inv.next ipMap).1.total + (inv.next ipMap).2.pending ≤ ipMap.total + inv.pending := by
  -- what it counts goes to its own key
  have hdone : inv.pc ≠ .done → (inv.next ipMap).2.pc = .done →
      (inv.next ipMap).1.total ≤ ipMap.total + inv.packetSize.toNat := by
    intro hbefore hafter
    refine total_le_add (k := inv.key) fun key => ?_
    have hledger := ledger_next key inv ipMap
    have hflow := flow_next inv ipMap
    have hkey : (inv.next ipMap).2.key = inv.key := congrArg Prod.fst hflow
    have hsize : (inv.next ipMap).2.packetSize = inv.packetSize := congrArg Prod.snd hflow
    simp only [Invocation.bytesDone, hbefore, hafter, hkey, hsize, false_and, true_and,
      if_false] at hledger
    omega
  obtain ⟨key, packetSize, pc⟩ := inv
  cases pc with
  | lookup =>
      cases hlookup : ipMap.lookupElem key <;> simp [Invocation.next, Invocation.pending, hlookup]
  | add stamp => exact hdone (by simp) rfl
  | update => exact hdone (by simp) rfl
  | done => exact Nat.le_refl _

/-- No operation makes bytes known that were not. -/
theorem known_step_le (s : System) (st : Step) : (s.step st).known ≤ s.known := by
  cases st with
  | run i =>
      cases hinv : s.invocations[i]? with
      | none => simp only [System.step, hinv, Nat.le_refl]
      | some inv =>
          have hnext := total_next_le inv s.ipMap
          have hset := sum_map_set Invocation.pending hinv (inv.next s.ipMap).2
          simp only [System.step, hinv, System.known]
          omega
  | remove key =>
      have htotal := total_lookupAndDelete s.ipMap key
      simp only [System.step]
      cases hdelete : s.ipMap.lookupAndDelete key with
      | mk value ipMap =>
          rw [hdelete] at htotal
          cases value with
          | none => exact Nat.le_refl _
          | some value =>
              simp only [Option.map_some, Option.getD_some] at htotal
              simp only [System.known, List.map_append, List.sum_append, List.map_singleton,
                List.sum_singleton]
              omega

end Ebpf

namespace Racing

/-! ## Bytes of a system -/

/-- The bytes that a hook counts at an event. -/
def hookBytes {ι : Type} (o : Options) : Event ι → ℕ
  | .hook _ ctx => ((Deployment.hookFlow o ctx).toList.map fun flow => flow.2.toNat).sum
  | _ => 0

/-- A packet adds the bytes that the hook counts. -/
theorem known_enterHook (o : Options) (ctx : NfCtx) (node : Node) :
    (node.enterHook o ctx).kernel.known
      = node.kernel.known
        + ((Deployment.hookFlow o ctx).toList.map fun flow => flow.2.toNat).sum := by
  rw [Node.enterHook_eq]
  cases Deployment.hookFlow o ctx with
  | none => rfl
  | some flow =>
      simp only [System.known, Invocation.pending, List.map_append, List.sum_append,
        List.map_singleton, List.sum_singleton, Option.toList_some, reduceCtorEq, if_false]
      omega

theorem known_take_le (key : IPKey) (node : Node) :
    (node.take key).kernel.known ≤ node.kernel.known := by
  unfold Node.take
  split_ifs
  · exact known_step_le node.kernel (.remove key)
  · exact Nat.le_refl _

variable {ι : Type} [DecidableEq ι] [Fintype ι]

/-- What the counters of some series have said in all lives of the server, and what
they do not say yet. -/
def Net.known (series : Finset Server.PodKey) (net : Net ι) : ℕ :=
  (net.earlier.map (Server.State.totalOver series)).sum + net.server.totalOver series
    + bodiesTotal net.inFlight + ∑ i, (net.nodes i).kernel.known

/-- The nodes are sound, and the bodies on their way are those of reports. -/
structure Net.Sound (net : Net ι) : Prop where
  nodes : ∀ i, (net.nodes i).Sound
  reports : ∀ body ∈ net.inFlight, ∃ kvs, kvs.length ≤ maxEntries ∧ body = bodyOf kvs

omit [DecidableEq ι] [Fintype ι] in
theorem sound_start (server : Server.State) : (Net.start server : Net ι).Sound where
  nodes _ := Node.sound_start
  reports _ h := absurd h List.not_mem_nil

/-- One node moves, and the others stay as they are. -/
theorem sum_known_update (nodes : ι → Node) (i : ι) (node : Node) :
    ∑ j, (Function.update nodes i node j).kernel.known + (nodes i).kernel.known
      = ∑ j, (nodes j).kernel.known + node.kernel.known := by
  have hothers : ∑ j ∈ Finset.univ.erase i, (Function.update nodes i node j).kernel.known
      = ∑ j ∈ Finset.univ.erase i, (nodes j).kernel.known := by
    refine Finset.sum_congr rfl fun j hj => ?_
    rw [Function.update_of_ne (Finset.ne_of_mem_erase hj)]
  rw [← Finset.add_sum_erase _ _ (Finset.mem_univ i),
    ← Finset.add_sum_erase Finset.univ (fun j => (nodes j).kernel.known) (Finset.mem_univ i),
    hothers, Function.update_self]
  omega

omit [Fintype ι] in
theorem Net.Sound.update {net : Net ι} (h : net.Sound) (i : ι) {node : Node}
    (hnode : node.Sound) : ∀ j, (Function.update net.nodes i node j).Sound :=
  (Function.forall_update_iff net.nodes fun _ node => node.Sound).2 ⟨hnode, fun j _ => h.nodes j⟩

/-- A node that moves makes at most the bytes known that it has more. -/
theorem Net.Sound.onNode {net : Net ι} (h : net.Sound) (i : ι) {f : Node → Node} {bytes : ℕ}
    (hsound : (f (net.nodes i)).Sound)
    (hknown : (f (net.nodes i)).kernel.known ≤ (net.nodes i).kernel.known + bytes)
    (series : Finset Server.PodKey) :
    (net.onNode i f).Sound ∧ (net.onNode i f).known series ≤ net.known series + bytes := by
  refine ⟨⟨h.update i hsound, h.reports⟩, ?_⟩
  have hnodes := sum_known_update net.nodes i (f (net.nodes i))
  unfold Net.known Net.onNode
  dsimp only
  omega

/-- What a batch call has taken is sent at most once. -/
theorem Net.Sound.tick {net : Net ι} (h : net.Sound) (o : Options) (i : ι) (t : Tick)
    (series : Finset Server.PodKey) :
    ∃ net', step o net (.tick i t) = some net' ∧ net'.Sound
      ∧ net'.known series ≤ net.known series := by
  obtain ⟨node, hnode, hsound, hkernel⟩ := (h.nodes i).exists_finishTick o.sendData t
  let taken := (net.nodes i).kernel.removed.map pairOfFlow
  let reports := sentReports o.sendData t taken
  have hfits : ∀ kvs ∈ reports, kvs.length ≤ maxEntries := by
    intro kvs hkvs
    have htaken : taken.length ≤ maxEntries := by
      rw [List.length_map]
      exact (h.nodes i).removed
    simp only [reports, sentReports] at hkvs
    split_ifs at hkvs
    · rw [List.mem_singleton.1 hkvs]
      exact List.filter_sublist.length_le.trans htaken
    · exact absurd hkvs List.not_mem_nil
  have hbodies : bodiesTotal (reports.map bodyOf) ≤ pairsTotal taken :=
    (bodiesTotal_bodyOf hfits).trans_le (sum_sentReports_le o.sendData t taken)
  have hremoved : pairsTotal taken
      = ((net.nodes i).kernel.removed.map fun flow => flow.2.toNat).sum := by
    unfold pairsTotal
    rw [List.map_map]
    rfl
  have hstep : step o net (.tick i t) = some { net with
      nodes := Function.update net.nodes i node
      inFlight := net.inFlight ++ reports.map bodyOf } := by
    simp only [step, hnode, Option.bind_eq_bind, Option.bind_some, reports, taken]
  refine ⟨_, hstep, ⟨h.update i hsound, fun body hbody => ?_⟩, ?_⟩
  · rcases List.mem_append.1 hbody with hbody | hbody
    · exact h.reports body hbody
    · obtain ⟨kvs, hkvs, rfl⟩ := List.mem_map.1 hbody
      exact ⟨kvs, hfits kvs hkvs, rfl⟩
  · have hnodes := sum_known_update net.nodes i node
    have hknown : node.kernel.known + pairsTotal taken = (net.nodes i).kernel.known := by
      rw [hkernel, hremoved]
      rfl
    unfold Net.known
    dsimp only
    rw [bodiesTotal_append]
    omega

/-- A request that is handled counts at most its bytes. -/
theorem Net.Sound.deliver {net : Net ι} (h : net.Sound) (o : Options) (n : ℕ)
    (series : Finset Server.PodKey) :
    ∃ net', step o net (.deliver n) = some net' ∧ net'.Sound
      ∧ net'.known series ≤ net.known series := by
  simp only [step]
  cases hn : net.inFlight[n]? with
  | none => exact ⟨net, rfl, h, Nat.le_refl _⟩
  | some body =>
      obtain ⟨kvs, hfits, rfl⟩ := h.reports body (List.mem_of_getElem? hn)
      obtain ⟨flowLogs, hpost⟩ := Deployment.handlePayload_bodyOf hfits net.server
      have hserver := Server.totalOver_run_account_le series net.server (kvs.map toEntry)
      have hbytes : ((kvs.map toEntry).map fun entry => entry.traffic.toNat).sum
          = pairsTotal kvs := by
        rw [List.map_map]
        rfl
      have hflight := bodiesTotal_eraseIdx hn
      rw [bodyOf, reportOf_wire hfits] at hflight
      simp only [hpost, Option.bind_eq_bind, Option.bind_some]
      refine ⟨_, rfl, ⟨h.nodes, fun body hbody => ?_⟩, ?_⟩
      · exact h.reports body (List.mem_of_mem_eraseIdx hbody)
      · unfold Net.known
        dsimp only
        omega

/-- An event does not panic, and makes at most the bytes known that a hook counts. -/
theorem Net.Sound.exists_step {net : Net ι} (h : net.Sound) (o : Options) (e : Event ι)
    (series : Finset Server.PodKey) :
    ∃ net', step o net e = some net' ∧ net'.Sound
      ∧ net'.known series ≤ net.known series + hookBytes o e := by
  cases e with
  | hook i ctx =>
      exact ⟨_, rfl, h.onNode i ((h.nodes i).enterHook o ctx) (known_enterHook o ctx _).le series⟩
  | cpu i n =>
      exact ⟨_, rfl, h.onNode i ((h.nodes i).cpu n) (known_step_le _ (.run n)) series⟩
  | take i key =>
      exact ⟨_, rfl, h.onNode i ((h.nodes i).take key) (known_take_le key _) series⟩
  | tick i t => exact h.tick o i t series
  | deliver n => exact h.deliver o n series
  | informer e =>
      have hserver := Server.totalOver_next_le series net.server e.2
      refine ⟨{ net with server := net.server.next e.1 }, ?_, ⟨h.nodes, h.reports⟩, ?_⟩
      · simp only [step, Server.step_eq, Option.bind_eq_bind, Option.bind_some]
      · show _ ≤ _ + 0
        unfold Net.known
        dsimp only
        omega
  | agentRestarts i =>
      have hnone : Node.start.kernel.known ≤ (net.nodes i).kernel.known + 0 := Nat.zero_le _
      exact ⟨_, rfl, h.onNode i (f := fun _ => Node.start) Node.sound_start hnone series⟩
  | serverRestarts =>
      have hnone : Server.State.empty.totalOver series = 0 := Finset.sum_eq_zero fun _ _ => rfl
      refine ⟨_, rfl, ⟨h.nodes, h.reports⟩, ?_⟩
      show _ ≤ _ + 0
      unfold Net.known
      dsimp only
      rw [List.map_cons, List.sum_cons, hnone]
      omega
  | requestLost n =>
      have hflight := bodiesTotal_eraseIdx_le net.inFlight n
      refine ⟨_, rfl, ⟨h.nodes, fun body hbody => ?_⟩, ?_⟩
      · exact h.reports body (List.mem_of_mem_eraseIdx hbody)
      · show _ ≤ _ + 0
        unfold Net.known
        dsimp only
        omega

/-- Main result: in every run of the system, from a server after any run, whatever
operations come in between each other and whatever goes wrong, the counters of some
series over all lives of the server, the requests on their way, and on all nodes the
bytes in the map, those still to be counted and those taken by the batch call under
way, together are at most what these counters held at the start and the bytes that
the hooks have counted. -/
theorem never_overcounted (o : Options) (es₀ : List Server.Event) (es : List (Event ι))
    (series : Finset Server.PodKey) :
    ∃ s net, Server.run es₀ = some s ∧ run o (Net.start s) es = some net
      ∧ (net.earlier.map (Server.State.totalOver series)).sum + net.server.totalOver series
          + bodiesTotal net.inFlight + ∑ i, (net.nodes i).kernel.known
        ≤ s.totalOver series + (es.map (hookBytes o)).sum := by
  let s := Runs.run Server.State.next Server.State.empty es₀
  obtain ⟨net, hrun, -, hle⟩ := Runs.exists_run_potential (I := Net.Sound)
    (fun net e h => Net.Sound.exists_step h o e series) (s := Net.start s) (sound_start s) es
  have hstart : (Net.start s : Net ι).known series = s.totalOver series := by
    have hnodes : ∑ i : ι, ((Net.start s).nodes i).kernel.known = 0 :=
      Finset.sum_eq_zero fun _ _ => rfl
    unfold Net.known
    rw [hnodes]
    show 0 + s.totalOver series + 0 + 0 = _
    omega
  rw [hstart] at hle
  exact ⟨s, net, Server.run_eq es₀, hrun, hle⟩

end Racing
