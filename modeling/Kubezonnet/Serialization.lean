/-
# Concurrent calls

The handlers of the server run on many goroutines, and the mutex makes each of
them one step of the state: whatever the schedule, the state is the one after the
events of the calls in the order in which they took the mutex, every call
answers as it does in its place of this order, and a call that began after
another had the mutex comes after it (`calls_linearizable`).  So what is proved
about runs of events holds for the concurrent server.  No call can be stuck
(`calls_return`), also when a payload makes its call panic: the payload is
decoded before the mutex is taken.

Reports commute, so for any number of concurrent requests and scrapes not even
the order matters: no update is lost (`reports_counted_once`).
-/
import Kubezonnet.Pipeline
import Kubezonnet.ServerCalls

open Critical Payload

namespace Server

variable {ι : Type}

/-! ## The order of the mutex -/

/-- The events of some calls, in order. -/
def eventsOf (calls : ι → Call) (order : List ι) : List Event :=
  order.filterMap fun i => (calls i).event

/-- One after another, the calls run their events. -/
theorem serial_eq (calls : ι → Call) (s : State) (order : List ι) :
    serial (fun i => (calls i).prog) s order = Runs.run State.next s (eventsOf calls order) := by
  induction order generalizing s with
  | nil => rfl
  | cons i order ih =>
      have hstep : ((calls i).prog.exec s).2 = (calls i).next s := (exec_prog (calls i) s).1
      rw [serial, Runs.run_cons, ← serial, ih, hstep, Call.next, eventsOf, eventsOf,
        List.filterMap_cons]
      cases (calls i).event <;> rfl

/-- The calls at the start of a schedule, on the server after a run. -/
def concurrent (calls : ι → Call) (s : State) : Threads ι State Result :=
  Threads.start (fun i => (calls i).prog) s

theorem disciplined_calls (calls : ι → Call) (i : ι) : ((calls i).prog).Disciplined :=
  disciplined_prog (calls i)

/-- Main result: for any calls after any run, and any schedule, there is no fatal
error of the mutex.  While the mutex is free, the state is the one after the
events of the calls that took it, in its order, each at most once.  A call that
has returned without the mutex never works on the state, and any other call that
has returned answered as it does alone in its place of the order.  And a call
that had taken the mutex comes before the calls that had not begun. -/
theorem calls_linearizable [DecidableEq ι] (es : List Event) (calls : ι → Call) (schedule schedule' : List ι) :
    ∃ s t t', run es = some s ∧ (concurrent calls s).run schedule = some t
      ∧ t.run schedule' = some t' ∧ t'.order.Nodup
      ∧ (t'.holder = none → run (es ++ eventsOf calls t'.order) = some t'.shared)
      ∧ (∀ i result, t'.progs i = .ret result →
          (calls i).prog = .ret result ∧ i ∉ t'.order
            ∨ ∃ pre post u, t'.order = pre ++ i :: post
              ∧ run (es ++ eventsOf calls pre) = some u ∧ (calls i).Answers u result)
      ∧ ∀ i j, i ∈ t.order → j ∉ schedule → j ∈ t'.order →
          ∃ pre mid post, t'.order = pre ++ i :: mid ++ j :: post := by
  have hcalls := disciplined_calls calls
  obtain ⟨t, hrun, hcons, hmem⟩ :=
    consistent_run hcalls (Runs.run State.next State.empty es) schedule
  obtain ⟨t', hrun', hcons', -⟩ := hcons.exists_run hcalls schedule'
  -- the state after the calls of an order, as a run of the server
  have hserial : ∀ order, run (es ++ eventsOf calls order)
      = some (serial (fun i => (calls i).prog) (Runs.run State.next State.empty es) order) := by
    intro order
    rw [run_eq, Runs.run_append, serial_eq]
  refine ⟨_, t, t', run_eq es, hrun, hrun', hcons'.nodup, fun hfree => ?_, fun i result hret => ?_,
    fun i j hi hj hj' => ?_⟩
  · rw [hserial, hcons'.free hfree]
  · cases hcons'.agrees i with
    | outside hnew hcall => exact Or.inl ⟨hcall.symm.trans hret, hnew⟩
    | inside pre horder hholder p hprog hgoes =>
        obtain rfl : p = .ret result := hprog.symm.trans hret
        exact absurd (show Prog.Stage.inside = Prog.Stage.after from hgoes) (by decide)
    | returned pre post horder hprog =>
        right
        refine ⟨pre, post, _, horder, hserial pre, ?_⟩
        obtain rfl := Prog.ret.inj (hprog.symm.trans hret)
        exact (exec_prog (calls i) _).2
  · exact hcons.precedes hcalls hi (fun hmem' => hj (hmem j hmem')) hrun' hj'

/-- A scrape that has the mutex when the deletion of a node begins: it sees the
counter, and the deletion leaves the addresses of the other node. -/
theorem calls_linearizable_scrape_and_deletion :
    let zone : String → GoMap String String := fun z =>
      (∅ : GoMap String String).insert "topology.kubernetes.io/zone" z
    let n1 : Kube.Node := ⟨"n1", zone "x"⟩
    let a : Kube.Pod := ⟨"default", "a", "n1", "192.168.0.1", ["10.0.0.1"]⟩
    let es : List Event := [.nodeAdd (.node n1), .nodeAdd (.node ⟨"n2", zone "y"⟩),
      .podAdd (.pod a),
      .podAdd (.pod ⟨"kube-system", "proxy1", "n1", "192.168.0.1", ["192.168.0.1"]⟩),
      .podAdd (.pod ⟨"kube-system", "proxy2", "n2", "192.168.0.2", ["192.168.0.2"]⟩),
      .payload [⟨0x0A000001, 0xC0A80002, 40000, 80, 1500⟩]]
    let calls : Fin 2 → Call := ![.metrics default, .nodeDelete default (.node n1)]
    ∃ s schedule t metrics, run es = some s ∧ (concurrent calls s).run (0 :: schedule) = some t
      ∧ t.progs 0 = .ret (.metrics metrics)
      ∧ (metrics : Multiset (PodKey × UInt64)) = {(podKey a, 1500)}
      ∧ t.shared.nodeIndex.lookup "n1" = none ∧ t.shared.nodeIndex.lookup "n2" = some "y"
      ∧ t.shared.nodeIpIndex.lookup 0xC0A80001 = none
      ∧ t.shared.nodeIpIndex.lookup 0xC0A80002 = some "n2" := by
  intro zone n1 a es calls
  have hcalls := disciplined_calls calls
  obtain ⟨t₀, hrun₀, hcons₀, -⟩ :=
    consistent_run hcalls (Runs.run State.next State.empty es) [0]
  obtain ⟨schedule, t', hrun', hcons', hret⟩ := hcons₀.exists_all_returned hcalls [0, 1]
  obtain ⟨s, t₀', t, hs, hfirst, hrun, hnodup, hfree, hanswers, hbefore⟩ :=
    calls_linearizable es calls [0] schedule
  obtain rfl := eq_of_run hs
  obtain rfl : t₀ = t₀' := Option.some.inj (hrun₀.symm.trans hfirst)
  obtain rfl : t' = t := Option.some.inj (hrun'.symm.trans hrun)
  have hdone : ∀ i, ∃ result, t'.progs i = .ret result := fun i =>
    hret i (by fin_cases i <;> simp)
  obtain ⟨result, hresult⟩ := hdone 0
  obtain ⟨result', hresult'⟩ := hdone 1
  -- the scrape has taken the mutex before the deletion begins
  have hfirst : 0 ∈ t₀.order := by
    cases hrun₀
    exact List.mem_singleton_self 0
  have hsecond : 1 ∈ t'.order := by
    obtain ⟨hlocks, -⟩ | ⟨before, later, -, hdeletion, -⟩ := hanswers 1 result' hresult'
    · cases hlocks
    · rw [hdeletion]
      simp
  have horder : t'.order = [0, 1] := by
    obtain ⟨pre, mid, post, hbetween⟩ := hbefore 0 1 hfirst (by decide) hsecond
    have hlength := hnodup.length_le_card
    rw [hbetween, Fintype.card_fin] at hlength
    simp only [List.length_append, List.length_cons] at hlength
    obtain rfl : pre = [] := List.eq_nil_of_length_eq_zero (by omega)
    obtain rfl : mid = [] := List.eq_nil_of_length_eq_zero (by omega)
    obtain rfl : post = [] := List.eq_nil_of_length_eq_zero (by omega)
    exact hbetween
  obtain ⟨hlocks, -⟩ | ⟨pre, post, u, horder', hu, metrics, rfl, hcollect⟩ :=
    hanswers 0 result hresult
  · cases hlocks
  obtain rfl : pre = [] := by
    rw [horder] at horder'
    rcases pre with - | ⟨i, - | ⟨j, pre⟩⟩ <;> simp at horder' ⊢
  have hwhole : (concurrent calls (Runs.run State.next State.empty es)).run ([0] ++ schedule)
      = some t' := (run_append hrun₀).trans hrun'
  refine ⟨_, schedule, t', metrics, hs, hwhole, hresult, ?_, ?_⟩
  · obtain rfl := eq_of_run hu
    rw [hcollect]
    decide
  · have hshared := hfree (hcons'.holder_eq_none hdone)
    rw [horder] at hshared
    rw [← eq_of_run hshared]
    decide

/-- Main result: after any run, any schedule of any calls can be continued so that
some given calls all return. -/
theorem calls_return [DecidableEq ι] (es : List Event) (calls : ι → Call) (schedule : List ι)
    (is : List ι) :
    ∃ s schedule' t, run es = some s ∧ (concurrent calls s).run (schedule ++ schedule') = some t
      ∧ ∀ i ∈ is, ∃ result, t.progs i = .ret result := by
  have hcalls := disciplined_calls calls
  obtain ⟨t, hrun, hcons, -⟩ :=
    consistent_run hcalls (Runs.run State.next State.empty es) schedule
  obtain ⟨schedule', t', hrun', -, hret⟩ := hcons.exists_all_returned hcalls is
  exact ⟨_, schedule', t', run_eq es, (run_append hrun).trans hrun', hret⟩

/-! ## Reports commute -/

/-- A run of payloads accounts for their entries, one after another. -/
theorem run_payloads {es : List Event} (h : ∀ e ∈ es, ∃ data, e = .payload data) (s : State) :
    Runs.run State.next s es = Runs.run State.account s (es.flatMap Event.entries) := by
  induction es generalizing s with
  | nil => rfl
  | cons e es ih =>
      obtain ⟨data, rfl⟩ := h e List.mem_cons_self
      rw [Runs.run_cons, ih (fun e he => h e (List.mem_cons_of_mem _ he)), List.flatMap_cons,
        Runs.run_append]
      show Runs.run State.account (s.act (.report data)) _ = _
      rw [act_report]
      rfl

/-- The call is a request to write statistics or a scrape. -/
def Call.IsTraffic : Call → Prop
  | .writeStatistics _ | .metrics _ => True
  | _ => False

/-- The entries that a call reports: those of its payload, if it decodes. -/
def Call.reports (c : Call) : List Entry := c.event.toList.flatMap Event.entries

/-- The event of such a call is a payload, and the call takes the mutex for it. -/
theorem Call.IsTraffic.payload {c : Call} (h : c.IsTraffic) {e : Event} (he : c.event = some e) :
    (∃ data, e = .payload data) ∧ ∀ result, c.prog ≠ .ret result := by
  cases c with
  | writeStatistics r =>
      simp only [Call.event] at he
      split_ifs at he with hmethod
      rcases hbody : r.body with err | body
      · rw [hbody] at he
        cases he
      · rw [hbody] at he
        dsimp only at he
        rcases hdecode : decode body with - | err | data
        · rw [hdecode] at he
          cases he
        · rw [hdecode] at he
          cases he
        · rw [hdecode] at he
          refine ⟨⟨data, (Option.some.inj he).symm⟩, fun result hprog => ?_⟩
          simp only [Call.prog, Locked.handlePayload, hmethod, hbody, hdecode, if_false] at hprog
          cases hprog
  | metrics order => cases he
  | _ => exact absurd h id

/-- A call that reports nothing can be left out. -/
theorem flatMap_reports_filter {calls : ι → Call} {p : ι → Bool} (is : List ι)
    (h : ∀ i ∈ is, p i = false → (calls i).reports = []) :
    (is.filter p).flatMap (fun i => (calls i).reports) = is.flatMap fun i => (calls i).reports := by
  induction is with
  | nil => rfl
  | cons i is ih =>
      have hrest := ih fun j hj => h j (List.mem_cons_of_mem i hj)
      rw [List.flatMap_cons]
      cases hp : p i with
      | true => rw [List.filter_cons_of_pos hp, List.flatMap_cons, hrest]
      | false =>
          rw [List.filter_cons_of_neg (by simp [hp]), hrest, h i List.mem_cons_self hp,
            List.nil_append]

/-- The entries of the events of some calls are what the calls report. -/
theorem flatMap_entries_eventsOf (calls : ι → Call) (order : List ι) :
    (eventsOf calls order).flatMap Event.entries = order.flatMap fun i => (calls i).reports := by
  induction order with
  | nil => rfl
  | cons i order ih =>
      rw [List.flatMap_cons, ← ih, eventsOf, List.filterMap_cons, Call.reports]
      cases (calls i).event with
      | none => rfl
      | some e =>
          show (e :: eventsOf calls order).flatMap Event.entries = _
          rw [List.flatMap_cons, Option.toList_some, List.flatMap_singleton]

/-- Main result: after any run, for any number of concurrent requests and scrapes
and any schedule after which all have returned, every counter has grown by the
traffic of all entries reported that are attributed to its key. -/
theorem reports_counted_once (es : List Event) (cs : List Call) (hcs : ∀ c ∈ cs, c.IsTraffic)
    (schedule : List (Fin cs.length)) :
    ∃ s t, run es = some s ∧ (concurrent cs.get s).run schedule = some t
      ∧ ((∀ i, ∃ result, t.progs i = .ret result) → ∀ k,
        t.shared.statistics.lookup k
          = addTraffic (s.statistics.lookup k) (attributedTo s k (cs.flatMap Call.reports))) := by
  have htraffic : ∀ i, (cs.get i).IsTraffic := fun i => hcs _ (List.get_mem cs i)
  obtain ⟨t, hrun, hcons, -⟩ := consistent_run (disciplined_calls cs.get)
    (Runs.run State.next State.empty es) schedule
  refine ⟨_, t, run_eq es, hrun, fun hdone k => ?_⟩
  -- nobody holds the mutex, so the state is that of the calls one after another
  have hfree : t.holder = none := hcons.holder_eq_none hdone
  have hpayloads : ∀ e ∈ eventsOf cs.get t.order, ∃ data, e = .payload data := by
    intro e he
    obtain ⟨i, -, hi⟩ := List.mem_filterMap.1 he
    exact ((htraffic i).payload hi).1
  -- a call that never took the mutex reports nothing
  have hsilent : ∀ i, i ∉ t.order → (cs.get i).reports = [] := by
    intro i hi
    cases hevent : (cs.get i).event with
    | none => rw [Call.reports, hevent]; rfl
    | some e =>
        obtain ⟨result, hret⟩ := hdone i
        cases hcons.agrees i with
        | outside hnew hcall =>
            exact absurd (hcall.symm.trans hret) (((htraffic i).payload hevent).2 result)
        | inside pre horder => exact absurd (by rw [horder]; simp) hi
        | returned pre post horder => exact absurd (by rw [horder]; simp) hi
  have horder : t.order.Perm ((List.finRange cs.length).filter (· ∈ t.order)) := by
    rw [List.perm_ext_iff_of_nodup hcons.nodup ((List.nodup_finRange _).filter _)]
    intro i
    rw [List.mem_filter]
    simp
  have hall : (List.finRange cs.length).flatMap (fun i => (cs.get i).reports)
      = cs.flatMap Call.reports := by
    rw [← List.flatMap_map cs.get Call.reports]
    congr 1
    exact List.map_get_finRange cs
  rw [hcons.free hfree, serial_eq, run_payloads hpayloads, lookup_statistics_run_account,
    flatMap_entries_eventsOf]
  apply addTraffic_perm
  unfold attributedTo
  apply List.Perm.filterMap
  calc t.order.flatMap (fun i => (cs.get i).reports)
      |>.Perm (((List.finRange cs.length).filter (· ∈ t.order)).flatMap
        fun i => (cs.get i).reports) := horder.flatMap_right _
    _ = cs.flatMap Call.reports := by
        rw [flatMap_reports_filter, hall]
        intro i _ hi
        exact hsilent i (of_decide_eq_false hi)

/-- Two requests of 1500 bytes each for the same pod. -/
theorem reports_counted_once_two_requests :
    let zone : String → GoMap String String := fun z =>
      (∅ : GoMap String String).insert "topology.kubernetes.io/zone" z
    let a : Kube.Pod := ⟨"default", "a", "n1", "192.168.0.1", ["10.0.0.1"]⟩
    let b : Kube.Pod := ⟨"default", "b", "n2", "192.168.0.2", ["10.0.1.1"]⟩
    let es : List Event := [.nodeAdd (.node ⟨"n1", zone "x"⟩), .nodeAdd (.node ⟨"n2", zone "y"⟩),
      .podAdd (.pod a), .podAdd (.pod b)]
    let body := GoSlice.Slice.ofList (wire [(⟨0x0100000A, 0x0101000A, 40000, 80⟩, ⟨1500⟩)])
    let c : Call := .writeStatistics ⟨"POST", .ok body⟩
    ∃ schedule s t, run es = some s ∧ (concurrent [c, c].get s).run schedule = some t
      ∧ t.shared.statistics.lookup (podKey a) = some 3000 := by
  intro zone a b es body c
  have hcs : ∀ c' ∈ [c, c], c'.IsTraffic := by
    intro c' hc'
    simp only [List.mem_cons, List.not_mem_nil, or_false, or_self] at hc'
    rw [hc']
    trivial
  -- a schedule after which both have returned
  obtain ⟨t₀, hrun₀, hcons₀, -⟩ := consistent_run (disciplined_calls [c, c].get)
    (Runs.run State.next State.empty es) []
  obtain ⟨schedule, t', hrun', -, hret⟩ :=
    hcons₀.exists_all_returned (disciplined_calls [c, c].get) [0, 1]
  obtain ⟨s, t, hs, hrun, hcount⟩ := reports_counted_once es [c, c] hcs schedule
  obtain rfl := eq_of_run hs
  obtain rfl : Threads.start _ _ = t₀ := Option.some.inj hrun₀
  obtain rfl : t = t' := Option.some.inj (hrun.symm.trans hrun')
  refine ⟨schedule, _, t, hs, hrun, ?_⟩
  have hdone : ∀ i, ∃ result, t.progs i = .ret result := by
    intro i
    exact hret i (by fin_cases i <;> simp)
  rw [hcount hdone]
  decide

end Server
