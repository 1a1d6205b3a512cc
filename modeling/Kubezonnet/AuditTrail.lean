/-
# The log as an audit trail

For every entry that it accounts for, `handlePayload` logs a line with the source,
the destination, their ports and the bytes, as a signed number.  The lines of
requests that are handled at the same time are printed in no particular order.

A line can be read back when the names in it have no spaces (`readLine_line`), as
the names in a Kubernetes cluster have none.  So the log has all that the counters
have: after any run, whoever reads all lines in any order and adds up the bytes
for a source gets the counter, as long as the pod was not deleted
(`counters_of_lines`).
-/
import Kubezonnet.GoText
import Kubezonnet.Pipeline

open GoNet Kube Payload WordBytes

namespace Server

/-! ## Translation -/

/-- A `podKey` as `log.Println` prints it. -/
def PodKey.text (k : PodKey) : List Char :=
  '{' :: k.nspace.toList ++ ' ' :: k.name.toList ++ ['}']

/-- The line that `handlePayload` logs. -/
def FlowLog.line (flowLog : FlowLog) : List Char :=
  println [flowLog.src.text, "from port".toList, itoa flowLog.srcPort, "to".toList,
    flowLog.dst.text, "at port".toList, itoa flowLog.dstPort, "with".toList,
    itoa flowLog.bytes, "bytes".toList]

/-- The flow logs that an event leads to. -/
def Event.flowLogs (s : State) : Event → List FlowLog
  | .payload data => (handleEntries data s []).2
  | _ => []

/-- The lines that are printed over a run. -/
def linesFrom (s : State) : List Event → List (List Char)
  | [] => []
  | e :: es => (e.flowLogs s).map FlowLog.line ++ linesFrom (s.next e) es

/-! ## Reading a line -/

/-- A key from its two words. -/
def readKey (first second : List Char) : Option PodKey :=
  match first with
  | '{' :: nspace =>
      if second.getLast? = some '}' then
        some ⟨String.ofList nspace, String.ofList second.dropLast⟩
      else none
  | _ => none

/-- A flow log from the words of its line. -/
def readLine (line : List Char) : Option FlowLog :=
  match line.splitOn ' ' with
  | [src, src', _, _, srcPort, _, dst, dst', _, _, dstPort, _, bytes, _] => do
      let src ← readKey src src'
      let srcPort ← atoi srcPort
      let dst ← readKey dst dst'
      let dstPort ← atoi dstPort
      let bytes ← atoi bytes
      pure { src, srcPort, dst, dstPort, bytes }
  | _ => none

/-- The bytes of a line as a counter takes them. -/
def readBytes (flowLog : FlowLog) : UInt64 := (Int64.ofInt flowLog.bytes).toUInt64

/-- The bytes that the lines have for a source. -/
def bytesLogged (k : PodKey) (lines : List (List Char)) : List UInt64 :=
  (lines.filterMap readLine).filterMap fun flowLog =>
    if flowLog.src = k then some (readBytes flowLog) else none

/-- There is no space in a key. -/
def PodKey.Spaceless (k : PodKey) : Prop := ' ' ∉ k.nspace.toList ∧ ' ' ∉ k.name.toList

/-- The names of a pod and of its node have no spaces. -/
def PlainNames (pod : Pod) : Prop := (podKey pod).Spaceless ∧ ' ' ∉ pod.nodeName.toList

/-- The range of an `int`. -/
def IsInt (n : ℤ) : Prop := -2 ^ 63 ≤ n ∧ n < 2 ^ 63

/-- A flow log whose line can be read back. -/
structure FlowLog.Readable (flowLog : FlowLog) : Prop where
  src : flowLog.src.Spaceless
  srcPort : IsInt flowLog.srcPort
  dst : flowLog.dst.Spaceless
  dstPort : IsInt flowLog.dstPort
  bytes : IsInt flowLog.bytes

/-- The words of a key. -/
theorem readKey_words (k : PodKey) :
    readKey ('{' :: k.nspace.toList) (k.name.toList ++ ['}']) = some k := by
  show (if _ then _ else _) = _
  rw [if_pos List.getLast?_concat, List.dropLast_concat, String.ofList_toList, String.ofList_toList]

/-- The words of a line. -/
def FlowLog.words (flowLog : FlowLog) : List (List Char) :=
  ['{' :: flowLog.src.nspace.toList, flowLog.src.name.toList ++ ['}'], "from".toList, "port".toList,
    itoa flowLog.srcPort, "to".toList, '{' :: flowLog.dst.nspace.toList,
    flowLog.dst.name.toList ++ ['}'], "at".toList, "port".toList, itoa flowLog.dstPort,
    "with".toList, itoa flowLog.bytes, "bytes".toList]

theorem line_eq_words (flowLog : FlowLog) : flowLog.line = println flowLog.words := by
  have hfrom : "from port".toList = "from".toList ++ ' ' :: "port".toList := by decide
  have hat : "at port".toList = "at".toList ++ ' ' :: "port".toList := by decide
  unfold FlowLog.line FlowLog.words println PodKey.text
  rw [hfrom, hat]
  simp [List.intercalate]

/-- A line is read back. -/
theorem readLine_line {flowLog : FlowLog} (h : flowLog.Readable) :
    readLine flowLog.line = some flowLog := by
  have hspaces : ∀ word ∈ flowLog.words, ' ' ∉ word := by
    have hopen : ∀ name : String, ' ' ∉ name.toList → ' ' ∉ '{' :: name.toList := fun name hname =>
      List.not_mem_cons_of_ne_of_not_mem (by decide) hname
    have hclose : ∀ name : String, ' ' ∉ name.toList → ' ' ∉ name.toList ++ ['}'] := by
      intro name hname hmem
      rcases List.mem_append.1 hmem with hmem | hmem
      · exact hname hmem
      · exact absurd hmem (by decide)
    intro word hword
    simp only [FlowLog.words, List.mem_cons, List.not_mem_nil, or_false] at hword
    rcases hword with rfl | rfl | rfl | rfl | rfl | rfl | rfl | rfl | rfl | rfl | rfl | rfl | rfl | rfl
    · exact hopen _ h.src.1
    · exact hclose _ h.src.2
    · decide
    · decide
    · exact space_notMem_itoa _
    · decide
    · exact hopen _ h.dst.1
    · exact hclose _ h.dst.2
    · decide
    · decide
    · exact space_notMem_itoa _
    · decide
    · exact space_notMem_itoa _
    · decide
  have hne : flowLog.words ≠ [] := List.cons_ne_nil _ _
  unfold readLine
  rw [line_eq_words, splitOn_println hne hspaces]
  simp only [FlowLog.words, readKey_words, atoi_itoa h.srcPort.1 h.srcPort.2,
    atoi_itoa h.dstPort.1 h.dstPort.2, atoi_itoa h.bytes.1 h.bytes.2]
  rfl

/-! ## What is logged -/

/-- The flow log of an entry, if the entry is accounted for. -/
def State.logOf (s : State) (entry : Entry) : Option FlowLog :=
  match s.resolve entry.srcIP, s.resolve entry.dstIP with
  | some (src, srcZone), some (dst, dstZone) =>
      if srcZone ≠ dstZone then
        some
          { src, dst
            srcPort := entry.srcPort.toNat
            dstPort := entry.dstPort.toNat
            bytes := entry.traffic.toInt64.toInt }
      else none
  | _, _ => none

theorem handleEntry_snd (s : State) (flowLogs : List FlowLog) (entry : Entry) :
    (handleEntry s flowLogs entry).2 = flowLogs ++ (s.logOf entry).toList := by
  unfold handleEntry State.logOf
  rw [sourceOf_eq, destinationOf_eq]
  cases s.resolve entry.srcIP with
  | none => exact (List.append_nil flowLogs).symm
  | some src =>
      cases s.resolve entry.dstIP with
      | none => exact (List.append_nil flowLogs).symm
      | some dst =>
          dsimp only
          split_ifs
          · rfl
          · exact (List.append_nil flowLogs).symm

/-- Accounting for an entry changes nothing about what is logged. -/
theorem logOf_account (s : State) (entry : Entry) : (s.account entry).logOf = s.logOf := by
  obtain ⟨h1, h2, h3, h4⟩ := account_indexes s entry
  have hresolve : (s.account entry).resolve = s.resolve := by
    funext ip
    unfold State.resolve
    rw [h1, h2, h3, h4]
  funext e
  unfold State.logOf
  rw [hresolve]

/-- A payload logs the entries that it accounts for, in their order. -/
theorem handleEntries_snd (data : List Entry) (s : State) (flowLogs : List FlowLog) :
    (handleEntries data s flowLogs).2 = flowLogs ++ data.filterMap s.logOf := by
  induction data generalizing s flowLogs with
  | nil => exact (List.append_nil flowLogs).symm
  | cons entry data ih =>
      show (handleEntries data (handleEntry s flowLogs entry).1
        (handleEntry s flowLogs entry).2).2 = _
      rw [ih, handleEntry_fst, handleEntry_snd, logOf_account, List.append_assoc,
        List.filterMap_cons]
      cases s.logOf entry <;> rfl

/-- What is logged for an entry is what it adds to a counter. -/
theorem logOf_bytes (s : State) (k : PodKey) (entry : Entry) :
    ((s.logOf entry).bind fun flowLog =>
        if flowLog.src = k then some (readBytes flowLog) else none)
      = if s.attribution entry = some k then some entry.traffic else none := by
  unfold State.logOf State.attribution
  cases s.resolve entry.srcIP with
  | none => rfl
  | some src =>
      cases s.resolve entry.dstIP with
      | none => rfl
      | some dst =>
          obtain ⟨key, srcZone⟩ := src
          obtain ⟨key', dstZone⟩ := dst
          by_cases hzone : srcZone = dstZone
          · simp [hzone]
          · simp [hzone, readBytes]

/-! ## Names in a run -/

/-- The indexes name pods and nodes without spaces. -/
structure State.Plain (s : State) : Prop where
  pods : ∀ ip k, s.podIpIndex.lookup ip = some k → k.Spaceless
  nodes : ∀ ip node, s.nodeIpIndex.lookup ip = some node → ' ' ∉ node.toList

theorem State.Plain.next {s : State} (h : s.Plain) {e : Event}
    (he : ∀ pod, e.action = .register pod → PlainNames pod) : (s.next e).Plain := by
  unfold State.next
  cases hact : e.action with
  | register pod =>
      refine ⟨fun ip k hip => ?_, fun ip node hip => ?_⟩
      · rw [lookup_podIpIndex_register] at hip
        split_ifs at hip
        · rw [← Option.some.inj hip]
          exact (he pod hact).1
        · exact h.pods ip k hip
      · rw [lookup_nodeIpIndex_register] at hip
        split_ifs at hip
        · rw [← Option.some.inj hip]
          exact (he pod hact).2
        · exact h.nodes ip node hip
  | unregister pod =>
      refine ⟨fun ip k hip => ?_, h.nodes⟩
      rw [lookup_podIpIndex_unregister] at hip
      split_ifs at hip
      exact h.pods ip k hip
  | setZone node zone => exact ⟨h.pods, h.nodes⟩
  | dropNode node =>
      refine ⟨h.pods, fun ip name hip => ?_⟩
      rw [lookup_nodeIpIndex_dropNode] at hip
      split_ifs at hip
      exact h.nodes ip name hip
  | report data =>
      obtain ⟨hip, hnip, -, -⟩ := report_indexes s data
      exact ⟨by rw [hip]; exact h.pods, by rw [hnip]; exact h.nodes⟩
  | ignore => exact h

/-- An address resolves to a key without spaces. -/
theorem State.Plain.resolve {s : State} (h : s.Plain) {ip : UInt32} {k : PodKey} {zone : String}
    (hresolve : s.resolve ip = some (k, zone)) : k.Spaceless := by
  rcases resolve_cases hresolve with ⟨hip, -⟩ | ⟨-, node, hnode, rfl, -⟩
  · exact h.pods ip k hip
  · have hnspace : ' ' ∉ "_node_".toList := by decide
    exact ⟨hnspace, h.nodes ip node hnode⟩

/-- What is logged can be read back. -/
theorem State.Plain.readable {s : State} (h : s.Plain) {entry : Entry} {flowLog : FlowLog}
    (hlog : s.logOf entry = some flowLog) : flowLog.Readable := by
  unfold State.logOf at hlog
  cases hsrc : s.resolve entry.srcIP with
  | none => simp [hsrc] at hlog
  | some src =>
      cases hdst : s.resolve entry.dstIP with
      | none => simp [hsrc, hdst] at hlog
      | some dst =>
          simp only [hsrc, hdst] at hlog
          split_ifs at hlog
          obtain rfl := Option.some.inj hlog
          have hsrcPort := entry.srcPort.toNat_lt
          have hdstPort := entry.dstPort.toNat_lt
          exact
            { src := h.resolve hsrc
              srcPort := ⟨by dsimp only; omega, by dsimp only; omega⟩
              dst := h.resolve hdst
              dstPort := ⟨by dsimp only; omega, by dsimp only; omega⟩
              bytes := ⟨Int64.le_toInt _, Int64.toInt_lt _⟩ }

/-! ## The trail -/

/-- An event logs the entries that it accounts for. -/
theorem flowLogs_eq (s : State) (e : Event) : e.flowLogs s = e.entries.filterMap s.logOf := by
  cases e with
  | payload data => rw [Event.flowLogs, handleEntries_snd, List.nil_append, Event.entries]
  | _ => rfl

/-- The lines of an event have the traffic that it attributes to a key. -/
theorem State.Plain.bytesLogged_eq {s : State} (h : s.Plain) (k : PodKey) (e : Event) :
    bytesLogged k ((e.flowLogs s).map FlowLog.line) = attributedTo s k e.entries := by
  have hread : ((e.entries.filterMap s.logOf).map FlowLog.line).filterMap readLine
      = e.entries.filterMap s.logOf := by
    rw [List.filterMap_map]
    conv_rhs => rw [← List.filterMap_some (l := e.entries.filterMap s.logOf)]
    refine List.filterMap_congr fun flowLog hmem => ?_
    obtain ⟨entry, -, hlog⟩ := List.mem_filterMap.1 hmem
    exact readLine_line (h.readable hlog)
  rw [flowLogs_eq, bytesLogged, hread, List.filterMap_filterMap]
  exact List.filterMap_congr fun entry _ => logOf_bytes s k entry

theorem bytesLogged_append (k : PodKey) (lines lines' : List (List Char)) :
    bytesLogged k (lines ++ lines') = bytesLogged k lines ++ bytesLogged k lines' := by
  rw [bytesLogged, List.filterMap_append, List.filterMap_append]
  rfl

/-- Over a run that does not delete the pod of a counter, the lines that are
printed have what the counter grows by. -/
theorem State.Plain.lookup_run {s : State} (h : s.Plain) {es : List Event} {k : PodKey}
    (hnames : ∀ e ∈ es, ∀ pod, e.action = .register pod → PlainNames pod)
    (hk : ∀ e ∈ es, ∀ pod, e.action = .unregister pod → podKey pod ≠ k) :
    (Runs.run State.next s es).statistics.lookup k
      = addTraffic (s.statistics.lookup k) (bytesLogged k (linesFrom s es)) := by
  induction es generalizing s with
  | nil => rfl
  | cons e es ih =>
      have hnext := h.next (hnames e List.mem_cons_self)
      rw [Runs.run_cons, ih hnext (fun e' he' => hnames e' (List.mem_cons_of_mem _ he'))
        (fun e' he' => hk e' (List.mem_cons_of_mem _ he')), linesFrom, bytesLogged_append,
        addTraffic_append, h.bytesLogged_eq, lookup_statistics_next (hk e List.mem_cons_self)]

/-- A run that adds only pods without spaces in their names knows no others. -/
theorem plain_run {es : List Event}
    (hnames : ∀ e ∈ es, ∀ pod, e.action = .register pod → PlainNames pod) :
    (Runs.run State.next State.empty es).Plain := by
  induction es using List.reverseRecOn with
  | nil =>
      refine ⟨fun ip k hip => ?_, fun ip node hip => ?_⟩
      · cases hip
      · cases hip
  | append_singleton es e ih =>
      rw [Runs.run_concat]
      refine (ih fun e' he' => hnames e' (List.mem_append_left _ he')).next (hnames e ?_)
      exact List.mem_append_right _ (List.mem_singleton_self e)

/-- Main result: while only pods and nodes without spaces in their names are
added, the lines printed over a part of a run, in whatever order, have all that
the counter of a pod grows by, unless the pod is deleted. -/
theorem counters_of_lines (es es' : List Event)
    (hnames : ∀ e ∈ es ++ es', ∀ pod, e.action = .register pod → PlainNames pod) :
    ∃ s s', run es = some s ∧ run (es ++ es') = some s'
      ∧ ∀ lines, lines.Perm (linesFrom s es') → ∀ k,
        (∀ e ∈ es', ∀ pod, e.action = .unregister pod → podKey pod ≠ k) →
          s'.statistics.lookup k = addTraffic (s.statistics.lookup k) (bytesLogged k lines) := by
  have hrun : run (es ++ es')
      = some (Runs.run State.next (Runs.run State.next State.empty es) es') := by
    rw [run_eq, Runs.run_append]
  have hplain := plain_run fun e he => hnames e (List.mem_append_left _ he)
  refine ⟨_, _, run_eq es, hrun, fun lines hlines k hk => ?_⟩
  rw [hplain.lookup_run (fun e he => hnames e (List.mem_append_right _ he)) hk]
  exact (addTraffic_perm _ ((hlines.filterMap readLine).filterMap _)).symm

/-- A report of 1500 bytes is logged and counted. -/
theorem counters_of_lines_report :
    let zone : String → GoMap String String := fun z =>
      (∅ : GoMap String String).insert "topology.kubernetes.io/zone" z
    let a : Pod := ⟨"default", "a", "n1", "192.168.0.1", ["10.0.0.1"]⟩
    let b : Pod := ⟨"default", "b", "n2", "192.168.0.2", ["10.0.1.1"]⟩
    let es : List Event := [.nodeAdd (.node ⟨"n1", zone "x"⟩), .nodeAdd (.node ⟨"n2", zone "y"⟩),
      .podAdd (.pod a), .podAdd (.pod b)]
    let es' : List Event := [.payload [⟨word32 10 0 0 1, word32 10 0 1 1, 40000, 80, 1500⟩]]
    let lines := ["{default a} from port 40000 to {default b} at port 80 with 1500 bytes".toList]
    ∃ s s', run es = some s ∧ run (es ++ es') = some s'
      ∧ s'.statistics.lookup (podKey a)
        = addTraffic (s.statistics.lookup (podKey a)) (bytesLogged (podKey a) lines) := by
  intro zone a b es es' lines
  have hnames : ∀ e ∈ es ++ es', ∀ pod, e.action = .register pod → PlainNames pod := by
    have ha : PlainNames a := ⟨⟨by decide, by decide⟩, by decide⟩
    have hb : PlainNames b := ⟨⟨by decide, by decide⟩, by decide⟩
    intro e he pod hact
    simp only [es, es', List.cons_append, List.nil_append, List.mem_cons, List.not_mem_nil,
      or_false] at he
    rcases he with rfl | rfl | rfl | rfl | rfl
    · cases hact
    · cases hact
    · rwa [← Action.register.inj hact]
    · rwa [← Action.register.inj hact]
    · cases hact
  obtain ⟨s, s', hs, hs', hlines⟩ := counters_of_lines es es' hnames
  refine ⟨s, s', hs, hs', hlines lines ?_ (podKey a) fun e he pod hact => ?_⟩
  · have hprinted : (run es).map (linesFrom · es') = some lines := by decide
    rw [hs] at hprinted
    rw [← Option.some.inj hprinted]
  · rw [List.mem_singleton.1 he] at hact
    cases hact

end Server
