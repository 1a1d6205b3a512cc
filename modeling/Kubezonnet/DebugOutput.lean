/-
# The debug output of an agent

With the debug flag the loop of `Run` prints, before it sends anything, one line
for every flow of this host: addresses, ports and bytes.  It prints the bytes of
the words it has read from the map, the lowest first, and so in the order in
which the server, which turns the words around, takes them for addresses.

So on every host the lines can be read back, and what they say is what the server
decodes from the request of the same flush (`debug_shows_report`).
-/
import Kubezonnet.AgentLedger
import Kubezonnet.GoText

open ByteOrder Ebpf GoNet GoSlice Kube Payload WordBytes

namespace Agent

/-! ## Translation -/

/-- The text of an address as the loop prints it: `net.IPv4` of the bytes of the
word, the lowest first. -/
def addrText (ip : UInt32) : List Char :=
  ipString (mapped [ip.toUInt8, (ip >>> 8).toUInt8, (ip >>> 16).toUInt8, (ip >>> 24).toUInt8])

/-- The line for a flow, without its end. -/
def debugLine (key : IPKey) (value : IPValue) : List Char :=
  addrText key.srcIP ++ ':' :: utoa key.srcPort.toNat ++ " -> ".toList
    ++ addrText key.dstIP ++ ':' :: utoa key.dstPort.toNat ++ ": ".toList
    ++ utoa value.packetSize.toNat ++ " bytes".toList

/-- The loop over the flows. -/
def debugLoop (finalValues : List IPValue) : List IPKey → ℕ → Option (List (List Char))
  | [], _ => some []
  | key :: finalKeys, i => do
      let value ← finalValues[i]?
      let rest ← debugLoop finalValues finalKeys (i + 1)
      some (debugLine key value :: rest)

/-- The line before them. -/
def debugHeader (finalKeys n pods : ℕ) : List Char :=
  println ["debug printing".toList, itoa finalKeys, "keys, started with".toList, itoa n,
    "keys before filtering to host-local pods (".toList, itoa pods, ")".toList]

/-- What the body of the loop prints from the batch call on, with the debug flag. -/
def debugAfterBatch (t : Tick) (n : ℕ) (s : State) : Option (List (List Char)) :=
  if n = 0 then some []
  else if t.batch.err ≠ none ∧ t.batch.err ≠ some .errKeyNotExist then some []
  else do
    let keys ← s.keys.sub 0 n
    let values ← s.values.sub 0 n
    let pods ← convertToPods (t.pods.map .pod)
    let (finalKeys, finalValues) ← filterSrcIpOnCurrentHost keys.elems values.elems pods
    let lines ← debugLoop finalValues finalKeys 0
    some (debugHeader finalKeys.length n pods.length :: lines)

/-- What the body of the loop prints at a tick, with the debug flag. -/
def debugOutput (t : Tick) (s : State) : Option (List (List Char)) := do
  let keys ← s.keys.sub 0 maxEntries
  let values ← s.values.sub 0 maxEntries
  let res := batchLookupAndDelete t.batch s.ipMap keys values
  debugAfterBatch t res.n { s with ipMap := res.ipMap, keys := res.keys, values := res.values }

/-! ## Reading a line -/

/-- The word of an address, in network byte order. -/
def readAddr (text : List Char) : Option UInt32 :=
  match parseIPv4 (String.ofList text) with
  | some [a, b, c, d] => some (word32 a b c d)
  | _ => none

/-- The entry that a line tells of. -/
def readDebugLine (line : List Char) : Option Entry :=
  match line.splitOn ' ' with
  | [src, _, dst, traffic, _] =>
      match src.splitOn ':', dst.splitOn ':' with
      | [srcIP, srcPort], [dstIP, dstPort, _] => do
          let srcIP ← readAddr srcIP
          let srcPort ← parseUint srcPort
          let dstIP ← readAddr dstIP
          let dstPort ← parseUint dstPort
          let traffic ← parseUint traffic
          pure
            { srcIP, dstIP
              srcPort := UInt16.ofNat srcPort
              dstPort := UInt16.ofNat dstPort
              traffic := UInt64.ofNat traffic }
      | _, _ => none
  | _ => none

/-! ## Addresses -/

/-- The bytes of a word, the lowest first. -/
theorem bytes_word32 (a b c d : UInt8) :
    (word32 a b c d).toUInt8 = d ∧ (word32 a b c d >>> 8).toUInt8 = c
      ∧ (word32 a b c d >>> 16).toUInt8 = b ∧ (word32 a b c d >>> 24).toUInt8 = a := by
  have ha := a.toNat_lt
  have hb := b.toNat_lt
  have hc := c.toNat_lt
  have hd := d.toNat_lt
  have hword := toNat_word32 a b c d
  refine ⟨?_, ?_, ?_, ?_⟩
  · apply UInt8.toNat_inj.1
    rw [UInt32.toNat_toUInt8, hword]
    omega
  all_goals
    apply UInt8.toNat_inj.1
    rw [UInt32.toNat_toUInt8, UInt32.toNat_shiftRight, hword, Nat.shiftRight_eq_div_pow]
    simp
    omega

/-- An address is printed with the bytes that the server takes it for. -/
theorem addrText_eq (a b c d : UInt8) : addrText (word32 a b c d) = dotted [d, c, b, a] := by
  obtain ⟨h0, h8, h16, h24⟩ := bytes_word32 a b c d
  rw [addrText, h0, h8, h16, h24]
  rfl

theorem readAddr_addrText (ip : UInt32) : readAddr (addrText ip) = some (ntohl ip) := by
  obtain ⟨a, b, c, d, rfl⟩ := exists_word32 ip
  rw [addrText_eq, ntohl_word32, readAddr, parseIPv4, parseIP_dotted]
  rfl

/-- An address has no space and no colon in it. -/
theorem notMem_addrText {ch : Char} (hdot : ch ≠ '.') (hdigit : ∀ n < 10, ch ≠ digitChar n)
    (ip : UInt32) : ch ∉ addrText ip := by
  obtain ⟨a, b, c, d, rfl⟩ := exists_word32 ip
  rw [addrText_eq]
  exact notMem_dotted hdot hdigit d c b a

/-! ## Lines -/

/-- An address and a port, with a colon between. -/
def hostPort (ip : UInt32) (port : UInt16) : List Char := addrText ip ++ ':' :: utoa port.toNat

theorem debugLine_eq (key : IPKey) (value : IPValue) :
    debugLine key value = println [hostPort key.srcIP key.srcPort, "->".toList,
      hostPort key.dstIP key.dstPort ++ [':'], utoa value.packetSize.toNat, "bytes".toList] := by
  have harrow : " -> ".toList = ' ' :: "->".toList ++ [' '] := by decide
  have hcolon : ": ".toList = [':', ' '] := by decide
  have hbytes : " bytes".toList = ' ' :: "bytes".toList := by decide
  unfold debugLine hostPort println
  rw [harrow, hcolon, hbytes]
  simp [List.intercalate]

section Splitting

variable (ip : UInt32) (port : UInt16)

theorem space_notMem_hostPort : ' ' ∉ hostPort ip port := by
  intro h
  rcases List.mem_append.1 h with haddr | hport
  · exact notMem_addrText (by decide) (by decide) ip haddr
  · rcases List.mem_cons.1 hport with hcolon | hport
    · exact absurd hcolon (by decide)
    · exact notMem_utoa (by decide) port.toNat hport

theorem splitOn_hostPort (rest : List (List Char)) (hrest : ∀ part ∈ rest, ':' ∉ part) :
    ([':'].intercalate (addrText ip :: utoa port.toNat :: rest)).splitOn ':'
      = addrText ip :: utoa port.toNat :: rest := by
  refine List.splitOn_intercalate ':' (fun part hpart => ?_) (List.cons_ne_nil _ _)
  rcases List.mem_cons.1 hpart with rfl | hpart
  · exact notMem_addrText (by decide) (by decide) ip
  · rcases List.mem_cons.1 hpart with rfl | hpart
    · exact notMem_utoa (by decide) port.toNat
    · exact hrest part hpart

/-- The address and the port of the source are got back. -/
theorem splitOn_source : (hostPort ip port).splitOn ':' = [addrText ip, utoa port.toNat] := by
  have h := splitOn_hostPort ip port [] (by simp)
  rw [← h]
  congr 1
  simp [hostPort, List.intercalate]

/-- The address and the port of the destination are got back. -/
theorem splitOn_destination :
    (hostPort ip port ++ [':']).splitOn ':' = [addrText ip, utoa port.toNat, []] := by
  have h := splitOn_hostPort ip port [[]] (by simp)
  rw [← h]
  congr 1
  simp [hostPort, List.intercalate]

end Splitting

/-- A line tells the entry that the server decodes. -/
theorem readDebugLine_debugLine (kv : IPKey × IPValue) :
    readDebugLine (debugLine kv.1 kv.2) = some (toEntry kv) := by
  obtain ⟨⟨srcIP, dstIP, srcPort, dstPort⟩, ⟨packetSize⟩⟩ := kv
  have hsplit : (debugLine ⟨srcIP, dstIP, srcPort, dstPort⟩ ⟨packetSize⟩).splitOn ' '
      = [hostPort srcIP srcPort, "->".toList, hostPort dstIP dstPort ++ [':'],
        utoa packetSize.toNat, "bytes".toList] := by
    rw [debugLine_eq]
    refine splitOn_println (List.cons_ne_nil _ _) fun word hword => ?_
    simp only [List.mem_cons, List.not_mem_nil, or_false] at hword
    rcases hword with rfl | rfl | rfl | rfl | rfl
    · exact space_notMem_hostPort _ _
    · decide
    · intro h
      rcases List.mem_append.1 h with h | h
      · exact space_notMem_hostPort _ _ h
      · exact absurd h (by decide)
    · exact notMem_utoa (by decide) _
    · decide
  have hsrcPort := srcPort.toNat_lt
  have hdstPort := dstPort.toNat_lt
  unfold readDebugLine
  rw [hsplit]
  dsimp only
  rw [splitOn_source, splitOn_destination]
  simp only [readAddr_addrText, parseUint_utoa packetSize.toNat_lt,
    parseUint_utoa (show srcPort.toNat < 2 ^ 64 by omega),
    parseUint_utoa (show dstPort.toNat < 2 ^ 64 by omega), Option.bind_eq_bind, Option.bind_some,
    Option.pure_def, UInt16.ofNat_toNat, UInt64.ofNat_toNat]
  rfl

/-- The loop prints a line for every pair. -/
theorem debugLoop_pairs (pre kvs : List (IPKey × IPValue)) :
    debugLoop ((pre ++ kvs).map Prod.snd) (kvs.map Prod.fst) pre.length
      = some (kvs.map fun kv => debugLine kv.1 kv.2) := by
  induction kvs generalizing pre with
  | nil => rfl
  | cons kv kvs ih =>
      have hvalue : ((pre ++ kv :: kvs).map Prod.snd)[pre.length]? = some kv.2 := by simp
      have hrest := ih (pre ++ [kv])
      rw [List.append_assoc, List.singleton_append, List.length_append, List.length_singleton] at hrest
      simp only [List.map_cons, debugLoop, hvalue, hrest, Option.bind_eq_bind, Option.bind_some]

/-- The line before the flows tells no entry. -/
theorem readDebugLine_debugHeader (finalKeys n pods : ℕ) :
    readDebugLine (debugHeader finalKeys n pods) = none := by
  have hdebug : "debug printing".toList = "debug".toList ++ ' ' :: "printing".toList := by decide
  have hstarted : "keys, started with".toList
      = "keys,".toList ++ ' ' :: "started".toList ++ ' ' :: "with".toList := by decide
  have hbefore : "keys before filtering to host-local pods (".toList
      = "keys".toList ++ ' ' :: "before".toList ++ ' ' :: "filtering".toList ++ ' ' :: "to".toList
        ++ ' ' :: "host-local".toList ++ ' ' :: "pods".toList ++ ' ' :: "(".toList := by decide
  have hwords : debugHeader finalKeys n pods = println ["debug".toList, "printing".toList,
      itoa finalKeys, "keys,".toList, "started".toList, "with".toList, itoa n, "keys".toList,
      "before".toList, "filtering".toList, "to".toList, "host-local".toList, "pods".toList,
      "(".toList, itoa pods, ")".toList] := by
    unfold debugHeader println
    rw [hdebug, hstarted, hbefore]
    simp [List.intercalate]
  unfold readDebugLine
  rw [hwords, splitOn_println (List.cons_ne_nil _ _) fun word hword => ?_]
  simp only [List.mem_cons, List.not_mem_nil, or_false] at hword
  rcases hword with rfl | rfl | rfl | rfl | rfl | rfl | rfl | rfl | rfl | rfl | rfl | rfl | rfl | rfl
    | rfl | rfl
  all_goals first | exact space_notMem_itoa _ | decide

/-! ## Flushes -/

/-- The lines of a tick that takes the given entries. -/
def tickLines (t : Tick) (taken : List (IPKey × IPValue)) : List (List Char) :=
  if taken ≠ [] ∧ t.Reads then
    debugHeader (localEntries t.pods taken).length taken.length t.pods.length
      :: (localEntries t.pods taken).map fun kv => debugLine kv.1 kv.2
  else []

/-- What a tick prints depends on the map alone, whatever the buffers hold, and
the loop never panics. -/
theorem debugOutput_eq {s : State} (hs : s.Buffered) (t : Tick) :
    debugOutput t s = some (tickLines t (takeEntries t.batch.order maxEntries s.ipMap).1) := by
  obtain ⟨keys, hkeys, hkeysArr, hkeysLen⟩ := exists_sub_zero hs.keys.ge
  obtain ⟨values, hvalues, hvaluesArr, -⟩ := exists_sub_zero hs.values.ge
  obtain ⟨hfit, -⟩ := takes_takeEntries t.batch.order maxEntries s.ipMap
  have hkeysCap : keys.cap = maxEntries := by rw [Slice.cap, hkeysArr, ← Slice.cap, hs.keys]
  have hvaluesCap : values.cap = maxEntries := by
    rw [Slice.cap, hvaluesArr, ← Slice.cap, hs.values]
  simp only [debugOutput, batchLookupAndDelete, hkeys, hvalues, hkeysLen, Option.bind_eq_bind,
    Option.bind_some]
  generalize takeEntries t.batch.order maxEntries s.ipMap = result at hfit
  obtain ⟨taken, rest⟩ := result
  dsimp only at hfit ⊢
  have hkeysFit : (taken.map Prod.fst).length ≤ keys.cap := by rwa [List.length_map, hkeysCap]
  have hvaluesFit : (taken.map Prod.snd).length ≤ values.cap := by rwa [List.length_map, hvaluesCap]
  unfold debugAfterBatch
  by_cases hn : taken.length = 0
  · have hnone : ¬ (taken ≠ [] ∧ t.Reads) := fun h => h.1 (List.length_eq_zero_iff.1 hn)
    rw [if_pos hn, tickLines, if_neg hnone]
  · have hsome : taken ≠ [] := mt List.length_eq_zero_iff.2 hn
    by_cases hread : t.Reads
    · -- the buffers are cut to the entries just read
      have herr : ¬ (t.batch.err ≠ none ∧ t.batch.err ≠ some .errKeyNotExist) := fun herr =>
        not_or.2 herr hread
      obtain ⟨ks, hks, -, hksElems⟩ := exists_sub_fill hkeysFit
      obtain ⟨vs, hvs, -, hvsElems⟩ := exists_sub_fill hvaluesFit
      rw [List.length_map] at hks hvs
      have hloop := debugLoop_pairs [] (localEntries t.pods taken)
      rw [List.nil_append, List.length_nil] at hloop
      rw [if_neg hn, if_neg herr, tickLines, if_pos ⟨hsome, hread⟩]
      simp only [hks, hvs, convertToPods_map, hksElems, hvsElems, filterSrcIpOnCurrentHost_eq,
        Option.bind_eq_bind, Option.bind_some]
      show (debugLoop ((localEntries t.pods taken).map Prod.snd)
        ((localEntries t.pods taken).map Prod.fst) 0).bind _ = _
      rw [hloop, Option.bind_some, List.length_map]
      rfl
    · have hnone : ¬ (taken ≠ [] ∧ t.Reads) := fun h => hread h.2
      rw [if_neg hn, if_pos (not_or.1 hread), tickLines, if_neg hnone]

/-- The lines of a tick tell the entries of this host that it takes. -/
theorem filterMap_tickLines (t : Tick) (taken : List (IPKey × IPValue)) :
    (tickLines t taken).filterMap readDebugLine
      = if t.Reads then (localEntries t.pods taken).map toEntry else [] := by
  have hlines : ((localEntries t.pods taken).map fun kv => debugLine kv.1 kv.2).filterMap
      readDebugLine = (localEntries t.pods taken).map toEntry := by
    induction localEntries t.pods taken with
    | nil => rfl
    | cons kv kvs ih =>
        rw [List.map_cons, List.filterMap_cons_some (readDebugLine_debugLine kv), ih, List.map_cons]
  unfold tickLines
  by_cases hread : t.Reads
  · rw [if_pos hread]
    by_cases hnone : taken = []
    · rw [if_neg fun h => h.1 hnone, hnone]
      rfl
    · rw [if_pos ⟨hnone, hread⟩, List.filterMap_cons_none (readDebugLine_debugHeader _ _ _), hlines]
  · rw [if_neg hread, if_neg fun h => hread h.2]
    rfl

/-- Main result: after any run, on hosts of either byte order, the debug output of
a tick never panics.  Its lines tell the flows of this host that the tick takes
from the map when its batch call succeeds, and none when it fails.  What the server
decodes from a request of the tick is what they tell. -/
theorem debug_shows_report (o : Options) (es : List Event) (t : Tick) :
    ∃ s s' out, run o es = some s ∧ step o s (.tick t) = some s' ∧ debugOutput t s = some out
      ∧ out.filterMap readDebugLine
        = (if t.Reads then
            (localEntries t.pods (takeEntries t.batch.order maxEntries s.ipMap).1).map toEntry
          else [])
      ∧ ∃ bodies, s'.delivered = s.delivered ++ bodies
        ∧ ∀ body ∈ bodies, decode body = some (.ok (out.filterMap readDebugLine)) := by
  obtain ⟨s, hs, hkeeps⟩ := exists_run_books o es
  obtain ⟨s', hs', -, -, hdelivered⟩ := exists_onTick hkeeps.buffered o.sendData t
  obtain ⟨hfit, -⟩ := takes_takeEntries t.batch.order maxEntries s.ipMap
  refine ⟨s, s', _, hs, hs', debugOutput_eq hkeeps.buffered t, filterMap_tickLines t _, _,
    hdelivered, fun body hbody => ?_⟩
  rw [filterMap_tickLines]
  generalize (takeEntries t.batch.order maxEntries s.ipMap).1 = taken at hfit hbody
  unfold sentBodies at hbody
  split_ifs at hbody with hsent
  · rw [List.mem_singleton.1 hbody, if_pos hsent.1]
    have hlength : (localEntries t.pods taken).length ≤ maxEntries :=
      List.filter_sublist.length_le.trans hfit
    have hmax : maxEntries = 1024 := rfl
    exact decode_wire _ (by omega)
  · exact absurd hbody List.not_mem_nil

/-- A line of the debug output. -/
example : debugLine ⟨0x0100000A, 0x0101000A, 40000, 80⟩ ⟨1500⟩
    = "10.0.0.1:40000 -> 10.0.1.1:80: 1500 bytes".toList := by decide

end Agent
