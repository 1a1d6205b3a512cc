/-
# Lost updates

Many CPUs run `handle_v4` at once, and the agent removes entries at the same
time.  Each operation on the map is atomic, but an invocation makes two of them:
it looks its key up, and then adds through the reference it found, or inserts.
In between, the element can go, and another CPU can insert one.

`Step` is one atomic operation.  An invocation run alone does what `countFlow`
says (`represents_alone`); the ledger of a whole run is kept by every step up to
the bytes the step loses (`ledger_step`), so that the removed and the remaining
bytes of every key are the bytes counted for it exactly if no step loses any
(`conserved_iff`).
-/
import Kubezonnet.ElemMap
import Kubezonnet.HandleV4
import Kubezonnet.Runs

open Payload WordBytes ElemMap

namespace Ebpf

/-! ## Interleaved invocations -/

/-- Where an invocation of `handle_v4` is, once it has the key and the size. -/
inductive Pc : Type where
  | lookup : Pc
  | add (stamp : ℕ) : Pc
  | update : Pc
  | done : Pc
  deriving DecidableEq, Repr

/-- An invocation of `handle_v4` for a packet that it counts. -/
structure Invocation : Type where
  key : IPKey
  packetSize : UInt64
  pc : Pc
  deriving DecidableEq, Repr

/-- The map, the invocations on all CPUs, and what the agent has removed. -/
structure System : Type where
  ipMap : Map IPKey
  invocations : List Invocation
  removed : List (IPKey × UInt64)

/-- An atomic step: the next operation of an invocation, or a removal. -/
inductive Step : Type where
  | run (i : ℕ) : Step
  | remove (key : IPKey) : Step
  deriving DecidableEq, Repr

/-- The next operation of an invocation. -/
def Invocation.next (inv : Invocation) (ipMap : Map IPKey) : Map IPKey × Invocation :=
  match inv.pc with
  | .lookup =>
      match ipMap.lookupElem inv.key with
      | some stamp => (ipMap, { inv with pc := .add stamp })
      | none => (ipMap, { inv with pc := .update })
  | .add stamp => (ipMap.fetchAndAdd inv.key stamp inv.packetSize, { inv with pc := .done })
  | .update => (ipMap.updateElem maxEntries inv.key inv.packetSize, { inv with pc := .done })
  | .done => (ipMap, inv)

/-- The system after a step.  A step of an invocation that is done, or a removal
of a key that is not there, changes nothing. -/
def System.step (s : System) : Step → System
  | .run i =>
      match s.invocations[i]? with
      | some inv =>
          { s with
            ipMap := (inv.next s.ipMap).1
            invocations := s.invocations.set i (inv.next s.ipMap).2 }
      | none => s
  | .remove key =>
      match s.ipMap.lookupAndDelete key with
      | (some value, ipMap) => { s with ipMap := ipMap, removed := s.removed ++ [(key, value)] }
      | (none, _) => s

/-- The system with an empty map, before the invocations for some packets.  A
packet that is not counted does not reach the map. -/
def System.start (e : Endian) (config : Config) (skbs : List SkBuff) : System :=
  { ipMap := Map.empty
    invocations := (skbs.filterMap (flowOf e config)).map fun (key, packetSize) =>
      ⟨key, packetSize, .lookup⟩
    removed := [] }

/-- The system after some steps. -/
def System.run (s : System) (steps : List Step) : System := Runs.run System.step s steps

/-! ## An invocation alone -/

/-- The map with references holds the entries of `ip_map`. -/
def Represents (m : Map IPKey) (ipMap : IpMap) : Prop :=
  ∀ key, (m.elems.lookup key).map (fun elem => IPValue.mk elem.value) = ipMap.lookup key

theorem Represents.keys_eq {m : Map IPKey} {ipMap : IpMap} (h : Represents m ipMap) :
    m.elems.keys = ipMap.keys := by
  ext key
  rw [Finmap.mem_keys, Finmap.mem_keys, ← Finmap.lookup_isSome, ← Finmap.lookup_isSome, ← h key,
    Option.isSome_map]

theorem Represents.insert {m : Map IPKey} {ipMap : IpMap} (h : Represents m ipMap) (key : IPKey)
    (elem : Elem) (next : ℕ) :
    Represents ⟨m.elems.insert key elem, next⟩ (ipMap.insert key ⟨elem.value⟩) := by
  intro k
  rw [GoMap.lookup_insert_ite, GoMap.lookup_insert_ite]
  split_ifs
  · rfl
  · exact h k

/-- An invocation that runs alone does to the map what `countFlow` does. -/
theorem represents_alone {m : Map IPKey} {ipMap : IpMap} (h : Represents m ipMap) (key : IPKey)
    (packetSize : UInt64) :
    let looked := (Invocation.mk key packetSize .lookup).next m
    Represents (looked.2.next looked.1).1 (countFlow ipMap key packetSize)
      ∧ (looked.2.next looked.1).2 = ⟨key, packetSize, .done⟩ := by
  intro looked
  have hkey := h key
  cases hlookup : m.elems.lookup key with
  | some elem =>
      -- the element is still there when the addition reaches it
      have hlooked : looked = (m, ⟨key, packetSize, .add elem.stamp⟩) := by
        simp only [looked, Invocation.next, Map.lookupElem, hlookup, Option.map_some]
      rw [hlookup, Option.map_some] at hkey
      rw [hlooked]
      refine ⟨?_, rfl⟩
      simp only [Invocation.next, Map.fetchAndAdd, hlookup, ↓reduceIte, countFlow, ← hkey]
      exact h.insert key ⟨elem.stamp, elem.value + packetSize⟩ m.next
  | none =>
      -- the key is still missing when it is inserted
      have hlooked : looked = (m, ⟨key, packetSize, .update⟩) := by
        simp only [looked, Invocation.next, Map.lookupElem, hlookup, Option.map_none]
      have hmem : key ∈ m.elems ↔ key ∈ ipMap := by
        rw [← Finmap.mem_keys, ← Finmap.mem_keys, h.keys_eq]
      rw [hlookup, Option.map_none] at hkey
      rw [hlooked]
      refine ⟨?_, rfl⟩
      simp only [Invocation.next, Map.updateElem, countFlow, ← hkey, bpfMapUpdateElem,
        h.keys_eq, hmem]
      split_ifs
      · exact h.insert key ⟨m.next, packetSize⟩ (m.next + 1)
      · exact h

/-! ## Counting bytes -/

/-- The bytes an invocation has counted for a key: none before it is done. -/
def Invocation.bytesDone (key : IPKey) (inv : Invocation) : ℕ :=
  if inv.pc = .done ∧ inv.key = key then inv.packetSize.toNat else 0

/-- The bytes of a key that the invocations so far have counted. -/
def System.bytesDone (key : IPKey) (s : System) : ℕ :=
  (s.invocations.map (Invocation.bytesDone key)).sum

/-- The bytes of a key that were removed or are still in the map. -/
def System.bytesKept (key : IPKey) (s : System) : ℕ :=
  bytesOf key s.removed + s.ipMap.valueAt key

/-- The bytes an operation of an invocation loses. -/
def Invocation.lost (inv : Invocation) (ipMap : Map IPKey) : ℕ :=
  match inv.pc with
  | .add stamp => ipMap.lostByAdd inv.key stamp inv.packetSize
  | .update => ipMap.lostByUpdate maxEntries inv.key inv.packetSize
  | _ => 0

/-- The bytes of a key that a step loses. -/
def System.lost (key : IPKey) (s : System) : Step → ℕ
  | .run i =>
      match s.invocations[i]? with
      | some inv => if inv.key = key then inv.lost s.ipMap else 0
      | none => 0
  | .remove _ => 0

/-! ## The ledger -/

/-- Replacing an element of a list exchanges its summand. -/
theorem sum_map_set {α : Type} (f : α → ℕ) {l : List α} {i : ℕ} {x : α} (h : l[i]? = some x)
    (y : α) : ((l.set i y).map f).sum + f x = (l.map f).sum + f y := by
  induction l generalizing i with
  | nil => cases h
  | cons z l ih =>
      cases i with
      | zero =>
          obtain rfl : z = x := Option.some.inj h
          simp only [List.set_cons_zero, List.map_cons, List.sum_cons]
          omega
      | succ i =>
          have htail := ih (i := i) h
          simp only [List.set_cons_succ, List.map_cons, List.sum_cons]
          omega

/-- An operation of an invocation moves the bytes it counts into the map, up to
what it loses, and leaves the bytes of other keys alone. -/
theorem ledger_next (key : IPKey) (inv : Invocation) (ipMap : Map IPKey) :
    (inv.next ipMap).1.valueAt key + (if inv.key = key then inv.lost ipMap else 0)
        + inv.bytesDone key
      = ipMap.valueAt key + (inv.next ipMap).2.bytesDone key := by
  obtain ⟨invKey, packetSize, pc⟩ := inv
  cases pc with
  | lookup =>
      cases hlookup : ipMap.lookupElem invKey <;>
        simp [Invocation.next, Invocation.lost, Invocation.bytesDone, hlookup]
  | add stamp =>
      simp only [Invocation.next, Invocation.lost, Invocation.bytesDone, reduceCtorEq, false_and,
        true_and, ↓reduceIte, Nat.add_zero]
      by_cases hkey : invKey = key
      · subst hkey
        simp only [↓reduceIte]
        exact valueAt_fetchAndAdd ipMap invKey stamp packetSize
      · simp only [if_neg hkey, Nat.add_zero]
        exact valueAt_fetchAndAdd_ne ipMap stamp packetSize (Ne.symm hkey)
  | update =>
      simp only [Invocation.next, Invocation.lost, Invocation.bytesDone, reduceCtorEq, false_and,
        true_and, ↓reduceIte, Nat.add_zero]
      by_cases hkey : invKey = key
      · subst hkey
        simp only [↓reduceIte]
        exact valueAt_updateElem maxEntries ipMap invKey packetSize
      · simp only [if_neg hkey, Nat.add_zero]
        exact valueAt_updateElem_ne maxEntries ipMap packetSize (Ne.symm hkey)
  | done => simp [Invocation.next, Invocation.lost]

/-- Every step keeps the ledger up to the bytes it loses. -/
theorem ledger_step (key : IPKey) (s : System) (st : Step) :
    (s.step st).bytesKept key + s.lost key st + s.bytesDone key
      = s.bytesKept key + (s.step st).bytesDone key := by
  cases st with
  | run i =>
      cases hinv : s.invocations[i]? with
      | none => simp only [System.step, System.lost, hinv, Nat.add_zero]
      | some inv =>
          -- the other invocations cancel out of the two sums
          have hnext := ledger_next key inv s.ipMap
          have hset := sum_map_set (Invocation.bytesDone key) hinv (inv.next s.ipMap).2
          simp only [System.step, System.lost, System.bytesKept, System.bytesDone, hinv]
          omega
  | remove k =>
      have haccount := valueAt_lookupAndDelete s.ipMap k key
      simp only [System.step, System.lost, System.bytesKept, System.bytesDone, Nat.add_zero]
      cases hdelete : s.ipMap.lookupAndDelete k with
      | mk value ipMap =>
          rw [hdelete] at haccount
          cases value with
          | none => rfl
          | some value =>
              simp only [Option.map_some, Option.getD_some] at haccount
              simp only [bytesOf_append, bytesOf_singleton, ← haccount, eq_comm (a := k)]
              omega

/-! ## Nothing is lost -/

/-- The operation loses nothing.  An addition goes to the element that was looked
up, still in the map, and does not wrap around; an insertion finds the key still
missing, or an element that has counted nothing, and room for a new key. -/
def Invocation.LosesNothing (inv : Invocation) (ipMap : Map IPKey) : Prop :=
  match inv.pc with
  | .add stamp => inv.packetSize = 0 ∨ ∃ elem, ipMap.elems.lookup inv.key = some elem
      ∧ elem.stamp = stamp ∧ elem.value.toNat + inv.packetSize.toNat < 2 ^ 64
  | .update => (∀ elem, ipMap.elems.lookup inv.key = some elem → elem.value = 0)
      ∧ (inv.key ∉ ipMap.elems → ipMap.elems.keys.card < maxEntries ∨ inv.packetSize = 0)
  | _ => True

/-- The step loses nothing.  A removal never does. -/
def System.LosesNothing (s : System) : Step → Prop
  | .run i => ∀ inv, s.invocations[i]? = some inv → inv.LosesNothing s.ipMap
  | .remove _ => True

theorem lost_eq_zero_iff_invocation (inv : Invocation) (ipMap : Map IPKey) :
    inv.lost ipMap = 0 ↔ inv.LosesNothing ipMap := by
  unfold Invocation.lost Invocation.LosesNothing
  cases inv.pc with
  | lookup => exact iff_of_true rfl trivial
  | add stamp => exact lostByAdd_eq_zero_iff
  | update => exact lostByUpdate_eq_zero_iff
  | done => exact iff_of_true rfl trivial

/-- A step loses bytes of no key exactly if it loses nothing. -/
theorem lost_eq_zero_iff (s : System) (st : Step) :
    (∀ key, s.lost key st = 0) ↔ s.LosesNothing st := by
  cases st with
  | remove key => exact iff_of_true (fun _ => rfl) trivial
  | run i =>
      simp only [System.lost, System.LosesNothing]
      cases s.invocations[i]? with
      | none => simp
      | some inv =>
          simp only [Option.some.injEq, forall_eq']
          rw [← lost_eq_zero_iff_invocation]
          constructor
          · intro h
            simpa using h inv.key
          · intro h key
            rw [h, ite_self]

/-! ## Whole runs -/

/-- The packet of an invocation. -/
def Invocation.flow (inv : Invocation) : IPKey × UInt64 := (inv.key, inv.packetSize)

theorem flow_next (inv : Invocation) (ipMap : Map IPKey) : (inv.next ipMap).2.flow = inv.flow := by
  obtain ⟨key, packetSize, pc⟩ := inv
  cases pc with
  | lookup => cases hlookup : ipMap.lookupElem key <;> simp [Invocation.next, hlookup, Invocation.flow]
  | add stamp => rfl
  | update => rfl
  | done => rfl

/-- No step changes which packets are counted. -/
theorem flows_run (s : System) (steps : List Step) :
    (s.run steps).invocations.map Invocation.flow = s.invocations.map Invocation.flow := by
  refine Runs.run_history
    (I := fun _ (t : System) => t.invocations.map Invocation.flow = s.invocations.map Invocation.flow)
    rfl (fun _ t st ih => ?_) steps
  rw [← ih]
  cases st with
  | run i =>
      cases hinv : t.invocations[i]? with
      | none => simp only [System.step, hinv]
      | some inv =>
          obtain ⟨hi, hget⟩ := List.getElem?_eq_some_iff.1 hinv
          simp only [System.step, hinv, List.map_set, flow_next]
          rw [← hget, ← List.getElem_map Invocation.flow (h := by simpa using hi)]
          exact List.set_getElem_self _
  | remove key =>
      simp only [System.step]
      cases t.ipMap.lookupAndDelete key with
      | mk value ipMap => cases value <;> rfl

/-- Once all invocations are done, they have counted all of their packets. -/
theorem bytesDone_of_done {s : System} (hdone : ∀ inv ∈ s.invocations, inv.pc = .done)
    (key : IPKey) : s.bytesDone key = bytesOf key (s.invocations.map Invocation.flow) := by
  unfold System.bytesDone bytesOf
  rw [List.map_map]
  congr 1
  apply List.map_congr_left
  intro inv hinv
  exact if_congr (and_iff_right (hdone inv hinv)) rfl rfl

section Start

variable (e : Endian) (config : Config) (skbs : List SkBuff)

theorem flows_start :
    (System.start e config skbs).invocations.map Invocation.flow
      = skbs.filterMap (flowOf e config) := by
  unfold System.start
  rw [List.map_map]
  exact List.map_id _

theorem bytesKept_start (key : IPKey) : (System.start e config skbs).bytesKept key = 0 := rfl

theorem bytesDone_start (key : IPKey) : (System.start e config skbs).bytesDone key = 0 := by
  unfold System.bytesDone System.start
  rw [List.map_map, List.sum_eq_zero]
  intro n hn
  obtain ⟨flow, -, rfl⟩ := List.mem_map.1 hn
  rfl

/-- Main result: once all invocations are done, the bytes removed and the bytes
left are, for every key, the sum of the sizes of the packets with that key, if
and only if no step of the run has lost any. -/
theorem conserved_iff (steps : List Step)
    (hdone : ∀ inv ∈ ((System.start e config skbs).run steps).invocations, inv.pc = .done) :
    (∀ key, bytesOf key ((System.start e config skbs).run steps).removed
        + ((System.start e config skbs).run steps).ipMap.valueAt key
      = bytesOf key (skbs.filterMap (flowOf e config)))
      ↔ ∀ pre st, pre ++ [st] <+: steps →
        ((System.start e config skbs).run pre).LosesNothing st := by
  have hledger : ∀ key, ((System.start e config skbs).run steps).bytesKept key
      + Runs.total System.step (System.lost key) (System.start e config skbs) steps
      = bytesOf key (skbs.filterMap (flowOf e config)) := by
    intro key
    have h := Runs.run_ledger (fun s st => ledger_step key s st) (System.start e config skbs) steps
    rw [bytesKept_start, bytesDone_start, Nat.add_zero, Nat.zero_add] at h
    have hall := bytesDone_of_done hdone key
    rw [flows_run, flows_start] at hall
    exact h.trans hall
  have hguard : (∀ key, Runs.total System.step (System.lost key)
        (System.start e config skbs) steps = 0)
      ↔ ∀ pre st, pre ++ [st] <+: steps →
        ((System.start e config skbs).run pre).LosesNothing st := by
    simp only [Runs.total_eq_zero_iff, Runs.Guarded]
    constructor
    · intro h pre st hpre
      exact (lost_eq_zero_iff _ st).1 fun key => h key pre st hpre
    · intro h key pre st hpre
      exact (lost_eq_zero_iff _ st).2 (h pre st hpre) key
  rw [← hguard]
  -- by the ledger a key comes out even exactly if its total loss is zero
  apply forall_congr'
  intro key
  have hkey := hledger key
  unfold System.bytesKept at hkey
  omega

end Start

/-! ## Fixed runs -/

/-- A TCP packet of the given total length between two addresses of `10.0.0.0/8`,
of which only the IP header is in the packet. -/
def headerOf (totLen : UInt8) : SkBuff where
  data := [0x45, 0, 0, totLen, 0, 0, 0, 0, 64, 6, 0, 0, 10, 0, 0, 1, 10, 0, 0, 2]
  hasDynptr := true

/-- The subnet `10.0.0.0/8` as a little-endian host installs it. -/
def subnetTen : Config := ⟨0x0000000A, 0x000000FF⟩

/-- Two first packets of a flow, of 100 and 60 bytes, on two CPUs: both find no
entry, both insert one, and the second overwrites the 100 bytes of the first. -/
theorem not_conserved_first_packets :
    let steps : List Step := [.run 0, .run 1, .run 0, .run 1]
    let skbs : List SkBuff := [headerOf 100, headerOf 60]
    let final := (System.start .little subnetTen skbs).run steps
    (∀ inv ∈ final.invocations, inv.pc = .done)
      ∧ ¬ ∀ key, bytesOf key final.removed + final.ipMap.valueAt key
        = bytesOf key (skbs.filterMap (flowOf .little subnetTen)) := by
  intro steps skbs final
  refine ⟨by decide, fun h => ?_⟩
  exact absurd (h ⟨0x0100000A, 0x0200000A, 0, 0⟩) (by decide)

/-- One packet counted, removed, and the next one counted. -/
theorem conserved_iff_packet_after_packet :
    let steps : List Step :=
      [.run 0, .run 0, .remove ⟨0x0100000A, 0x0200000A, 0, 0⟩, .run 1, .run 1]
    let skbs : List SkBuff := [headerOf 100, headerOf 60]
    let start := System.start .little subnetTen skbs
    (∀ key, bytesOf key (start.run steps).removed + (start.run steps).ipMap.valueAt key
        = bytesOf key (skbs.filterMap (flowOf .little subnetTen)))
      ↔ ∀ pre st, pre ++ [st] <+: steps → (start.run pre).LosesNothing st := by
  intro steps skbs start
  exact conserved_iff .little subnetTen skbs steps (by decide)

end Ebpf
