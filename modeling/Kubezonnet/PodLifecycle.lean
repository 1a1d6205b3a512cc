/-
# The pod index under the normal life of pods

A pod normally lives as follows.  From its addition to its deletion its
addresses only grow, and each stays the pod's host address or stays not; the
object in the deletion agrees.  And no two live pods share an address that is a
host address of neither.  In a run of this kind the pod index is the snapshot of
the cluster: it maps an address to a pod exactly if the pod is live and its
latest object lists the address as one that is not the host address
(`podIpIndex_exact`).

What counts as the host address is a parameter of the definitions.  The code
takes a host address of `0.0.0.0` for none at all (`Pod.IsHostAddr`); without
that exception the snapshot is missed (`not_exact_unspecified_host`).
-/
import Kubezonnet.Cluster

open GoNet Kube WordBytes

namespace Server

/-! ## Normal runs -/

section Normal

variable (isHost : Pod → List UInt8 → Prop)

/-- What an action does to the pod it is about: a live pod keeps its addresses,
and every one of them keeps its classification. -/
def Cluster.Keeps (c : Cluster) : Action → Prop
  | .register pod => ∀ old, c.pods (podKey pod) = some old →
      ∀ v4 ∈ old.addrs, v4 ∈ pod.addrs ∧ (isHost pod v4 ↔ isHost old v4)
  | .unregister pod => ∀ old, c.pods (podKey pod) = some old →
      ∀ v4 ∈ old.addrs, (isHost pod v4 ↔ isHost old v4)
  | _ => True

/-- The pod is live and lists the address, and not as its host address. -/
def Cluster.Owns (c : Cluster) (k : PodKey) (v4 : List UInt8) : Prop :=
  ∃ pod, c.pods k = some pod ∧ v4 ∈ pod.addrs ∧ ¬ isHost pod v4

/-- No two live pods own the same address. -/
def Cluster.Disjoint (c : Cluster) : Prop :=
  ∀ k k' v4, c.Owns isHost k v4 → c.Owns isHost k' v4 → k = k'

/-- Every event keeps the addresses of its pod, and in every state the addresses
of the pods are disjoint. -/
structure NormalRun (es : List Event) : Prop where
  keeps : Runs.Guarded Cluster.next (fun c e => c.Keeps isHost e.action) Cluster.empty es
  disjoint : Runs.Always Cluster.next (Cluster.Disjoint isHost) Cluster.empty es

end Normal

/-- A live pod was registered, under its own key. -/
theorem Cluster.registered_of_pods {es : List Event} {k : PodKey} {pod : Pod}
    (h : (Cluster.after es).pods k = some pod) :
    podKey pod = k ∧ ∃ e ∈ es, e.action = .register pod := by
  induction es using List.reverseRecOn with
  | nil => cases h
  | append_singleton es e ih =>
      have hlater : (Cluster.after es).pods k = some pod →
          podKey pod = k ∧ ∃ e' ∈ es ++ [e], e'.action = .register pod := by
        intro hpod
        obtain ⟨hkey, e', he', hact⟩ := ih hpod
        exact ⟨hkey, e', List.mem_append_left _ he', hact⟩
      rw [Cluster.after, Runs.run_concat, ← Cluster.after, Cluster.next] at h
      cases hact : e.action with
      | register new =>
          rw [hact] at h
          by_cases hk : k = podKey new
          · rw [hk, Cluster.pods_register_self] at h
            obtain rfl := Option.some.inj h
            exact ⟨hk.symm, e, List.mem_append_right _ (List.mem_singleton_self e), hact⟩
          · rw [Cluster.pods_register_of_ne _ hk] at h
            exact hlater h
      | unregister old =>
          rw [hact] at h
          by_cases hk : k = podKey old
          · rw [hk, Cluster.pods_unregister_self] at h
            cases h
          · rw [Cluster.pods_unregister_of_ne _ hk] at h
            exact hlater h
      | setZone node zone => rw [hact] at h; exact hlater h
      | dropNode node => rw [hact] at h; exact hlater h
      | report data => rw [hact] at h; exact hlater h
      | ignore => rw [hact] at h; exact hlater h

/-- Addresses that are only ever given to their owners are never shared. -/
theorem Cluster.always_disjoint {isHost : Pod → List UInt8 → Prop} (owner : List UInt8 → PodKey)
    {es : List Event} (h : ∀ e ∈ es, ∀ pod, e.action = .register pod →
      ∀ v4 ∈ pod.addrs, ¬ isHost pod v4 → podKey pod = owner v4) :
    Runs.Always Cluster.next (Cluster.Disjoint isHost) Cluster.empty es := by
  intro pre hpre
  have howner : ∀ k v4, (Cluster.after pre).Owns isHost k v4 → k = owner v4 := by
    rintro k v4 ⟨pod, hpod, hmem, hhost⟩
    obtain ⟨rfl, e, he, hact⟩ := Cluster.registered_of_pods hpod
    exact h e (hpre.subset he) pod hact v4 hmem hhost
  intro k k' v4 hk hk'
  rw [howner k v4 hk, howner k' v4 hk']

/-! ## The snapshot -/

/-- Every address is mapped to the pod that owns it, if any. -/
def Cluster.Exact (c : Cluster) : Prop :=
  ∀ v4 k, c.podAt v4 = some k ↔ c.Owns Pod.IsHostAddr k v4

theorem Cluster.owns_register_of_ne {c : Cluster} {pod : Pod} {k : PodKey} (hk : k ≠ podKey pod)
    {v4 : List UInt8} :
    (c.act (.register pod)).Owns Pod.IsHostAddr k v4 ↔ c.Owns Pod.IsHostAddr k v4 := by
  unfold Cluster.Owns
  rw [c.pods_register_of_ne hk]

theorem Cluster.owns_register_self {c : Cluster} {pod : Pod} {v4 : List UInt8} :
    (c.act (.register pod)).Owns Pod.IsHostAddr (podKey pod) v4
      ↔ v4 ∈ pod.addrs ∧ ¬ pod.IsHostAddr v4 := by
  unfold Cluster.Owns
  rw [c.pods_register_self]
  simp only [Option.some.injEq, exists_eq_left']

theorem Cluster.owns_unregister_of_ne {c : Cluster} {pod : Pod} {k : PodKey}
    (hk : k ≠ podKey pod) {v4 : List UInt8} :
    (c.act (.unregister pod)).Owns Pod.IsHostAddr k v4 ↔ c.Owns Pod.IsHostAddr k v4 := by
  unfold Cluster.Owns
  rw [c.pods_unregister_of_ne hk]

theorem Cluster.not_owns_unregister_self {c : Cluster} {pod : Pod} {v4 : List UInt8} :
    ¬ (c.act (.unregister pod)).Owns Pod.IsHostAddr (podKey pod) v4 := by
  rintro ⟨pod', hpod', -⟩
  rw [c.pods_unregister_self] at hpod'
  cases hpod'

/-- A pod that is added, or updated to list more addresses, keeps the snapshot exact. -/
theorem Cluster.Exact.register {c : Cluster} (h : c.Exact) {pod : Pod}
    (hkeeps : c.Keeps Pod.IsHostAddr (.register pod))
    (hdisjoint : (c.act (.register pod)).Disjoint Pod.IsHostAddr) :
    (c.act (.register pod)).Exact := by
  intro v4 k
  show (if v4 ∈ pod.addrs ∧ ¬ pod.IsHostAddr v4 then some (podKey pod) else c.podAt v4) = some k
    ↔ _
  by_cases hnew : v4 ∈ pod.addrs ∧ ¬ pod.IsHostAddr v4
  · -- the address goes to the pod, and nobody else may own it
    have hself : (c.act (.register pod)).Owns Pod.IsHostAddr (podKey pod) v4 :=
      Cluster.owns_register_self.2 hnew
    rw [if_pos hnew, Option.some.injEq]
    constructor
    · rintro rfl
      exact hself
    · exact fun hk => hdisjoint _ _ v4 hself hk
  · rw [if_neg hnew, h v4 k]
    by_cases hk : k = podKey pod
    · -- what the pod owned before it still lists, so it cannot have owned the address
      subst hk
      rw [Cluster.owns_register_self]
      refine iff_of_false ?_ hnew
      rintro ⟨old, hold, hmem, hhost⟩
      obtain ⟨hmem', hhost'⟩ := hkeeps old hold v4 hmem
      exact hnew ⟨hmem', fun hpod => hhost (hhost'.1 hpod)⟩
    · exact (Cluster.owns_register_of_ne hk).symm

/-- A deletion that agrees with the latest object keeps the snapshot exact. -/
theorem Cluster.Exact.unregister {c : Cluster} (h : c.Exact) {pod : Pod}
    (hkeeps : c.Keeps Pod.IsHostAddr (.unregister pod))
    (hdisjoint : c.Disjoint Pod.IsHostAddr) : (c.act (.unregister pod)).Exact := by
  -- the addresses that are taken from the index are the ones the pod owned
  have howned : ∀ v4, v4 ∈ c.addrsOf (podKey pod) ∧ ¬ pod.IsHostAddr v4
      ↔ c.Owns Pod.IsHostAddr (podKey pod) v4 := by
    intro v4
    unfold Cluster.addrsOf Cluster.Owns
    cases hold : c.pods (podKey pod) with
    | none => simp
    | some old =>
        simp only [Option.some.injEq, exists_eq_left']
        exact and_congr_right fun hmem => not_congr (hkeeps old hold v4 hmem)
  intro v4 k
  show (if v4 ∈ c.addrsOf (podKey pod) ∧ ¬ pod.IsHostAddr v4 then none else c.podAt v4) = some k
    ↔ _
  by_cases hgone : v4 ∈ c.addrsOf (podKey pod) ∧ ¬ pod.IsHostAddr v4
  · -- nobody else owned the address, so nobody owns it now
    rw [if_pos hgone]
    rw [howned] at hgone
    apply iff_of_false (by simp)
    intro hk
    by_cases hkey : k = podKey pod
    · rw [hkey] at hk
      exact Cluster.not_owns_unregister_self hk
    · exact hkey (hdisjoint _ _ v4 ((Cluster.owns_unregister_of_ne hkey).1 hk) hgone)
  · rw [if_neg hgone, h v4 k]
    rw [howned] at hgone
    by_cases hkey : k = podKey pod
    · rw [hkey]
      exact iff_of_false hgone Cluster.not_owns_unregister_self
    · exact (Cluster.owns_unregister_of_ne hkey).symm

/-- In a normal run every step keeps the snapshot exact. -/
theorem Cluster.Exact.next {c : Cluster} {e : Event} (h : c.Exact)
    (hdisjoint : c.Disjoint Pod.IsHostAddr) (hkeeps : c.Keeps Pod.IsHostAddr e.action)
    (hnext : (c.next e).Disjoint Pod.IsHostAddr) : (c.next e).Exact := by
  unfold Cluster.next at hnext ⊢
  cases hact : e.action with
  | register pod =>
      rw [hact] at hkeeps hnext
      exact h.register hkeeps hnext
  | unregister pod =>
      rw [hact] at hkeeps
      exact h.unregister hkeeps hdisjoint
  | setZone node zone => exact h
  | dropNode node => exact h
  | report data => exact h
  | ignore => exact h

theorem Cluster.exact_empty : Cluster.empty.Exact := by
  intro v4 k
  refine iff_of_false (by simp [Cluster.empty]) ?_
  rintro ⟨pod, hpod, -⟩
  cases hpod

/-- In a normal run the snapshot is exact in every state. -/
theorem NormalRun.exact {es : List Event} (h : NormalRun Pod.IsHostAddr es) {pre : List Event}
    (hpre : pre <+: es) : (Cluster.after pre).Exact :=
  Runs.always_of_step (fun _ _ hexact hdisjoint hkeeps hnext => hexact.next hdisjoint hkeeps hnext)
    Cluster.exact_empty h.disjoint h.keeps pre hpre

/-! ## The server -/

/-- Main result: in every state of a normal run the pod index maps an address to
a pod exactly if the pod is live and its latest object lists the address as one
that is not the host address.  Every address in it is an IPv4 address that some
live pod lists. -/
theorem podIpIndex_exact (es : List Event) (h : NormalRun Pod.IsHostAddr es) :
    ∀ pre s, pre <+: es → run pre = some s →
      (∀ x y z w k, s.podIpIndex.lookup (word32 x y z w) = some k
        ↔ (Cluster.after pre).Owns Pod.IsHostAddr k [x, y, z, w])
      ∧ (∀ ip k, s.podIpIndex.lookup ip = some k →
        ∃ pod, (Cluster.after pre).pods k = some pod ∧ ∃ podIP ∈ pod.podIPs,
          ∃ x y z w, parseIPv4 podIP = some [x, y, z, w] ∧ ip = word32 x y z w) := by
  intro pre s hpre hs
  obtain ⟨s', hs', hrep⟩ := run_represents pre
  obtain rfl : s = s' := Option.some.inj (hs.symm.trans hs')
  have hexact : ∀ x y z w k, s.podIpIndex.lookup (word32 x y z w) = some k
      ↔ (Cluster.after pre).Owns Pod.IsHostAddr k [x, y, z, w] := by
    intro x y z w k
    rw [hrep.podAt]
    exact h.exact hpre [x, y, z, w] k
  refine ⟨hexact, fun ip k hip => ?_⟩
  obtain ⟨x, y, z, w, rfl⟩ := exists_word32 ip
  obtain ⟨pod, hpod, hmem, -⟩ := (hexact x y z w k).1 hip
  obtain ⟨podIP, hlisted, hparse⟩ := List.mem_filterMap.1 hmem
  exact ⟨pod, hpod, podIP, hlisted, x, y, z, w, hparse, rfl⟩

/-- The snapshot of a pod that is added without an address and then given one, next
to a pod on the network of the host and a pod that is deleted again. -/
theorem podIpIndex_exact_assigned :
    let pending : Pod := ⟨"default", "a", "n1", "192.168.0.1", []⟩
    let running : Pod := { pending with podIPs := ["10.0.0.1"] }
    let proxy : Pod := ⟨"kube-system", "proxy", "n1", "192.168.0.1", ["192.168.0.1"]⟩
    let other : Pod := ⟨"default", "b", "n2", "192.168.0.2", ["10.0.1.1", "fd00::1"]⟩
    let es : List Event := [.podAdd (.pod pending), .podAdd (.pod proxy), .podAdd (.pod other),
      .podUpdate (.pod pending) (.pod running), .podDelete (.pod other)]
    ∀ pre s, pre <+: es → run pre = some s →
      (∀ x y z w k, s.podIpIndex.lookup (word32 x y z w) = some k
        ↔ (Cluster.after pre).Owns Pod.IsHostAddr k [x, y, z, w])
      ∧ (∀ ip k, s.podIpIndex.lookup ip = some k →
        ∃ pod, (Cluster.after pre).pods k = some pod ∧ ∃ podIP ∈ pod.podIPs,
          ∃ x y z w, parseIPv4 podIP = some [x, y, z, w] ∧ ip = word32 x y z w) := by
  intro pending running proxy other es
  refine podIpIndex_exact es ⟨?_, ?_⟩
  · -- the pods that the update and the deletion are about
    have hpending : (Cluster.after (es.take 3)).pods (podKey running) = some pending := by decide
    have hother : (Cluster.after (es.take 4)).pods (podKey other) = some other := by decide
    refine Runs.guarded_cons.2 ⟨nofun, Runs.guarded_cons.2 ⟨nofun, Runs.guarded_cons.2 ⟨nofun,
      Runs.guarded_cons.2 ⟨fun old hold v4 hv4 => ?_, Runs.guarded_cons.2 ⟨fun old hold v4 _ => ?_,
        Runs.guarded_nil⟩⟩⟩⟩⟩
    · obtain rfl : pending = old := Option.some.inj (hpending.symm.trans hold)
      cases hv4
    · obtain rfl : other = old := Option.some.inj (hother.symm.trans hold)
      exact Iff.rfl
  · -- each address is only given to one pod
    refine Cluster.always_disjoint
      (fun v4 => if v4 = [10, 0, 0, 1] then podKey running else podKey other) fun e he pod hact => ?_
    simp only [es, List.mem_cons, List.not_mem_nil, or_false] at he
    rcases he with rfl | rfl | rfl | rfl | rfl
    · obtain rfl := Action.register.inj hact
      exact nofun
    · obtain rfl := Action.register.inj hact
      decide
    · obtain rfl := Action.register.inj hact
      decide
    · obtain rfl := Action.register.inj hact
      decide
    · cases hact

/-- When the host address is taken at its word, a pod that lists the host
address `0.0.0.0` lives normally, but the index has the pod at that address. -/
theorem not_exact_unspecified_host :
    let isHost : Pod → List UInt8 → Prop := fun pod v4 => parseIPv4 pod.hostIP = some v4
    let pod : Pod := ⟨"default", "a", "n", "0.0.0.0", ["0.0.0.0"]⟩
    let es : List Event := [.podAdd (.pod pod)]
    NormalRun isHost es ∧ ∃ s, run es = some s
      ∧ ¬ ∀ x y z w k, s.podIpIndex.lookup (word32 x y z w) = some k
        ↔ (Cluster.after es).Owns isHost k [x, y, z, w] := by
  intro isHost pod es
  refine ⟨⟨?_, ?_⟩, _, run_eq es, fun h => ?_⟩
  · refine Runs.guarded_cons.2 ⟨fun old hold => ?_, Runs.guarded_nil⟩
    cases hold
  · refine Cluster.always_disjoint (fun _ => podKey pod) fun e he pod' hact v4 _ _ => ?_
    obtain rfl := List.mem_singleton.1 he
    rw [← Action.register.inj hact]
  · obtain ⟨pod', hpod', -, hhost⟩ := (h 0 0 0 0 (podKey pod)).1 (by decide)
    have hpod : pod' = pod := by
      rw [← Option.some.injEq, ← hpod']
      exact Cluster.pods_register_self _ pod
    rw [hpod] at hhost
    exact hhost (by decide)

end Server
