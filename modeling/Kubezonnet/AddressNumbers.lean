/-
# The numbers of addresses

The server and the agent turn the addresses of a pod into numbers, each with its
own copy of `ipToUint32`, which panics on a text that is not a dotted quad.  The
guards before the calls leave only IPv4 addresses, and on these both copies give
the number of the four bytes (`ipToUint32_eq_numberOf`).  So whatever strings a
pod carries, the handlers and the filter go through, and the addresses they work
with are told apart by their numbers (`ipToUint32_safe`).
-/
import Kubezonnet.AgentFilter
import Kubezonnet.ServerActions

open WordBytes GoNet IpWord Kube

namespace Kube

/-- The number of an address, its bytes from the most significant one on. -/
def numberOf (v4 : List UInt8) : UInt32 := UInt32.ofNat (beNat v4)

/-- The number of an IPv4 address weighs its bytes by their places. -/
theorem toNat_numberOf (b0 b1 b2 b3 : UInt8) :
    (numberOf [b0, b1, b2, b3]).toNat
      = b0.toNat * 2 ^ 24 + b1.toNat * 2 ^ 16 + b2.toNat * 2 ^ 8 + b3.toNat := by
  have h0 := b0.toNat_lt
  have h1 := b1.toNat_lt
  have h2 := b2.toNat_lt
  have h3 := b3.toNat_lt
  simp only [numberOf, beNat, List.foldl_cons, List.foldl_nil, UInt32.toNat_ofNat']
  omega

/-- The number of four bytes is the word they make up. -/
theorem numberOf_eq_word32 (b0 b1 b2 b3 : UInt8) :
    numberOf [b0, b1, b2, b3] = word32 b0 b1 b2 b3 := by
  apply UInt32.toNat_inj.1
  rw [toNat_numberOf, toNat_word32]

/-- Distinct IPv4 addresses have distinct numbers. -/
theorem numberOf_inj {v4 v4' : List UInt8} (hlen : v4.length = 4) (hlen' : v4'.length = 4)
    (h : numberOf v4 = numberOf v4') : v4 = v4' := by
  match v4, hlen, v4', hlen' with
  | [b0, b1, b2, b3], _, [c0, c1, c2, c3], _ =>
      rw [numberOf_eq_word32, numberOf_eq_word32] at h
      obtain ⟨rfl, rfl, rfl, rfl⟩ := word32_inj.1 h
      rfl

/-- `ipToUint32` gives an IPv4 address its number. -/
theorem ipToUint32_eq_numberOf {ip : IP} {v4 : List UInt8} (h : to4 ip = some v4) :
    IpWord.ipToUint32 ip = some (numberOf v4) := by
  obtain ⟨b0, b1, b2, b3, rfl⟩ := exists_of_to4 h
  rw [ipToUint32_of_to4 h, numberOf_eq_word32]

/-- Both copies give an IPv4 address the number that its bytes make up. -/
theorem exists_ipToUint32 {ip : IP} {v4 : List UInt8} (h : to4 ip = some v4) :
    ∃ b0 b1 b2 b3 word, v4 = [b0, b1, b2, b3]
      ∧ Server.ipToUint32 ip = some word ∧ Agent.ipToUint32 ip = some word
      ∧ word.toNat = b0.toNat * 2 ^ 24 + b1.toNat * 2 ^ 16 + b2.toNat * 2 ^ 8 + b3.toNat := by
  obtain ⟨b0, b1, b2, b3, rfl⟩ := exists_of_to4 h
  exact ⟨b0, b1, b2, b3, _, rfl, ipToUint32_eq_numberOf h, ipToUint32_eq_numberOf h,
    toNat_numberOf b0 b1 b2 b3⟩

/-- Two IPv4 addresses with the same number, by either copy, are the same. -/
theorem to4_eq_of_ipToUint32 {ip ip' : IP} (h : to4 ip ≠ none) (h' : to4 ip' ≠ none)
    (heq : Server.ipToUint32 ip = Agent.ipToUint32 ip') : to4 ip = to4 ip' := by
  obtain ⟨v4, h4⟩ := Option.ne_none_iff_exists'.1 h
  obtain ⟨v4', h4'⟩ := Option.ne_none_iff_exists'.1 h'
  have hnum : some (numberOf v4) = some (numberOf v4') := by
    rw [← ipToUint32_eq_numberOf h4, ← ipToUint32_eq_numberOf h4']
    exact heq
  rw [h4, h4', numberOf_inj (length_of_to4 h4) (length_of_to4 h4') (Option.some.inj hnum)]

/-- The dotted and the IPv4-mapped text of an address are read as its bytes. -/
theorem parseIPv4_texts (b0 b1 b2 b3 : UInt8) :
    parseIPv4 (String.ofList (dotted [b0, b1, b2, b3])) = some [b0, b1, b2, b3]
      ∧ parseIPv4 (String.ofList (mappedText [b0, b1, b2, b3])) = some [b0, b1, b2, b3] := by
  have h4 : to4 (mapped [b0, b1, b2, b3]) = some [b0, b1, b2, b3] := by
    simp [to4, mapped]
  constructor
  · rw [parseIPv4, parseIP_dotted, Option.bind_some, h4]
  · rw [parseIPv4, parseIP_mappedText, Option.bind_some, h4]

/-- The word of an address string is the number of the address. -/
theorem ipv4Word_eq_map (s : String) : ipv4Word s = (parseIPv4 s).map numberOf := by
  unfold ipv4Word
  cases h : parseIPv4 s with
  | none => rfl
  | some v4 =>
      obtain ⟨ip, -, h4⟩ := Option.bind_eq_some_iff.1 h
      obtain ⟨b0, b1, b2, b3, rfl⟩ := exists_of_to4 h4
      rw [Option.map_some, numberOf_eq_word32]

/-- The words of a pod are the numbers of its addresses. -/
theorem words_eq_map (pod : Pod) : pod.words = pod.addrs.map numberOf := by
  unfold Pod.words Pod.addrs
  rw [List.map_filterMap]
  apply List.filterMap_congr
  intro s _
  exact ipv4Word_eq_map s

/-- The host word of a pod is the number of its host address. -/
theorem hostWord_eq (pod : Pod) : pod.hostWord = ((parseIPv4 pod.hostIP).map numberOf).getD 0 := by
  rw [Pod.hostWord, ipv4Word_eq_map]

/-- No pod makes `ipToUint32` panic, and what it returns is the number of the
address.  The parts are: the four bytes of a parsed address weighed by their
places, for both copies; the two texts of an IPv4 address; the two copies on two
addresses; the conversions of a pod at the four call sites; the handlers and the
filter, on any state and any flows. -/
theorem ipToUint32_safe :
    (∀ (ip : IP) (v4 : List UInt8), to4 ip = some v4 →
      ∃ b0 b1 b2 b3 word, v4 = [b0, b1, b2, b3]
        ∧ Server.ipToUint32 ip = some word ∧ Agent.ipToUint32 ip = some word
        ∧ word.toNat = b0.toNat * 2 ^ 24 + b1.toNat * 2 ^ 16 + b2.toNat * 2 ^ 8 + b3.toNat)
      ∧ (∀ b0 b1 b2 b3 : UInt8,
        parseIPv4 (String.ofList (dotted [b0, b1, b2, b3])) = some [b0, b1, b2, b3]
          ∧ parseIPv4 (String.ofList (mappedText [b0, b1, b2, b3])) = some [b0, b1, b2, b3])
      ∧ (∀ ip ip' : IP, to4 ip ≠ none → to4 ip' ≠ none →
        Server.ipToUint32 ip = Agent.ipToUint32 ip' → to4 ip = to4 ip')
      ∧ (∀ pod : Pod,
        Server.parseHostIP pod = some (((parseIPv4 pod.hostIP).map numberOf).getD 0)
          ∧ Server.parsePodIPs pod.podIPs [] = some (pod.addrs.map numberOf)
          ∧ ∀ ipsOnHost : GoMap UInt32 Unit, ∃ m, Agent.indexPodIPs pod.podIPs ipsOnHost = some m
            ∧ ∀ word, word ∈ m ↔ word ∈ ipsOnHost ∨ word ∈ pod.addrs.map numberOf)
      ∧ (∀ (pod : Pod) (s : Server.State),
        Server.handlePod (.pod pod) s ≠ none ∧ Server.onPodDelete (.pod pod) s ≠ none)
      ∧ ∀ (kvs : List (Payload.IPKey × Payload.IPValue)) (podsOnHost : List Pod),
        Agent.filterSrcIpOnCurrentHost (kvs.map Prod.fst) (kvs.map Prod.snd) podsOnHost ≠ none := by
  refine ⟨fun ip v4 => exists_ipToUint32, parseIPv4_texts, fun ip ip' => to4_eq_of_ipToUint32,
    ?_, ?_, ?_⟩
  · intro pod
    refine ⟨?_, ?_, ?_⟩
    · rw [Server.parseHostIP_eq, hostWord_eq]
    · rw [Server.parsePodIPs_eq, List.nil_append, ← Pod.words, words_eq_map]
    · intro ipsOnHost
      rw [← words_eq_map]
      exact Agent.exists_indexPodIPs pod.podIPs ipsOnHost
  · intro pod s
    constructor
    · intro h
      cases (Server.step_eq s (.podAdd (.pod pod))).symm.trans h
    · intro h
      cases (Server.step_eq s (.podDelete (.pod pod))).symm.trans h
  · intro kvs podsOnHost h
    cases (Agent.filterSrcIpOnCurrentHost_eq kvs podsOnHost).symm.trans h

/-- An IPv4-mapped address may also be written in hexadecimal. -/
example : parseIPv4 "::ffff:a00:1" = some [10, 0, 0, 1] := by decide

end Kube
