/-
# Textual IP addresses

The part of Go's standard library that turns text into IP addresses and back:
`net.ParseIP`, `IP.To4`, `IP.String`, and `strconv.Atoi` for their decimal
parts.  An address is a byte string; `parseIP` gives `none` for Go's `nil`.

The text of an IPv4 address splits at the dots into four decimal numbers that
`atoi` reads back (`splitOn_ipString`, `atoi_decimal`), and `parseIP` reads it
back too, as it does the IPv4-mapped text (`parseIP_dotted`, `parseIP_mappedText`).
-/
import Mathlib

namespace GoNet

/-- `net.IP`: four or sixteen bytes. -/
abbrev IP : Type := List UInt8

/-! ## Decimal text -/

/-- A decimal digit. -/
def isDigit (c : Char) : Bool := '0' ≤ c && c ≤ '9'

/-- The value of a decimal digit. -/
def digitVal (c : Char) : ℕ := c.toNat - 48

/-- The character of a digit below ten. -/
def digitChar (n : ℕ) : Char := Char.ofNat (48 + n)

/-- The decimal text of a byte, without leading zeros. -/
def decimal (x : UInt8) : List Char :=
  (if 100 ≤ x.toNat then [digitChar (x.toNat / 100)] else [])
    ++ (if 10 ≤ x.toNat then [digitChar (x.toNat / 10 % 10)] else [])
    ++ [digitChar (x.toNat % 10)]

/-- The digit loop of `strconv.Atoi`. -/
def atoiDigits : List Char → ℕ → Option ℕ
  | [], n => some n
  | c :: cs, n => if isDigit c then atoiDigits cs (n * 10 + digitVal c) else none

/-- `strconv.Atoi`: an optional sign, at least one digit, and the range of a
64-bit `int`. -/
def atoi (s : List Char) : Option ℤ := do
  let digits := match s with
    | '-' :: ds => ds
    | '+' :: ds => ds
    | ds => ds
  if digits = [] then none
  else
    let n ← atoiDigits digits 0
    if s.head? = some '-' then
      if n ≤ 2 ^ 63 then some (-(n : ℤ)) else none
    else
      if n < 2 ^ 63 then some (n : ℤ) else none

/-- Every decimal digit is read back as itself. -/
theorem digitChar_spec {n : ℕ} (h : n < 10) :
    isDigit (digitChar n) = true ∧ digitVal (digitChar n) = n
      ∧ digitChar n ≠ '.' ∧ digitChar n ≠ ':' ∧ digitChar n ≠ '%'
      ∧ digitChar n ≠ '-' ∧ digitChar n ≠ '+' := by
  interval_cases n <;> decide

/-- The digits of a byte: one, two or three of them, the first of which is zero
only for the byte zero. -/
theorem decimal_cases (x : UInt8) :
    (∃ a < 10, x.toNat = a ∧ decimal x = [digitChar a])
      ∨ (∃ a < 10, ∃ b < 10, a ≠ 0 ∧ x.toNat = a * 10 + b
          ∧ decimal x = [digitChar a, digitChar b])
      ∨ (∃ a < 10, ∃ b < 10, ∃ c < 10, a ≠ 0 ∧ x.toNat = a * 100 + b * 10 + c
          ∧ decimal x = [digitChar a, digitChar b, digitChar c]) := by
  have hx : x.toNat < 256 := x.toNat_lt
  by_cases h100 : 100 ≤ x.toNat
  · right; right
    refine ⟨x.toNat / 100, by omega, x.toNat / 10 % 10, by omega, x.toNat % 10, by omega,
      by omega, by omega, ?_⟩
    rw [decimal, if_pos h100, if_pos (by omega)]
    rfl
  · by_cases h10 : 10 ≤ x.toNat
    · right; left
      refine ⟨x.toNat / 10, by omega, x.toNat % 10, by omega, by omega, by omega, ?_⟩
      rw [decimal, if_neg h100, if_pos h10, Nat.mod_eq_of_lt (by omega : x.toNat / 10 < 10)]
      rfl
    · left
      refine ⟨x.toNat, by omega, rfl, ?_⟩
      rw [decimal, if_neg h100, if_neg h10, Nat.mod_eq_of_lt (by omega)]
      rfl

/-- The characters of a byte's decimal text are digits. -/
theorem decimal_digits (x : UInt8) :
    ∀ c ∈ decimal x, ∃ n < 10, c = digitChar n := by
  intro c hc
  rcases decimal_cases x with ⟨a, ha, -, h⟩ | ⟨a, ha, b, hb, -, -, h⟩
    | ⟨a, ha, b, hb, d, hd, -, -, h⟩ <;> rw [h] at hc <;> simp only [List.mem_cons,
    List.not_mem_nil, or_false] at hc
  · exact ⟨a, ha, hc⟩
  · rcases hc with rfl | rfl
    · exact ⟨a, ha, rfl⟩
    · exact ⟨b, hb, rfl⟩
  · rcases hc with rfl | rfl | rfl
    · exact ⟨a, ha, rfl⟩
    · exact ⟨b, hb, rfl⟩
    · exact ⟨d, hd, rfl⟩

/-- No separator occurs in the decimal text of a byte. -/
theorem dot_notMem_decimal (x : UInt8) : '.' ∉ decimal x := by
  intro h
  obtain ⟨n, hn, hc⟩ := decimal_digits x '.' h
  exact (digitChar_spec hn).2.2.1 hc.symm

/-- `strconv.Atoi` reads the decimal text of a byte back. -/
theorem atoi_decimal (x : UInt8) : atoi (decimal x) = some (x.toNat : ℤ) := by
  have hx : x.toNat < 256 := x.toNat_lt
  -- the text starts with a digit, so the sign cases do not apply
  have hdigits : ∀ (d : ℕ) (ds : List Char), d < 10 → decimal x = digitChar d :: ds →
      atoiDigits (decimal x) 0 = some x.toNat → atoi (decimal x) = some (x.toNat : ℤ) := by
    intro d ds hd heq hval
    obtain ⟨-, -, -, -, -, hminus, hplus⟩ := digitChar_spec hd
    rw [heq] at hval ⊢
    simp [atoi, hminus, hplus, hval]
    omega
  rcases decimal_cases x with ⟨a, ha, hxa, h⟩ | ⟨a, ha, b, hb, -, hxa, h⟩
    | ⟨a, ha, b, hb, d, hd, -, hxa, h⟩
  · apply hdigits a [] ha h
    rw [h, hxa]
    simp [atoiDigits, digitChar_spec ha]
  · apply hdigits a [digitChar b] ha h
    rw [h, hxa]
    simp [atoiDigits, digitChar_spec ha, digitChar_spec hb]
  · apply hdigits a [digitChar b, digitChar d] ha h
    rw [h, hxa]
    simp [atoiDigits, digitChar_spec ha, digitChar_spec hb, digitChar_spec hd]
    omega

/-! ## Parsing -/

/-- The loop of `parseIPv4Fields`: `prev` is the character before the current
one, `val` and `digLen` the value and the digits of the current field, and
`fields` the fields that are complete. -/
def parseIPv4Loop : List Char → Option Char → ℕ → ℕ → List UInt8 → Option (List UInt8)
  | [], _, val, _, fields =>
      if fields.length < 3 then none else some (fields ++ [UInt8.ofNat val])
  | c :: rest, prev, val, digLen, fields =>
      if isDigit c then
        if digLen = 1 ∧ val = 0 then none
        else if 255 < val * 10 + digitVal c then none
        else parseIPv4Loop rest (some c) (val * 10 + digitVal c) (digLen + 1) fields
      else if c = '.' then
        if prev = none ∨ rest = [] ∨ prev = some '.' then none
        else if fields.length = 3 then none
        else parseIPv4Loop rest (some c) 0 0 (fields ++ [UInt8.ofNat val])
      else none

/-- `parseIPv4Fields`: the four fields of a dotted quad. -/
def parseIPv4Fields (s : List Char) : Option (List UInt8) :=
  parseIPv4Loop s none 0 0 []

/-- The value of a hexadecimal digit. -/
def hexVal (c : Char) : Option ℕ :=
  if '0' ≤ c ∧ c ≤ '9' then some (c.toNat - 48)
  else if 'a' ≤ c ∧ c ≤ 'f' then some (c.toNat - 87)
  else if 'A' ≤ c ∧ c ≤ 'F' then some (c.toNat - 55)
  else none

/-- The hexadecimal number at the start of the text: its number of digits, its
value and the text after it.  A group has at most four digits. -/
def scanHex : List Char → ℕ → ℕ → Option (ℕ × ℕ × List Char)
  | [], off, acc => some (off, acc, [])
  | c :: rest, off, acc =>
      match hexVal c with
      | none => some (off, acc, c :: rest)
      | some d =>
          if 3 < off then none
          else if 0xFFFF < acc * 16 + d then none
          else scanHex rest (off + 1) (acc * 16 + d)

/-- The loop of `parseIPv6`, with `groups` 16-bit groups still to fill: the text
left over, the bytes read and the position of the `::` among them. -/
def parseIPv6Loop : ℕ → List Char → IP → Option ℕ → Option (List Char × IP × Option ℕ)
  | 0, s, ip, ellipsis => some (s, ip, ellipsis)
  | groups + 1, s, ip, ellipsis => do
      let (off, acc, rest) ← scanHex s 0 0
      if off = 0 then none
      else if rest.head? = some '.' then
        -- an embedded IPv4 address must fill the last two groups
        if ellipsis = none ∧ ip.length ≠ 12 then none
        else if 16 < ip.length + 4 then none
        else do
          let v4 ← parseIPv4Fields s
          some ([], ip ++ v4, ellipsis)
      else
        let ip' := ip ++ [UInt8.ofNat (acc / 256), UInt8.ofNat acc]
        match rest with
        | [] => some ([], ip', ellipsis)
        | [_] => none
        | c :: d :: rest' =>
            if c ≠ ':' then none
            else if d = ':' then
              if ellipsis ≠ none then none
              else if rest' = [] then some ([], ip', some ip'.length)
              else parseIPv6Loop groups rest' ip' (some ip'.length)
            else parseIPv6Loop groups (d :: rest') ip' ellipsis

/-- `parseIPv6`, without its zone: the sixteen bytes, the `::` replaced by as
many zero bytes as are missing. -/
def parseIPv6 (s : List Char) : Option IP := do
  let start := match s with
    | ':' :: ':' :: rest => (rest, some 0)
    | rest => (rest, none)
  if s = [':', ':'] then some (List.replicate 16 0)
  else
    let (rest, ip, ellipsis) ← parseIPv6Loop 8 start.1 [] start.2
    if rest ≠ [] then none
    else if ip.length < 16 then
      match ellipsis with
      | none => none
      | some e => some (ip.take e ++ List.replicate (16 - ip.length) 0 ++ ip.drop e)
    else if ellipsis ≠ none then none
    else some ip

/-- The IPv4-mapped IPv6 address of four bytes. -/
def mapped (v4 : List UInt8) : IP :=
  List.replicate 10 0 ++ [0xFF, 0xFF] ++ v4

/-- `net.ParseIP`: the first `.`, `:` or `%` decides the form.  Text with a zone
(`%`) is never an address. -/
def parseIP (s : String) : Option IP :=
  match s.toList.find? (fun c => c = '.' ∨ c = ':' ∨ c = '%') with
  | some '.' => (parseIPv4Fields s.toList).map mapped
  | some ':' => if '%' ∈ s.toList then none else parseIPv6 s.toList
  | _ => none

/-! ## IPv4 addresses -/

/-- `IP.To4`: the four bytes of an IPv4 address. -/
def to4 (ip : IP) : Option (List UInt8) :=
  if ip.length = 4 then some ip
  else if ip.length = 16 ∧ ip.take 10 = List.replicate 10 0
      ∧ ip[10]? = some 0xFF ∧ ip[11]? = some 0xFF then some (ip.drop 12)
  else none

/-- The four bytes of an address string, `none` unless it is an IPv4 address. -/
def parseIPv4 (s : String) : Option (List UInt8) :=
  (parseIP s).bind to4

/-- The bytes `IP.To4` gives are four. -/
theorem length_of_to4 {ip : IP} {v4 : List UInt8} (h : to4 ip = some v4) :
    v4.length = 4 := by
  unfold to4 at h
  split_ifs at h with h4 h16
  · rw [← Option.some.inj h, h4]
  · rw [← Option.some.inj h, List.length_drop, h16.1]

/-- `IP.To4` gives an IPv4 address its four bytes. -/
theorem exists_of_to4 {ip : IP} {v4 : List UInt8} (h : to4 ip = some v4) :
    ∃ a b c d, v4 = [a, b, c, d] := by
  have hlen := length_of_to4 h
  match v4, hlen with
  | [a, b, c, d], _ => exact ⟨a, b, c, d, rfl⟩

/-! ## Printing -/

/-- The text of an IPv4 address: its four bytes in decimal, with dots between. -/
def dotted (v4 : List UInt8) : List Char :=
  ['.'].intercalate (v4.map decimal)

/-- The hexadecimal text of a 16-bit group, without leading zeros. -/
def hexGroup (n : ℕ) : List Char := Nat.toDigits 16 n

/-- The 16-bit groups of an address. -/
def groups16 : IP → List ℕ
  | a :: b :: rest => (a.toNat * 256 + b.toNat) :: groups16 rest
  | _ => []

/-- The start and the end of the first longest run of at least two zero groups,
searching from group `i` on. -/
def longestZeros (gs : List ℕ) : ℕ → ℕ → Option (ℕ × ℕ) → Option (ℕ × ℕ)
  | 0, _, best => best
  | n + 1, i, best =>
      let run := ((gs.drop i).takeWhile (· = 0)).length
      let bestLen := (best.map fun b => b.2 - b.1).getD 0
      longestZeros gs n (i + 1)
        (if 2 ≤ run ∧ bestLen < run then some (i, i + run) else best)

/-- The text of an IPv6 address that is not IPv4-mapped. -/
def ipv6String (ip : IP) : List Char :=
  let gs := groups16 ip
  match longestZeros gs 8 0 none with
  | none => [':'].intercalate (gs.map hexGroup)
  | some (i, j) =>
      [':'].intercalate ((gs.take i).map hexGroup) ++ [':', ':']
        ++ [':'].intercalate ((gs.drop j).map hexGroup)

/-- `IP.String` of an address of four or sixteen bytes. -/
def ipString (ip : IP) : List Char :=
  match to4 ip with
  | some v4 => dotted v4
  | none => ipv6String ip

/-- The text of an IPv4 address splits at the dots into its decimal parts. -/
theorem splitOn_ipString {ip : IP} {a b c d : UInt8} (h : to4 ip = some [a, b, c, d]) :
    (ipString ip).splitOn '.' = [decimal a, decimal b, decimal c, decimal d] := by
  have hdots : ∀ part ∈ [a, b, c, d].map decimal, '.' ∉ part := by
    intro part hpart
    obtain ⟨x, -, rfl⟩ := List.mem_map.1 hpart
    exact dot_notMem_decimal x
  rw [ipString, h]
  exact List.splitOn_intercalate '.' hdots (by simp)

/-! ## Reading printed addresses back -/

/-- The IPv4-mapped IPv6 text of an IPv4 address. -/
def mappedText (v4 : List UInt8) : List Char :=
  [':', ':', 'f', 'f', 'f', 'f', ':'] ++ dotted v4

/-- A digit extends the current field, unless it would follow a leading zero. -/
theorem parseIPv4Loop_digit {n val digLen : ℕ} (hn : n < 10) (hlead : digLen = 1 → val ≠ 0)
    (hval : val * 10 + n ≤ 255) (rest : List Char) (prev : Option Char) (fields : List UInt8) :
    parseIPv4Loop (digitChar n :: rest) prev val digLen fields
      = parseIPv4Loop rest (some (digitChar n)) (val * 10 + n) (digLen + 1) fields := by
  obtain ⟨hdigit, hdigitVal, -⟩ := digitChar_spec hn
  have hzero : ¬ (digLen = 1 ∧ val = 0) := fun h => hlead h.1 h.2
  rw [parseIPv4Loop, if_pos hdigit, if_neg hzero, hdigitVal, if_neg (by omega)]

/-- The decimal text of a byte is read as the value of a field. -/
theorem parseIPv4Loop_decimal (x : UInt8) (rest : List Char) (prev : Option Char)
    (fields : List UInt8) :
    ∃ n < 10, ∃ digLen, parseIPv4Loop (decimal x ++ rest) prev 0 0 fields
      = parseIPv4Loop rest (some (digitChar n)) x.toNat digLen fields := by
  have hx : x.toNat < 256 := x.toNat_lt
  rcases decimal_cases x with ⟨a, ha, hxa, h⟩ | ⟨a, ha, b, hb, hne, hxa, h⟩
    | ⟨a, ha, b, hb, c, hc, hne, hxa, h⟩
  · refine ⟨a, ha, 1, ?_⟩
    rw [h, List.singleton_append, parseIPv4Loop_digit ha (by omega) (by omega), hxa]
    congr 1
    omega
  · refine ⟨b, hb, 2, ?_⟩
    rw [h, List.cons_append, List.singleton_append, parseIPv4Loop_digit ha (by omega) (by omega),
      parseIPv4Loop_digit hb (by omega) (by omega), hxa]
    congr 1
    omega
  · refine ⟨c, hc, 3, ?_⟩
    rw [h, List.cons_append, List.cons_append, List.singleton_append,
      parseIPv4Loop_digit ha (by omega) (by omega), parseIPv4Loop_digit hb (by omega) (by omega),
      parseIPv4Loop_digit hc (by omega) (by omega), hxa]
    congr 1
    omega

/-- A byte and the dot after it make a complete field. -/
theorem parseIPv4Loop_field {fields : List UInt8} {rest : List Char} (hrest : rest ≠ [])
    (hfields : fields.length < 3) (x : UInt8) (prev : Option Char) :
    parseIPv4Loop (decimal x ++ '.' :: rest) prev 0 0 fields
      = parseIPv4Loop rest (some '.') 0 0 (fields ++ [x]) := by
  obtain ⟨n, hn, digLen, h⟩ := parseIPv4Loop_decimal x ('.' :: rest) prev fields
  have hdot : isDigit '.' = false := by decide
  have hprev : digitChar n ≠ '.' := (digitChar_spec hn).2.2.1
  rw [h, parseIPv4Loop, hdot, if_neg (by simp), if_pos rfl, if_neg (by simp [hrest, hprev]),
    if_neg (by omega), UInt8.ofNat_toNat]

/-- The dotted text of four bytes, its fields and dots laid out. -/
theorem dotted_eq (a b c d : UInt8) :
    dotted [a, b, c, d]
      = decimal a ++ '.' :: (decimal b ++ '.' :: (decimal c ++ '.' :: (decimal d ++ []))) := by
  simp [dotted, List.intercalate]

theorem decimal_ne_nil (x : UInt8) : decimal x ≠ [] := by
  simp [decimal]

/-- The dotted text of four bytes is read back as these bytes. -/
theorem parseIPv4Fields_dotted (a b c d : UInt8) :
    parseIPv4Fields (dotted [a, b, c, d]) = some [a, b, c, d] := by
  rw [parseIPv4Fields, dotted_eq, parseIPv4Loop_field (by simp [decimal_ne_nil]) (by simp),
    parseIPv4Loop_field (by simp [decimal_ne_nil]) (by simp),
    parseIPv4Loop_field (by simp [decimal_ne_nil]) (by simp)]
  obtain ⟨n, -, digLen, h⟩ := parseIPv4Loop_decimal d [] (some '.') [a, b, c]
  -- the last field ends with the text
  rw [List.nil_append, List.singleton_append, List.cons_append, List.singleton_append, h,
    parseIPv4Loop, if_neg (by simp), UInt8.ofNat_toNat]
  rfl

/-- No colon and no zone is in a dotted text. -/
theorem notMem_dotted {ch : Char} (hdot : ch ≠ '.') (hdigit : ∀ n < 10, ch ≠ digitChar n)
    (a b c d : UInt8) : ch ∉ dotted [a, b, c, d] := by
  have hdecimal : ∀ x : UInt8, ch ∉ decimal x := by
    intro x hmem
    obtain ⟨n, hn, h⟩ := decimal_digits x ch hmem
    exact hdigit n hn h
  simp [dotted_eq, hdecimal, hdot]

/-- A dotted text is an IPv4 address. -/
theorem parseIP_dotted (a b c d : UInt8) :
    parseIP (String.ofList (dotted [a, b, c, d])) = some (mapped [a, b, c, d]) := by
  have hfirst : (dotted [a, b, c, d]).find? (fun c => c = '.' ∨ c = ':' ∨ c = '%') = some '.' := by
    have hnone : (decimal a).find? (fun c => c = '.' ∨ c = ':' ∨ c = '%') = none := by
      rw [List.find?_eq_none]
      intro ch hch
      obtain ⟨n, hn, rfl⟩ := decimal_digits a ch hch
      obtain ⟨-, -, hdot, hcolon, hzone, -⟩ := digitChar_spec hn
      simp [hdot, hcolon, hzone]
    rw [dotted_eq, List.find?_append, hnone]
    rfl
  unfold parseIP
  rw [String.toList_ofList, hfirst]
  simp only [parseIPv4Fields_dotted, Option.map_some]

/-- The first field of a dotted text is scanned as a hexadecimal group. -/
theorem scanHex_decimal (x : UInt8) (rest : List Char) :
    ∃ off ≠ 0, ∃ acc, scanHex (decimal x ++ '.' :: rest) 0 0 = some (off, acc, '.' :: rest) := by
  have hdigit : ∀ n < 10, hexVal (digitChar n) = some n := by decide
  have hdot : hexVal '.' = none := by decide
  rcases decimal_cases x with ⟨a, ha, -, h⟩ | ⟨a, ha, b, hb, -, -, h⟩
    | ⟨a, ha, b, hb, c, hc, -, -, h⟩
  · refine ⟨1, by omega, a, ?_⟩
    simp [h, scanHex, hdigit a ha, hdot]
    omega
  · refine ⟨2, by omega, a * 16 + b, ?_⟩
    simp [h, scanHex, hdigit a ha, hdigit b hb, hdot]
    omega
  · refine ⟨3, by omega, (a * 16 + b) * 16 + c, ?_⟩
    simp [h, scanHex, hdigit a ha, hdigit b hb, hdigit c hc, hdot]
    omega

/-- After `ffff:` the dotted text fills the last two groups. -/
theorem parseIPv6Loop_dotted (groups : ℕ) (a b c d : UInt8) :
    parseIPv6Loop (groups + 1) (dotted [a, b, c, d]) [0xFF, 0xFF] (some 0)
      = some ([], [0xFF, 0xFF, a, b, c, d], some 0) := by
  obtain ⟨off, hoff, acc, hscan⟩ := scanHex_decimal a
    (decimal b ++ '.' :: (decimal c ++ '.' :: (decimal d ++ [])))
  rw [← dotted_eq] at hscan
  rw [parseIPv6Loop, hscan]
  simp [hoff, parseIPv4Fields_dotted]

/-- An IPv4-mapped text is the same address. -/
theorem parseIP_mappedText (a b c d : UInt8) :
    parseIP (String.ofList (mappedText [a, b, c, d])) = some (mapped [a, b, c, d]) := by
  have hzone : '%' ∉ mappedText [a, b, c, d] := by
    have h := notMem_dotted (by decide) (by decide : ∀ n < 10, '%' ≠ digitChar n) a b c d
    simp [mappedText, h]
  have hcolon : ':' ∉ dotted [a, b, c, d] :=
    notMem_dotted (by decide) (by decide) a b c d
  have hparse : parseIPv6 (mappedText [a, b, c, d]) = some (mapped [a, b, c, d]) := by
    have hscan : scanHex ('f' :: 'f' :: 'f' :: 'f' :: ':' :: dotted [a, b, c, d]) 0 0
        = some (4, 0xFFFF, ':' :: dotted [a, b, c, d]) := by
      simp [scanHex, hexVal]
    have hloop : parseIPv6Loop 8 ('f' :: 'f' :: 'f' :: 'f' :: ':' :: dotted [a, b, c, d]) []
        (some 0) = some ([], [0xFF, 0xFF, a, b, c, d], some 0) := by
      -- the text goes on behind the colon, with a digit and not another colon
      obtain ⟨ch, rest, hdotted⟩ := List.exists_cons_of_ne_nil (by simp [dotted_eq] :
        dotted [a, b, c, d] ≠ [])
      have hch : ch ≠ ':' := by
        rintro rfl
        exact hcolon (by simp [hdotted])
      rw [parseIPv6Loop, hscan, ← parseIPv6Loop_dotted 6, hdotted]
      simp [hch]
    unfold parseIPv6 mappedText
    simp [hloop, mapped]
  unfold parseIP
  rw [String.toList_ofList]
  have hfirst : (mappedText [a, b, c, d]).find? (fun c => c = '.' ∨ c = ':' ∨ c = '%')
      = some ':' := rfl
  rw [hfirst]
  simp only [if_neg hzone, hparse]

end GoNet
