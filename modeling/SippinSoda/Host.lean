import SippinSoda.Http
import SippinSoda.Policy

/-!
# Host patterns and destination classes

`HostPattern`, `valid_hostname` and `DestinationClassifier` of `proxy.rs`, with the parser
of IP addresses they rest on (`std::net::IpAddr`).
-/

namespace SippinSoda

/-! ## IP addresses -/

/-- `std::net::IpAddr`: four octets, or eight groups of 16 bits. -/
inductive IpAddr where
  | v4 (octets : List Nat)
  | v6 (groups : List Nat)
  deriving DecidableEq, Repr

/-- The value of a digit in the radix, `char::to_digit`. -/
def toDigit (radix : Nat) (c : Char) : Option Nat :=
  let value :=
    if '0' ≤ c ∧ c ≤ '9' then some (c.toNat - '0'.toNat)
    else if 'a' ≤ c ∧ c ≤ 'f' then some (c.toNat - 'a'.toNat + 10)
    else if 'A' ≤ c ∧ c ≤ 'F' then some (c.toNat - 'A'.toNat + 10)
    else none
  value.filter (· < radix)

/-- `read_number`: all the digits that follow, at most `maxDigits`, below `bound`, and
without a leading zero unless `zeroPrefix`. -/
def readNumber (radix maxDigits bound : Nat) (zeroPrefix : Bool) (s : Str) :
    Option (Nat × Str) :=
  let digits := s.takeWhile fun c => (toDigit radix c).isSome
  let value := digits.foldl (fun n c => n * radix + (toDigit radix c).getD 0) 0
  if digits.isEmpty || maxDigits < digits.length || bound ≤ value ||
      (!zeroPrefix && digits.head? == some '0' && 1 < digits.length) then none
  else some (value, s.drop digits.length)

/-- `read_separator`: the separator, except before the first item. -/
def readSeparator (separator : Char) (index : Nat) (s : Str) : Option Str :=
  if index = 0 then some s
  else match s with
    | c :: rest => if c = separator then some rest else none
    | [] => none

/-- The octets of an IPv4 address from the one of this index. -/
def readOctets (index : Nat) : Nat → Str → Option (List Nat × Str)
  | 0, s => some ([], s)
  | count + 1, s => do
      let (octet, s) ← readNumber 10 3 256 false (← readSeparator '.' index s)
      let (octets, s) ← readOctets (index + 1) count s
      return (octet :: octets, s)

/-- `read_ipv4_addr`. -/
def readIpv4 (s : Str) : Option (List Nat × Str) := readOctets 0 4 s

/-- `read_groups`: up to `count` groups from the one of this index, where the last two may
be an IPv4 address. Tells whether they were. -/
def readGroups (index : Nat) : Nat → Str → List Nat × Bool × Str
  | 0, s => ([], false, s)
  | count + 1, s =>
      let embedded := if count = 0 then none else (readSeparator ':' index s).bind readIpv4
      match embedded with
      | some ([a, b, c, d], rest) => ([a * 256 + b, c * 256 + d], true, rest)
      | _ =>
        match (readSeparator ':' index s).bind (readNumber 16 4 65536 true) with
        | none => ([], false, s)
        | some (group, rest) =>
            let (groups, v4, rest) := readGroups (index + 1) count rest
            (group :: groups, v4, rest)

/-- `read_ipv6_addr`. -/
def readIpv6 (s : Str) : Option (List Nat × Str) :=
  let (head, headV4, rest) := readGroups 0 8 s
  if head.length = 8 then some (head, rest)
  else if headV4 then none
  else match rest with
    | ':' :: ':' :: rest =>
        let (tail, _, rest) := readGroups 0 (8 - (head.length + 1)) rest
        some (head ++ List.replicate (8 - head.length - tail.length) 0 ++ tail, rest)
    | _ => none

/-- `str::parse::<IpAddr>`: the whole text must be read. -/
def parseIpAddr (s : Str) : Option IpAddr :=
  match readIpv4 s with
  | some (octets, rest) => if rest.isEmpty then some (.v4 octets) else none
  | none =>
    match readIpv6 s with
    | some (groups, rest) => if rest.isEmpty then some (.v6 groups) else none
    | none => none

/-- `IpAddr::is_loopback`. -/
def IpAddr.isLoopback : IpAddr → Bool
  | .v4 octets => octets.head? == some 127
  | .v6 groups => groups == [0, 0, 0, 0, 0, 0, 0, 1]

example : parseIpAddr "::1".toList = some (.v6 [0, 0, 0, 0, 0, 0, 0, 1]) := by decide

example : parseIpAddr "127.0.0.01".toList = none := by decide

/-! ## Host patterns -/

/-- `HostPattern`, `Exact` and `Suffix`. -/
inductive HostPattern where
  | exact (host : Str)
  | suffix (suffix : Str)
  deriving DecidableEq, Repr

/-- `valid_hostname`. -/
def validHostname (value : Str) : Bool :=
  (value.splitOn '.').all fun label =>
    !label.isEmpty && label.length ≤ 63 && label.head? != some '-' &&
      label.getLast? != some '-' &&
      label.all fun c => Str.isAsciiAlphanumeric c || c == '-' || c == '_'

/-- `HostPattern::compile`. -/
def HostPattern.compile (value : Str) : Except String HostPattern :=
  let value := Str.toAsciiLowercase (Str.trimEndMatches (· == '.') (Str.trim value))
  if value.isEmpty || 253 < Str.len value || !Str.isAscii value then
    .error "Destination host rules must be non-empty ASCII names up to 253 characters."
  else match Str.stripPrefix "*.".toList value with
    | some tail =>
        if tail.isEmpty || tail.contains '*' || !validHostname tail then
          .error "Host wildcards must use the form *.example.com."
        else .ok (.suffix tail)
    | none =>
        if value.contains '*' then .error "Host wildcards must use the form *.example.com."
        else
          let unbracketed :=
            ((Str.stripPrefix ['['] value).bind (Str.stripSuffix [']'])).getD value
          if (parseIpAddr unbracketed).isNone && !validHostname unbracketed then
            .error "Host rules must be DNS names or IP addresses without a port or URL scheme."
          else .ok (.exact unbracketed)

/-- `HostPattern::matches`. -/
def HostPattern.matches : HostPattern → Str → Bool
  | .exact expected, host => host == expected
  | .suffix tail, host =>
      tail.length < host.length && tail.isSuffixOf host &&
        host[host.length - tail.length - 1]? == some '.'

/-- `HostPattern::overlaps`. -/
def HostPattern.overlaps : HostPattern → HostPattern → Bool
  | .exact left, .exact right => left == right
  | .exact host, .suffix tail => (HostPattern.suffix tail).matches host
  | .suffix tail, .exact host => (HostPattern.suffix tail).matches host
  | .suffix left, .suffix right =>
      left == right || ('.' :: right).isSuffixOf left || ('.' :: left).isSuffixOf right

/-! ## Destination classes -/

structure DestinationClassifier where
  development : List HostPattern
  production : List HostPattern
  deriving DecidableEq, Repr

/-- `DestinationClassifier::default`. -/
def DestinationClassifier.default : DestinationClassifier where
  development := []
  production := []

/-- `DestinationClassifier::compile`. -/
def DestinationClassifier.compile (development production : List Str) :
    Except String DestinationClassifier := do
  if 128 < development.length || 128 < production.length then
    throw "At most 128 Development and 128 Production host rules are allowed."
  let development ← development.mapM HostPattern.compile
  let production ← production.mapM HostPattern.compile
  if development.any fun dev => production.any fun prod => dev.overlaps prod then
    throw "Development and Production host rules overlap; classification must be unambiguous."
  return { development, production }

/-- The host text `classify` compares. -/
def classifiedHost (host : Str) : Str :=
  Str.toAsciiLowercase (Str.trimEndMatches (· == '.') (trimBrackets (Str.trim host)))

/-- `DestinationClassifier::classify`. -/
def DestinationClassifier.classify (classifier : DestinationClassifier) (host : Str) :
    DestinationClass :=
  let host := classifiedHost host
  if classifier.production.any fun pattern => pattern.matches host then .production
  else if classifier.development.any (fun pattern => pattern.matches host) ||
      host == "localhost".toList ||
      ((parseIpAddr host).map IpAddr.isLoopback).getD false then .development
  else .unknown

/-! ## The host that is classified is the host that is dialled -/

theorem Str.trimStartMatches_eq_self {p : Char → Bool} {s : Str}
    (h : ∀ c ∈ s.head?, p c = false) : Str.trimStartMatches p s = s := by
  cases s with
  | nil => rfl
  | cons c s =>
      have hc : p c = false := h c rfl
      simp [Str.trimStartMatches, hc]

theorem Str.trimEndMatches_eq_self {p : Char → Bool} {s : Str}
    (h : ∀ c ∈ s.getLast?, p c = false) : Str.trimEndMatches p s = s := by
  have hrev : s.reverse.dropWhile p = s.reverse :=
    Str.trimStartMatches_eq_self (s := s.reverse) (by rwa [List.head?_reverse])
  rw [Str.trimEndMatches, hrev, List.reverse_reverse]

/-- White space is not trimmed from a text without any. -/
theorem Str.trim_eq_self {s : Str} (h : ∀ c ∈ s, Str.isWhitespace c = false) :
    Str.trim s = s := by
  rw [Str.trim, Str.trimStartMatches_eq_self fun c hc => h c (List.mem_of_mem_head? hc),
    Str.trimEndMatches_eq_self fun c hc => h c (List.mem_of_mem_getLast? hc)]

theorem head?_dropWhile {p : Char → Bool} (s : Str) :
    ∀ c ∈ (s.dropWhile p).head?, p c = false := by
  intro c hc
  have := List.head?_dropWhile_not p s
  rw [Option.mem_def] at hc
  rw [hc] at this
  simpa using this

/-- What trimming at the end leaves is a prefix. -/
theorem trimEndMatches_isPrefix (p : Char → Bool) (s : Str) : Str.trimEndMatches p s <+: s := by
  rw [Str.trimEndMatches, ← List.reverse_suffix, List.reverse_reverse]
  exact List.dropWhile_suffix p

/-- Brackets trimmed once are trimmed. -/
theorem trimBrackets_idem (host : Str) : trimBrackets (trimBrackets host) = trimBrackets host := by
  have hstart : ∀ c ∈ (trimBrackets host).head?, (c == '[') = false := by
    intro c hc
    obtain ⟨rest, hrest⟩ := trimEndMatches_isPrefix (· == ']') (Str.trimStartMatches (· == '[') host)
    refine head?_dropWhile (p := (· == '[')) host c ?_
    rw [Option.mem_def] at hc ⊢
    show (Str.trimStartMatches (· == '[') host).head? = some c
    rw [← hrest]
    exact List.head?_append_of_ne_nil _ (by
      intro hnil
      rw [trimBrackets, hnil] at hc
      cases hc) |>.trans hc
  have hend : ∀ c ∈ (trimBrackets host).getLast?, (c == ']') = false := by
    intro c hc
    rw [trimBrackets, Str.trimEndMatches, List.getLast?_reverse] at hc
    exact head?_dropWhile _ c hc
  conv_lhs => rw [trimBrackets]
  rw [Str.trimStartMatches_eq_self hstart, Str.trimEndMatches_eq_self hend]

/-- No character of an authority is white space. -/
theorem isWhitespace_of_isAuthorityChar {c : Char} (h : isAuthorityChar c = true) :
    Str.isWhitespace c = false := by
  rw [isAuthorityChar, Bool.or_eq_true] at h
  rcases h with h | h
  · simp only [Str.isAsciiAlphanumeric, Bool.or_eq_true, Bool.and_eq_true, decide_eq_true_eq,
      Char.le_def, UInt32.le_iff_toNat_le] at h
    simp only [Str.isWhitespace, Char.toNat]
    simp at h ⊢
    omega
  · have hall : "-._~!$&'()*+,;=:@%[]".toList.all (fun x => !Str.isWhitespace x) = true := by decide
    rw [List.contains_iff_mem] at h
    simpa only [Bool.not_eq_true'] using List.all_eq_true.mp hall c h

/-- The pieces of a text split hold characters of that text. -/
theorem mem_of_mem_splitOn {sep c : Char} {piece : Str} :
    ∀ {s : Str}, piece ∈ s.splitOn sep → c ∈ piece → c ∈ s := by
  intro s
  induction s generalizing piece with
  | nil =>
      intro hpiece hc
      rw [List.splitOn_nil, List.mem_singleton] at hpiece
      exact hpiece ▸ hc
  | cons x s ih =>
      intro hpiece hc
      rw [List.splitOn_cons_eq_if_modifyHead] at hpiece
      split at hpiece
      · rcases List.mem_cons.mp hpiece with rfl | hpiece
        · cases hc
        · exact List.mem_cons_of_mem _ (ih hpiece hc)
      · rcases hsplit : s.splitOn sep with _ | ⟨first, rest⟩
        · exact absurd hsplit (List.splitOn_ne_nil sep s)
        · rw [hsplit, List.modifyHead_cons] at hpiece
          rcases List.mem_cons.mp hpiece with rfl | hpiece
          · rcases List.mem_cons.mp hc with rfl | hc
            · exact List.mem_cons_self
            · exact List.mem_cons_of_mem _ (ih (hsplit ▸ List.mem_cons_self) hc)
          · exact List.mem_cons_of_mem _ (ih (hsplit ▸ List.mem_cons_of_mem _ hpiece) hc)

theorem Authority.mem_of_mem_hostPort {a : Authority} {c : Char} (h : c ∈ a.hostPort) :
    c ∈ a.text := by
  rw [Authority.hostPort] at h
  rcases hlast : (a.text.splitOn '@').getLast? with _ | piece
  · rw [hlast] at h
    cases h
  · rw [hlast] at h
    exact mem_of_mem_splitOn (List.mem_of_mem_getLast? hlast) h

/-- A host is made of characters of an authority. -/
theorem Authority.isAuthorityChar_of_mem_host {a : Authority} {c : Char} (h : c ∈ a.host) :
    isAuthorityChar c = true := by
  have htext : ∀ x ∈ a.hostPort, isAuthorityChar x = true := fun x hx =>
    List.all_eq_true.mp a.valid x (Authority.mem_of_mem_hostPort hx)
  rw [Authority.host] at h
  split at h
  next rest heq =>
    rw [heq] at htext
    rcases List.mem_cons.mp h with rfl | h
    · decide
    · rcases List.mem_append.mp h with h | h
      · exact htext c (List.mem_cons_of_mem _ ((List.takeWhile_prefix _).subset h))
      · rw [List.mem_singleton.mp h]
        decide
  next => exact htext c ((List.takeWhile_prefix _).subset h)

theorem Uri.isWhitespace_of_mem_host {uri : Uri} {c : Char} (h : c ∈ uri.host) :
    Str.isWhitespace c = false := by
  rcases hauth : uri.authority with _ | a
  · simp [Uri.host, hauth] at h
  · rw [Uri.host, hauth] at h
    exact isWhitespace_of_isAuthorityChar (Authority.isAuthorityChar_of_mem_host h)

theorem mem_of_mem_trimBrackets {host : Str} {c : Char} (h : c ∈ trimBrackets host) :
    c ∈ host :=
  (List.dropWhile_suffix _).subset ((trimEndMatches_isPrefix _ _).subset h)

/-- A host taken from a URI has the class of the host that is resolved and connected to. -/
theorem classify_trimBrackets (classifier : DestinationClassifier) (uri : Uri) :
    classifier.classify (trimBrackets uri.host) = classifier.classify uri.host := by
  have hhost : ∀ c ∈ uri.host, Str.isWhitespace c = false := fun _ =>
    Uri.isWhitespace_of_mem_host
  have hsame : classifiedHost (trimBrackets uri.host) = classifiedHost uri.host := by
    rw [classifiedHost, classifiedHost, Str.trim_eq_self hhost,
      Str.trim_eq_self fun c hc => hhost c (mem_of_mem_trimBrackets hc), trimBrackets_idem]
  rw [DestinationClassifier.classify, DestinationClassifier.classify, hsame]

end SippinSoda
