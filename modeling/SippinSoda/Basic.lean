import Mathlib.Algebra.Ring.Nat
import Mathlib.Data.List.Basic

/-!
# Text and frames

A Rust `String` or `&str` is a sequence of Unicode scalar values; its `len()` counts the
bytes of its UTF-8 encoding. `Str` is that sequence, so that `trim`, `split` and suffix
tests evaluate in the kernel. Texts no function inspects (messages) stay `String`.

A body is transferred in frames (`http_body::Frame`).
-/

namespace SippinSoda

/-- A Rust string. -/
abbrev Str := List Char

namespace Str

/-- `str::len`: bytes of the UTF-8 encoding. -/
def len (s : Str) : Nat := (s.map Char.utf8Size).sum

/-- `char::is_whitespace`: the Unicode `White_Space` property. -/
def isWhitespace (c : Char) : Bool :=
  let n := c.toNat
  (9 ≤ n && n ≤ 13) || n == 0x20 || n == 0x85 || n == 0xA0 || n == 0x1680 ||
    (0x2000 ≤ n && n ≤ 0x200A) || n == 0x2028 || n == 0x2029 || n == 0x202F ||
    n == 0x205F || n == 0x3000

/-- `str::trim_start_matches` of a character class. -/
def trimStartMatches (p : Char → Bool) (s : Str) : Str := s.dropWhile p

/-- `str::trim_end_matches` of a character class. -/
def trimEndMatches (p : Char → Bool) (s : Str) : Str := (s.reverse.dropWhile p).reverse

/-- `str::trim`. -/
def trim (s : Str) : Str := trimEndMatches isWhitespace (trimStartMatches isWhitespace s)

/-- `char::to_ascii_lowercase`. -/
def lowerAscii (c : Char) : Char :=
  if 'A' ≤ c ∧ c ≤ 'Z' then Char.ofNat (c.toNat + 32) else c

/-- `str::to_ascii_lowercase`. -/
def toAsciiLowercase (s : Str) : Str := s.map lowerAscii

/-- `str::is_ascii`. -/
def isAscii (s : Str) : Bool := s.all fun c => c.toNat < 128

/-- `u8::is_ascii_alphanumeric`, on a character. -/
def isAsciiAlphanumeric (c : Char) : Bool :=
  ('0' ≤ c && c ≤ '9') || ('A' ≤ c && c ≤ 'Z') || ('a' ≤ c && c ≤ 'z')

/-- `str::strip_prefix`. -/
def stripPrefix (pre s : Str) : Option Str :=
  if pre.isPrefixOf s then some (s.drop pre.length) else none

/-- `str::strip_suffix`. -/
def stripSuffix (suf s : Str) : Option Str :=
  if suf.isSuffixOf s then some (s.take (s.length - suf.length)) else none

/-- The value of a run of decimal digits; `none` on any other character. -/
def digitsVal (s : Str) : Option Nat :=
  s.foldl (fun acc c => acc.bind fun n =>
    if '0' ≤ c ∧ c ≤ '9' then some (10 * n + (c.toNat - '0'.toNat)) else none) (some 0)

/-- `str::parse` to an unsigned integer below `bound`: an optional `+`, then decimal
digits. -/
def parseUnsigned (bound : Nat) (s : Str) : Option Nat :=
  let digits := match s with
    | '+' :: rest => rest
    | _ => s
  if digits.isEmpty then none else (digitsVal digits).filter (· < bound)

/-- `str::parse::<usize>`. -/
def parseUsize (s : Str) : Option Nat := parseUnsigned (2 ^ 64) s

end Str

/-! ## Frames -/

/-- An `http_body::Frame`: a data frame or trailers, which recording skips. -/
inductive Frame where
  | data (bytes : List UInt8)
  | trailers
  deriving DecidableEq, Repr

/-- `Frame::data_ref`, with no bytes for trailers. -/
def Frame.bytes : Frame → List UInt8
  | .data bytes => bytes
  | .trailers => []

/-! ## Computations that may fail -/

/-- A sequence succeeds when both of its parts do. -/
theorem Except.bind_eq_ok {ε α β : Type} {x : Except ε α} {f : α → Except ε β} {b : β} :
    x >>= f = .ok b ↔ ∃ a, x = .ok a ∧ f a = .ok b := by
  cases x with
  | error e => simp [bind, Except.bind]
  | ok a => simp [bind, Except.bind]

/-- A sequence fails when its first part does, or its second after that. -/
theorem Except.bind_eq_error {ε α β : Type} {x : Except ε α} {f : α → Except ε β} {e : ε} :
    x >>= f = .error e ↔ x = .error e ∨ ∃ a, x = .ok a ∧ f a = .error e := by
  cases x with
  | error e => simp [bind, Except.bind]
  | ok a => simp [bind, Except.bind]

end SippinSoda
