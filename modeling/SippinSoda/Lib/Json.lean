import Mathlib.Data.List.Basic

/-!
# JSON texts

The grammar of RFC 8259 over the bytes of a text, with the depth to which a value nests arrays
and objects. Of a string only the delimiters and escapes matter, so any byte from `0x80` may stand
in one; whether these bytes are UTF-8 is another question.

* **Text** — white space, a value, white space;
* **Derives.padLeft**, **Derives.padRight** — more white space around an item is white space;
* **strip** — a text without the white space that lies outside its strings.
-/

namespace JsonSyntax

/-! ## Bytes -/

/-- `"` -/
abbrev quote : UInt8 := 0x22

/-- `\` -/
abbrev backslash : UInt8 := 0x5C

/-- `,` -/
abbrev comma : UInt8 := 0x2C

/-- `:` -/
abbrev colon : UInt8 := 0x3A

/-- The four bytes of insignificant white space. -/
def isSpace (b : UInt8) : Bool := b == 0x20 || b == 0x0A || b == 0x0D || b == 0x09

/-- The two kinds of brackets. -/
inductive Bracket where
  | array
  | object
  deriving DecidableEq, Repr

/-- `[` and `{`. -/
def Bracket.opening : Bracket → UInt8
  | .array => 0x5B
  | .object => 0x7B

/-- `]` and `}`. -/
def Bracket.closing : Bracket → UInt8
  | .array => 0x5D
  | .object => 0x7D

/-- Is the byte of no structure: no quote, bracket, comma, colon or white space? -/
def isPlain (b : UInt8) : Bool :=
  !isSpace b && b != quote && b != comma && b != colon && b != 0x5B && b != 0x5D && b != 0x7B &&
    b != 0x7D

def isDigit (b : UInt8) : Bool := 0x30 ≤ b && b ≤ 0x39

def isHex (b : UInt8) : Bool :=
  isDigit b || (0x41 ≤ b && b ≤ 0x46) || (0x61 ≤ b && b ≤ 0x66)

/-! ## Tokens -/

/-- Insignificant white space. -/
def Ws (bytes : List UInt8) : Prop := ∀ b ∈ bytes, isSpace b = true

def Digits (bytes : List UInt8) : Prop := bytes ≠ [] ∧ ∀ b ∈ bytes, isDigit b = true

/-- `0`, or digits of which the first is not `0`. -/
def Integer (bytes : List UInt8) : Prop :=
  bytes = [0x30] ∨ Digits bytes ∧ bytes.head? ≠ some 0x30

/-- Nothing, or a point and digits. -/
def Fraction (bytes : List UInt8) : Prop :=
  bytes = [] ∨ ∃ digits, bytes = 0x2E :: digits ∧ Digits digits

/-- Nothing, or `e` or `E`, a sign or none, and digits. -/
def Exponent (bytes : List UInt8) : Prop :=
  bytes = [] ∨ ∃ e sign digits, bytes = e :: (sign ++ digits) ∧ (e = 0x65 ∨ e = 0x45) ∧
    (sign = [] ∨ sign = [0x2B] ∨ sign = [0x2D]) ∧ Digits digits

def Number (bytes : List UInt8) : Prop :=
  ∃ sign integer fraction exponent, bytes = sign ++ integer ++ fraction ++ exponent ∧
    (sign = [] ∨ sign = [0x2D]) ∧ Integer integer ∧ Fraction fraction ∧ Exponent exponent

/-- `true`, `false`, `null` or a number. -/
def Scalar (bytes : List UInt8) : Prop :=
  bytes = [0x74, 0x72, 0x75, 0x65] ∨ bytes = [0x66, 0x61, 0x6C, 0x73, 0x65] ∨
    bytes = [0x6E, 0x75, 0x6C, 0x6C] ∨ Number bytes

/-- `"`, `\`, `/`, `b`, `f`, `n`, `r` and `t`, which stand alone after a backslash. -/
def isShortEscape (b : UInt8) : Bool :=
  b == quote || b == backslash || b == 0x2F || b == 0x62 || b == 0x66 || b == 0x6E || b == 0x72 ||
    b == 0x74

/-- A byte that stands for itself in a string: no control character, quote or backslash. -/
def isUnescaped (b : UInt8) : Bool := 0x20 ≤ b && b != quote && b != backslash

/-- What is between the quotes of a string. -/
inductive Characters : List UInt8 → Prop
  | nil : Characters []
  | unescaped {b : UInt8} {rest : List UInt8} (hb : isUnescaped b = true)
      (hrest : Characters rest) : Characters (b :: rest)
  | short {b : UInt8} {rest : List UInt8} (hb : isShortEscape b = true)
      (hrest : Characters rest) : Characters (backslash :: b :: rest)
  | unicode {hex rest : List UInt8} (hlength : hex.length = 4) (hhex : ∀ b ∈ hex, isHex b = true)
      (hrest : Characters rest) : Characters (backslash :: 0x75 :: (hex ++ rest))

/-- A string with its quotes. -/
def Quoted (bytes : List UInt8) : Prop :=
  ∃ characters, bytes = quote :: (characters ++ [quote]) ∧ Characters characters

/-! ## Values -/

/-- What the grammar derives: a value, an element or member with the white space around it, and
one or several of these between commas. -/
inductive Kind where
  | value
  | item (bracket : Bracket)
  | items (bracket : Bracket)

/-- The bytes of a kind whose brackets nest to a depth. -/
inductive Derives : Kind → Nat → List UInt8 → Prop
  | scalar {token : List UInt8} (h : Scalar token) : Derives .value 0 token
  | string {token : List UInt8} (h : Quoted token) : Derives .value 0 token
  | empty (bracket : Bracket) {space : List UInt8} (h : Ws space) :
      Derives .value 1 (bracket.opening :: (space ++ [bracket.closing]))
  | group {bracket : Bracket} {n : Nat} {body : List UInt8} (h : Derives (.items bracket) n body) :
      Derives .value (n + 1) (bracket.opening :: (body ++ [bracket.closing]))
  | element {n : Nat} {before value after : List UInt8} (hbefore : Ws before)
      (hvalue : Derives .value n value) (hafter : Ws after) :
      Derives (.item .array) n (before ++ value ++ after)
  | member {n : Nat} {before key mid rest : List UInt8} (hbefore : Ws before) (hkey : Quoted key)
      (hmid : Ws mid) (hrest : Derives (.item .array) n rest) :
      Derives (.item .object) n (before ++ key ++ mid ++ colon :: rest)
  | one {bracket : Bracket} {n : Nat} {item : List UInt8} (h : Derives (.item bracket) n item) :
      Derives (.items bracket) n item
  | more {bracket : Bracket} {m n : Nat} {item rest : List UInt8}
      (hitem : Derives (.item bracket) m item) (hrest : Derives (.items bracket) n rest) :
      Derives (.items bracket) (max m n) (item ++ comma :: rest)

/-- A text whose value nests to a depth. -/
abbrev Text (n : Nat) (bytes : List UInt8) : Prop := Derives (.item .array) n bytes

theorem Ws.append {a b : List UInt8} (ha : Ws a) (hb : Ws b) : Ws (a ++ b) := by
  intro c hc
  rcases List.mem_append.mp hc with h | h
  · exact ha c h
  · exact hb c h

/-- May there be more white space around it? -/
def Kind.Padded : Kind → Prop
  | .value => False
  | _ => True

theorem Derives.padLeft {kind : Kind} {n : Nat} {bytes space : List UInt8}
    (h : Derives kind n bytes) (hpadded : kind.Padded) (hspace : Ws space) :
    Derives kind n (space ++ bytes) := by
  induction h with
  | scalar | string | empty | group => exact hpadded.elim
  | element hbefore hvalue hafter =>
      rw [← List.append_assoc, ← List.append_assoc]
      exact .element (hspace.append hbefore) hvalue hafter
  | member hbefore hkey hmid hrest =>
      rw [← List.append_assoc, ← List.append_assoc, ← List.append_assoc]
      exact .member (hspace.append hbefore) hkey hmid hrest
  | one _ ih => exact .one (ih trivial)
  | more _ hrest ih =>
      rw [← List.append_assoc]
      exact .more (ih trivial) hrest

theorem Derives.padRight {kind : Kind} {n : Nat} {bytes space : List UInt8}
    (h : Derives kind n bytes) (hpadded : kind.Padded) (hspace : Ws space) :
    Derives kind n (bytes ++ space) := by
  induction h with
  | scalar | string | empty | group => exact hpadded.elim
  | element hbefore hvalue hafter =>
      rw [List.append_assoc]
      exact .element hbefore hvalue (hafter.append hspace)
  | member hbefore hkey hmid _ ih =>
      rw [List.append_assoc, List.cons_append]
      exact .member hbefore hkey hmid (ih trivial)
  | one _ ih => exact .one (ih trivial)
  | more hitem _ _ ih =>
      rw [List.append_assoc, List.cons_append]
      exact .more hitem (ih trivial)

/-! ## Plain tokens -/

/-- A byte that no structure is made of. -/
theorem isPlain_iff {b : UInt8} : isPlain b = true ↔
    isSpace b = false ∧ b ≠ quote ∧ b ≠ comma ∧ b ≠ colon ∧ b ≠ 0x5B ∧ b ≠ 0x5D ∧ b ≠ 0x7B ∧
      b ≠ 0x7D := by
  simp only [isPlain, Bool.and_eq_true, Bool.not_eq_true', bne_iff_ne, and_assoc]

/-- Every byte of a scalar is plain. -/
def Plain (bytes : List UInt8) : Prop := ∀ b ∈ bytes, isPlain b = true

theorem Plain.append {a b : List UInt8} (ha : Plain a) (hb : Plain b) : Plain (a ++ b) := by
  intro c hc
  rcases List.mem_append.mp hc with h | h
  · exact ha c h
  · exact hb c h

theorem Plain.cons {b : UInt8} {bytes : List UInt8} (hb : isPlain b = true) (h : Plain bytes) :
    Plain (b :: bytes) := by
  intro c hc
  rcases List.mem_cons.mp hc with rfl | hc
  · exact hb
  · exact h c hc

theorem Plain.nil : Plain [] := fun _ h => absurd h List.not_mem_nil

theorem Digits.plain {bytes : List UInt8} (h : Digits bytes) : Plain bytes := by
  intro b hb
  have hdigit := h.2 b hb
  have hspace : isSpace b = false := by
    cases hspace : isSpace b with
    | false => rfl
    | true =>
        simp only [isSpace, Bool.or_eq_true, beq_iff_eq] at hspace
        rcases hspace with ((rfl | rfl) | rfl) | rfl <;> exact absurd hdigit (by decide)
  refine isPlain_iff.mpr ⟨hspace, ?_⟩
  refine ⟨?_, ?_, ?_, ?_, ?_, ?_, ?_⟩ <;> rintro rfl <;> exact absurd hdigit (by decide)

theorem Number.plain {bytes : List UInt8} (h : Number bytes) : Plain bytes := by
  obtain ⟨sign, integer, fraction, exponent, rfl, hsign, hinteger, hfraction, hexponent⟩ := h
  have hsign : Plain sign := by
    rcases hsign with rfl | rfl
    · exact .nil
    · exact .cons (by decide) .nil
  have hinteger : Plain integer := by
    rcases hinteger with rfl | ⟨hdigits, -⟩
    · exact .cons (by decide) .nil
    · exact hdigits.plain
  have hfraction : Plain fraction := by
    rcases hfraction with rfl | ⟨digits, rfl, hdigits⟩
    · exact .nil
    · exact .cons (by decide) hdigits.plain
  have hexponent : Plain exponent := by
    rcases hexponent with rfl | ⟨e, sign, digits, rfl, he, hsign, hdigits⟩
    · exact .nil
    · have hsign : Plain sign := by
        rcases hsign with rfl | rfl | rfl
        · exact .nil
        · exact .cons (by decide) .nil
        · exact .cons (by decide) .nil
      refine .cons ?_ (hsign.append hdigits.plain)
      rcases he with rfl | rfl <;> decide
  exact ((hsign.append hinteger).append hfraction).append hexponent

theorem Scalar.plain {bytes : List UInt8} (h : Scalar bytes) : Plain bytes := by
  rcases h with rfl | rfl | rfl | hnumber
  · exact List.all_eq_true.mp rfl
  · exact List.all_eq_true.mp rfl
  · exact List.all_eq_true.mp rfl
  · exact hnumber.plain

/-! ## Folds that copy tokens -/

/-- A fold over bytes that keeps track of strings, and whose state tells what it has copied. -/
structure Copies {σ ε : Type} (f : σ → UInt8 → Except ε σ)
    (outside inside escaped : List UInt8 → σ) : Prop where
  plain : ∀ copied b, isPlain b = true → f (outside copied) b = .ok (outside (copied ++ [b]))
  space : ∀ copied b, isSpace b = true → f (outside copied) b = .ok (outside copied)
  opens : ∀ copied, f (outside copied) quote = .ok (inside (copied ++ [quote]))
  closes : ∀ copied, f (inside copied) quote = .ok (outside (copied ++ [quote]))
  unescaped : ∀ copied b, b ≠ quote → b ≠ backslash →
    f (inside copied) b = .ok (inside (copied ++ [b]))
  escape : ∀ copied, f (inside copied) backslash = .ok (escaped (copied ++ [backslash]))
  skip : ∀ copied b, f (escaped copied) b = .ok (inside (copied ++ [b]))

section Copies

variable {σ ε : Type} {f : σ → UInt8 → Except ε σ} {outside inside escaped : List UInt8 → σ}

theorem Copies.scalar (h : Copies f outside inside escaped) {token : List UInt8}
    (htoken : Plain token) (copied : List UInt8) :
    token.foldlM f (outside copied) = .ok (outside (copied ++ token)) := by
  induction token generalizing copied with
  | nil => rw [List.append_nil]; rfl
  | cons b token ih =>
      rw [List.foldlM_cons, h.plain copied b (htoken b List.mem_cons_self)]
      show token.foldlM f (outside (copied ++ [b])) = _
      rw [ih (fun c hc => htoken c (List.mem_cons_of_mem _ hc)), List.append_assoc]
      rfl

theorem Copies.ws (h : Copies f outside inside escaped) {space : List UInt8} (hspace : Ws space)
    (copied : List UInt8) : space.foldlM f (outside copied) = .ok (outside copied) := by
  induction space with
  | nil => rfl
  | cons b space ih =>
      rw [List.foldlM_cons, h.space copied b (hspace b List.mem_cons_self)]
      exact ih fun c hc => hspace c (List.mem_cons_of_mem _ hc)

theorem isHex_ne {b : UInt8} (h : isHex b = true) : b ≠ quote ∧ b ≠ backslash := by
  constructor <;> rintro rfl <;> exact absurd h (by decide)

theorem Copies.hex (h : Copies f outside inside escaped) {hex : List UInt8}
    (hhex : ∀ b ∈ hex, isHex b = true) (copied : List UInt8) :
    hex.foldlM f (inside copied) = .ok (inside (copied ++ hex)) := by
  induction hex generalizing copied with
  | nil => rw [List.append_nil]; rfl
  | cons b hex ih =>
      obtain ⟨hquote, hbackslash⟩ := isHex_ne (hhex b List.mem_cons_self)
      rw [List.foldlM_cons, h.unescaped copied b hquote hbackslash]
      show hex.foldlM f (inside (copied ++ [b])) = _
      rw [ih fun c hc => hhex c (List.mem_cons_of_mem _ hc), List.append_assoc]
      rfl

theorem Copies.characters (h : Copies f outside inside escaped) {bytes : List UInt8}
    (hbytes : Characters bytes) (copied : List UInt8) :
    bytes.foldlM f (inside copied) = .ok (inside (copied ++ bytes)) := by
  induction hbytes generalizing copied with
  | nil => rw [List.append_nil]; rfl
  | @unescaped b rest hb _ ih =>
      simp only [isUnescaped, Bool.and_eq_true, bne_iff_ne] at hb
      rw [List.foldlM_cons, h.unescaped copied b hb.1.2 hb.2]
      show rest.foldlM f (inside (copied ++ [b])) = _
      rw [ih, List.append_assoc]
      rfl
  | @short b rest hb _ ih =>
      rw [List.foldlM_cons, h.escape]
      show (b :: rest).foldlM f (escaped (copied ++ [backslash])) = _
      rw [List.foldlM_cons, h.skip]
      show rest.foldlM f (inside (copied ++ [backslash] ++ [b])) = _
      rw [ih, List.append_assoc, List.append_assoc]
      rfl
  | @unicode hex rest _ hhex _ ih =>
      rw [List.foldlM_cons, h.escape]
      show (0x75 :: (hex ++ rest)).foldlM f (escaped (copied ++ [backslash])) = _
      rw [List.foldlM_cons, h.skip]
      show (hex ++ rest).foldlM f (inside (copied ++ [backslash] ++ [0x75])) = _
      rw [List.foldlM_append, h.hex hhex]
      show rest.foldlM f (inside (copied ++ [backslash] ++ [0x75] ++ hex)) = _
      rw [ih]
      simp only [List.append_assoc, List.cons_append, List.nil_append]

theorem Copies.quoted (h : Copies f outside inside escaped) {token : List UInt8}
    (htoken : Quoted token) (copied : List UInt8) :
    token.foldlM f (outside copied) = .ok (outside (copied ++ token)) := by
  obtain ⟨characters, rfl, hcharacters⟩ := htoken
  rw [List.foldlM_cons, h.opens]
  show (characters ++ [quote]).foldlM f (inside (copied ++ [quote])) = _
  rw [List.foldlM_append, h.characters hcharacters]
  show [quote].foldlM f (inside (copied ++ [quote] ++ characters)) = _
  rw [List.foldlM_cons, h.closes, List.append_assoc, List.append_assoc]
  rfl

end Copies

/-! ## White space outside strings -/

/-- Where a byte stands. -/
inductive Lexical where
  | outside
  | string
  | escape
  deriving DecidableEq, Repr

/-- Where the next byte stands. -/
def Lexical.next : Lexical → UInt8 → Lexical
  | .outside, b => if b = quote then .string else .outside
  | .string, b => if b = backslash then .escape else if b = quote then .outside else .string
  | .escape, _ => .string

/-- The bytes without the white space that lies outside strings. -/
def strip : Lexical → List UInt8 → List UInt8
  | _, [] => []
  | q, b :: rest =>
    if q = .outside ∧ isSpace b = true then strip q rest else b :: strip (q.next b) rest

/-- Where the next byte stands after several. -/
def Lexical.after (q : Lexical) (bytes : List UInt8) : Lexical := bytes.foldl Lexical.next q

@[simp] theorem Lexical.after_nil (q : Lexical) : q.after [] = q := rfl

@[simp] theorem Lexical.after_cons (q : Lexical) (b : UInt8) (bytes : List UInt8) :
    q.after (b :: bytes) = (q.next b).after bytes := rfl

theorem Lexical.after_append (q : Lexical) (a b : List UInt8) :
    q.after (a ++ b) = (q.after a).after b := List.foldl_append

theorem isSpace_lt {b : UInt8} (h : isSpace b = true) : b.toNat < 0x80 := by
  simp only [isSpace, Bool.or_eq_true, beq_iff_eq] at h
  rcases h with ((rfl | rfl) | rfl) | rfl <;> decide

theorem next_of_isSpace {b : UInt8} (h : isSpace b = true) :
    Lexical.outside.next b = .outside := by
  simp only [isSpace, Bool.or_eq_true, beq_iff_eq] at h
  rcases h with ((rfl | rfl) | rfl) | rfl <;> rfl

theorem strip_cons_of_isSpace {b : UInt8} (h : isSpace b = true) (rest : List UInt8) :
    strip .outside (b :: rest) = strip .outside rest := by
  rw [strip, if_pos ⟨rfl, h⟩]

theorem strip_cons_of_not {q : Lexical} {b : UInt8} (h : ¬ (q = .outside ∧ isSpace b = true))
    (rest : List UInt8) : strip q (b :: rest) = b :: strip (q.next b) rest := by
  rw [strip, if_neg h]

theorem strip_append (q : Lexical) (a b : List UInt8) :
    strip q (a ++ b) = strip q a ++ strip (q.after a) b := by
  induction a generalizing q with
  | nil => rfl
  | cons c a ih =>
      rw [List.cons_append]
      by_cases h : q = .outside ∧ isSpace c = true
      · obtain ⟨rfl, hspace⟩ := h
        rw [strip_cons_of_isSpace hspace, strip_cons_of_isSpace hspace, ih, Lexical.after_cons,
          next_of_isSpace hspace]
      · rw [strip_cons_of_not h, strip_cons_of_not h, ih]
        rfl

/-- White space outside strings is stripped, and leads nowhere else. -/
theorem Ws.strip {space : List UInt8} (h : Ws space) :
    JsonSyntax.strip .outside space = [] ∧ Lexical.outside.after space = .outside := by
  induction space with
  | nil => exact ⟨rfl, rfl⟩
  | cons b space ih =>
      have hspace := h b List.mem_cons_self
      obtain ⟨hstrip, hafter⟩ := ih fun c hc => h c (List.mem_cons_of_mem _ hc)
      rw [strip_cons_of_isSpace hspace, Lexical.after_cons, next_of_isSpace hspace]
      exact ⟨hstrip, hafter⟩

end JsonSyntax
