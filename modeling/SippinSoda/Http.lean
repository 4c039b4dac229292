import SippinSoda.Basic
import Mathlib.Data.List.Forall2
import Mathlib.Data.List.TakeWhile

/-!
# HTTP messages

The parts of a message the proxy reads and rewrites: the URI as the `http` crate splits
it, the header map, and the functions of `proxy.rs` that clip a message for display
(`safe_target`, `safe_headers`) and strip its hop-by-hop headers.

A header map is the list of its fields in iteration order, names in lower case, the fields of one
name together. A header value is a sequence of bytes, each written as the character of that code.
-/

namespace SippinSoda

/-! ## Authorities and URIs -/

/-- A character the URI parser accepts in an authority. -/
def isAuthorityChar (c : Char) : Bool :=
  Str.isAsciiAlphanumeric c || "-._~!$&'()*+,;=:@%[]".toList.contains c

/-- `http::uri::Authority`: a text without white space or delimiters of the other parts. -/
structure Authority where
  text : Str
  valid : text.all isAuthorityChar = true
  deriving DecidableEq

/-- The authority after its user information. -/
def Authority.hostPort (a : Authority) : Str := (a.text.splitOn '@').getLast?.getD []

/-- `Authority::host`: up to the closing bracket of an IP literal, or up to the port. -/
def Authority.host (a : Authority) : Str :=
  match a.hostPort with
  | '[' :: rest => '[' :: rest.takeWhile (· ≠ ']') ++ [']']
  | hostPort => hostPort.takeWhile (· ≠ ':')

/-- `Authority::port_u16`: what follows the last colon, `str::parse::<u16>`. -/
def Authority.port (a : Authority) : Option Nat :=
  if a.text.contains ':' then
    Str.parseUnsigned (2 ^ 16) ((a.text.splitOn ':').getLast?.getD [])
  else none

/-- `hyper::Uri`, `path` being what `uri.path()` returns. -/
structure Uri where
  scheme : Option Str
  authority : Option Authority
  path : Str
  query : Option Str
  deriving DecidableEq

/-- `uri.host().unwrap_or("")`. -/
def Uri.host (uri : Uri) : Str := (uri.authority.map Authority.host).getD []

/-- `uri.path_and_query()` as a text; a target that is only an authority has none. -/
def Uri.pathAndQuery (uri : Uri) : Option Str :=
  if uri.scheme.isSome || uri.authority.isNone then
    some (uri.path ++ (uri.query.map ('?' :: ·)).getD [])
  else none

/-- `host.trim_start_matches('[').trim_end_matches(']')`. -/
def trimBrackets (host : Str) : Str :=
  Str.trimEndMatches (· == ']') (Str.trimStartMatches (· == '[') host)

/-! ## Headers -/

abbrev HeaderValue := Str

abbrev HeaderMap := List (Str × HeaderValue)

/-- A byte `HeaderValue::to_str` accepts. -/
def isVisibleAscii (c : Char) : Bool := (32 ≤ c.toNat && c.toNat < 127) || c == '\t'

/-- `HeaderValue::to_str`. -/
def HeaderValue.toStr (value : HeaderValue) : Option Str :=
  if value.all isVisibleAscii then some value else none

/-- The bytes of a text. -/
def utf8 (text : Str) : List UInt8 := text.flatMap String.utf8EncodeChar

/-- A byte `HeaderValue::from_str` accepts: any but the control characters, of these the tab. -/
def isHeaderByte (b : UInt8) : Bool := (32 ≤ b && b != 127) || b == 9

/-- `HeaderValue::from_str`. -/
def HeaderValue.fromStr (text : Str) : Option HeaderValue :=
  if (utf8 text).all isHeaderByte then some ((utf8 text).map fun b => Char.ofNat b.toNat) else none

namespace HeaderMap

/-- `HeaderMap::get_all`. -/
def getAll (headers : HeaderMap) (name : Str) : List HeaderValue :=
  (headers.filter fun h => h.1 == name).map Prod.snd

/-- `HeaderMap::get`: the first value. -/
def get (headers : HeaderMap) (name : Str) : Option HeaderValue :=
  (headers.find? fun h => h.1 == name).map Prod.snd

def containsKey (headers : HeaderMap) (name : Str) : Bool :=
  headers.any fun h => h.1 == name

/-- `HeaderMap::remove`; the name given is compared in lower case. The fields of the last name take
the place of the removed ones (`swap_remove`). -/
def remove (headers : HeaderMap) (name : Str) : HeaderMap :=
  let name := Str.toAsciiLowercase name
  if headers.containsKey name then
    let last := (headers.getLast?.map Prod.fst).getD name
    let others := fun fields : HeaderMap => fields.filter fun h => !(h.1 == name || h.1 == last)
    others (headers.takeWhile fun h => !(h.1 == name)) ++
      (headers.filter fun h => h.1 == last && !(h.1 == name)) ++
      others (headers.dropWhile fun h => !(h.1 == name))
  else headers

/-- `HeaderMap::insert`: in place of the first value of that name, dropping the others. -/
def insert (headers : HeaderMap) (name : Str) (value : HeaderValue) : HeaderMap :=
  if headers.containsKey name then
    let before := headers.takeWhile fun h => !(h.1 == name)
    let after := (headers.dropWhile fun h => !(h.1 == name)).filter fun h => !(h.1 == name)
    before ++ (name, value) :: after
  else headers ++ [(name, value)]

theorem getAll_append (headers headers' : HeaderMap) (name : Str) :
    getAll (headers ++ headers') name = getAll headers name ++ getAll headers' name := by
  simp [getAll]

theorem getAll_cons (field : Str × HeaderValue) (headers : HeaderMap) (name : Str) :
    getAll (field :: headers) name =
      if field.1 = name then field.2 :: getAll headers name else getAll headers name := by
  by_cases h : field.1 = name <;> simp [getAll, h]

theorem getAll_eq_nil {headers : HeaderMap} {name : Str} (h : ∀ field ∈ headers, field.1 ≠ name) :
    getAll headers name = [] := by
  simp only [getAll, List.map_eq_nil_iff, List.filter_eq_nil_iff, beq_iff_eq]
  exact h

/-- An inserted value is the only one of its name. -/
theorem getAll_insert_self (headers : HeaderMap) (name : Str) (value : HeaderValue) :
    getAll (insert headers name value) name = [value] := by
  unfold insert
  split
  · have hbefore : getAll (headers.takeWhile fun h => !(h.1 == name)) name = [] :=
      getAll_eq_nil fun field hfield => by simpa using List.mem_takeWhile_imp hfield
    have hafter : getAll ((headers.dropWhile fun h => !(h.1 == name)).filter
        fun h => !(h.1 == name)) name = [] :=
      getAll_eq_nil fun field hfield => by simpa using (List.mem_filter.mp hfield).2
    rw [getAll_append, hbefore, getAll_cons, if_pos rfl, hafter]
    rfl
  next hnone =>
    have hnone : ∀ field ∈ headers, field.1 ≠ name := fun field hfield heq =>
      hnone (List.any_eq_true.mpr ⟨field, hfield, by simpa using heq⟩)
    rw [getAll_append, getAll_eq_nil hnone, getAll_cons, if_pos rfl]
    rfl

/-- The values of another name are left alone. -/
theorem getAll_insert_of_ne {name other : Str} (h : name ≠ other) (headers : HeaderMap)
    (value : HeaderValue) : getAll (insert headers name value) other = getAll headers other := by
  have hskip : ∀ fields : HeaderMap,
      getAll (fields.filter fun field => !(field.1 == name)) other = getAll fields other := by
    intro fields
    simp only [getAll, List.filter_filter]
    congr 2
    funext field
    by_cases hfield : field.1 = other
    · simp [hfield, Ne.symm h]
    · simp [hfield]
  unfold insert
  split
  · rw [getAll_append, getAll_cons, if_neg h, hskip, ← getAll_append, List.takeWhile_append_dropWhile]
  · rw [getAll_append, getAll_cons, if_neg h]
    simp [getAll]

/-- The values of a name that a filter lets through. -/
theorem getAll_filter {p : Str × HeaderValue → Bool} {headers : HeaderMap} {name : Str}
    (h : ∀ value, p (name, value) = true) : getAll (headers.filter p) name = getAll headers name := by
  unfold getAll
  rw [List.filter_filter]
  congr 1
  apply List.filter_congr
  intro field _
  by_cases hname : field.1 = name
  · subst hname
    have hp : p field = true := h field.2
    rw [hp, Bool.and_true]
  · simp [hname]

theorem mem_iff_mem_getAll {headers : HeaderMap} {field : Str × HeaderValue} :
    field ∈ headers ↔ field.2 ∈ getAll headers field.1 := by
  unfold getAll
  rw [List.mem_map]
  constructor
  · exact fun h => ⟨field, List.mem_filter.mpr ⟨h, beq_self_eq_true _⟩, rfl⟩
  · rintro ⟨other, hother, hvalue⟩
    obtain ⟨hmem, hname⟩ := List.mem_filter.mp hother
    rwa [← Prod.ext (beq_iff_eq.mp hname) hvalue]

theorem containsKey_eq_false {headers : HeaderMap} {name : Str} :
    headers.containsKey name = false ↔ ∀ field ∈ headers, field.1 ≠ name := by
  simp [containsKey]

theorem containsKey_iff {headers : HeaderMap} {name : Str} :
    headers.containsKey name = true ↔ ∃ field ∈ headers, field.1 = name := by
  simp [containsKey]

/-- What is left are the fields of the other names. -/
theorem mem_remove {headers : HeaderMap} {name : Str} {field : Str × HeaderValue} :
    field ∈ remove headers name ↔ field ∈ headers ∧ field.1 ≠ Str.toAsciiLowercase name := by
  unfold remove
  dsimp only
  generalize Str.toAsciiLowercase name = name
  split
  · generalize (headers.getLast?.map Prod.fst).getD name = last
    have hparts : field ∈ headers ↔ field ∈ headers.takeWhile (fun h => !(h.1 == name)) ∨
        field ∈ headers.dropWhile (fun h => !(h.1 == name)) := by
      rw [← List.mem_append, List.takeWhile_append_dropWhile]
    by_cases hlast : field.1 = last
    · simp [hlast]
    · simp only [List.mem_append, List.mem_filter, hparts]
      simp [hlast]
      tauto
  next hnone =>
    rw [Bool.not_eq_true, containsKey_eq_false] at hnone
    exact (and_iff_left_of_imp fun h => hnone field h).symm

/-- Removing a name keeps the values of the others, in order. -/
theorem getAll_remove (headers : HeaderMap) (name other : Str) :
    getAll (remove headers name) other =
      if other = Str.toAsciiLowercase name then [] else getAll headers other := by
  by_cases h : other = Str.toAsciiLowercase name
  · rw [if_pos h]
    exact getAll_eq_nil fun field hfield heq => (mem_remove.mp hfield).2 (heq.trans h)
  rw [if_neg h]
  unfold remove
  dsimp only
  generalize Str.toAsciiLowercase name = name at h
  split
  · generalize (headers.getLast?.map Prod.fst).getD name = last
    by_cases hlast : other = last
    · subst hlast
      have hothers (fields : HeaderMap) :
          getAll (fields.filter fun h => !(h.1 == name || h.1 == other)) other = [] :=
        getAll_eq_nil fun field hfield heq => by simp [heq] at hfield
      rw [getAll_append, getAll_append, hothers, hothers, List.nil_append, List.append_nil]
      exact getAll_filter fun value => by simp [h]
    · have hothers (fields : HeaderMap) :
          getAll (fields.filter fun h => !(h.1 == name || h.1 == last)) other =
            getAll fields other :=
        getAll_filter fun value => by simp [h, hlast]
      have hmoved : getAll (headers.filter fun h => h.1 == last && !(h.1 == name)) other = [] :=
        getAll_eq_nil fun field hfield heq => by simp [heq, hlast] at hfield
      rw [getAll_append, getAll_append, hothers, hothers, hmoved, List.append_nil, ← getAll_append,
        List.takeWhile_append_dropWhile]
  · rfl

theorem remove_of_not_contains {headers : HeaderMap} {name : Str}
    (h : ∀ field ∈ headers, field.1 ≠ Str.toAsciiLowercase name) : remove headers name = headers := by
  unfold remove
  exact if_neg (by rw [containsKey_eq_false.mpr h]; exact Bool.false_ne_true)

theorem get_eq_head? (headers : HeaderMap) (name : Str) :
    get headers name = (getAll headers name).head? := by
  unfold get getAll
  rw [List.head?_map, List.head?_filter]

theorem get_remove_of_ne {headers : HeaderMap} {name other : Str}
    (h : Str.toAsciiLowercase name ≠ other) : get (remove headers name) other = get headers other := by
  rw [get_eq_head?, get_eq_head?, getAll_remove, if_neg h.symm]

/-- Removing adds no field. -/
theorem foldl_remove_subset (names : List Str) :
    ∀ headers : HeaderMap, ∀ field ∈ names.foldl remove headers, field ∈ headers := by
  induction names with
  | nil => exact fun headers field h => h
  | cons n names ih =>
      intro headers field hfield
      exact (mem_remove.mp (ih (remove headers n) field hfield)).1

/-- No field of a removed name is left. -/
theorem not_mem_foldl_remove {names : List Str} {name : Str} (h : name ∈ names)
    (hlower : Str.toAsciiLowercase name = name) :
    ∀ headers : HeaderMap, ∀ field ∈ names.foldl remove headers, field.1 ≠ name := by
  induction names with
  | nil => cases h
  | cons n names ih =>
      intro headers field hfield
      rcases List.mem_cons.mp h with rfl | h
      · have hmem := foldl_remove_subset names (remove headers name) field hfield
        exact hlower ▸ (mem_remove.mp hmem).2
      · exact ih h _ field hfield

/-- A name that is not there has no value. -/
theorem get_eq_none {headers : HeaderMap} {name : Str} (h : ∀ field ∈ headers, field.1 ≠ name) :
    get headers name = none := by
  rw [get, Option.map_eq_none_iff, List.find?_eq_none]
  intro field hfield
  simpa using h field hfield

end HeaderMap

/-! ## Maps of the same names -/

theorem forall₂_takeWhile {α : Type} {R : α → α → Prop} {p : α → Bool}
    (hp : ∀ a b, R a b → p a = p b) {l l' : List α} (h : List.Forall₂ R l l') :
    List.Forall₂ R (l.takeWhile p) (l'.takeWhile p) := by
  induction h with
  | nil => exact .nil
  | @cons a b l l' hab _ ih =>
      rw [List.takeWhile_cons, List.takeWhile_cons, ← hp a b hab]
      by_cases ha : p a = true
      · rw [if_pos ha, if_pos ha]
        exact .cons hab ih
      · rw [if_neg ha, if_neg ha]
        exact .nil

theorem forall₂_dropWhile {α : Type} {R : α → α → Prop} {p : α → Bool}
    (hp : ∀ a b, R a b → p a = p b) {l l' : List α} (h : List.Forall₂ R l l') :
    List.Forall₂ R (l.dropWhile p) (l'.dropWhile p) := by
  induction h with
  | nil => exact .nil
  | @cons a b l l' hab htail ih =>
      rw [List.dropWhile_cons, List.dropWhile_cons, ← hp a b hab]
      by_cases ha : p a = true
      · rw [if_pos ha, if_pos ha]
        exact ih
      · rw [if_neg ha, if_neg ha]
        exact .cons hab htail

theorem forall₂_filter {α : Type} {R : α → α → Prop} {p : α → Bool}
    (hp : ∀ a b, R a b → p a = p b) {l l' : List α} (h : List.Forall₂ R l l') :
    List.Forall₂ R (l.filter p) (l'.filter p) := by
  refine List.rel_filter (fun a b hab => ?_) h
  show p a = true ↔ p b = true
  rw [hp a b hab]

section SameNames

variable {R : Str × HeaderValue → Str × HeaderValue → Prop} (hR : ∀ f g, R f g → f.1 = g.1)
  {headers headers' : HeaderMap}

include hR

theorem HeaderMap.map_fst_eq (h : List.Forall₂ R headers headers') :
    headers.map Prod.fst = headers'.map Prod.fst := by
  induction h with
  | nil => rfl
  | @cons f g l l' hfg _ ih => rw [List.map_cons, List.map_cons, hR f g hfg, ih]

theorem HeaderMap.containsKey_eq (h : List.Forall₂ R headers headers') (name : Str) :
    headers.containsKey name = headers'.containsKey name := by
  have hany (l : HeaderMap) : l.containsKey name = (l.map Prod.fst).any (· == name) := by
    rw [List.any_map]
    rfl
  rw [hany, hany, HeaderMap.map_fst_eq hR h]

/-- Removals treat them alike: where a field stands depends on the names alone. -/
theorem HeaderMap.forall₂_remove (name : Str) (h : List.Forall₂ R headers headers') :
    List.Forall₂ R (headers.remove name) (headers'.remove name) := by
  have hlast : headers.getLast?.map Prod.fst = headers'.getLast?.map Prod.fst := by
    rw [← List.getLast?_map, ← List.getLast?_map, HeaderMap.map_fst_eq hR h]
  unfold HeaderMap.remove
  dsimp only
  rw [HeaderMap.containsKey_eq hR h, hlast]
  split
  · have hp (p : Str → Bool) : ∀ f g : Str × HeaderValue, R f g → p f.1 = p g.1 :=
      fun f g hfg => congrArg p (hR f g hfg)
    refine List.rel_append (List.rel_append ?_ ?_) ?_
    · exact forall₂_filter (hp fun n => !(n == _ || n == _))
        (forall₂_takeWhile (hp fun n => !(n == _)) h)
    · exact forall₂_filter (hp fun n => n == _ && !(n == _)) h
    · exact forall₂_filter (hp fun n => !(n == _ || n == _))
        (forall₂_dropWhile (hp fun n => !(n == _)) h)
  · exact h

theorem HeaderMap.forall₂_foldl_remove (names : List Str) :
    ∀ {headers headers' : HeaderMap}, List.Forall₂ R headers headers' →
      List.Forall₂ R (names.foldl HeaderMap.remove headers)
        (names.foldl HeaderMap.remove headers') := by
  induction names with
  | nil => exact fun h => h
  | cons name names ih => exact fun h => ih (HeaderMap.forall₂_remove hR name h)

theorem HeaderMap.forall₂_insert {name : Str} {value : HeaderValue}
    (hself : R (name, value) (name, value)) (h : List.Forall₂ R headers headers') :
    List.Forall₂ R (headers.insert name value) (headers'.insert name value) := by
  have hp : ∀ f g : Str × HeaderValue, R f g → (!(f.1 == name)) = !(g.1 == name) := by
    intro f g hfg
    rw [hR f g hfg]
  unfold HeaderMap.insert
  rw [HeaderMap.containsKey_eq hR h]
  split
  · exact List.rel_append (forall₂_takeWhile hp h)
      (.cons hself (forall₂_filter hp (forall₂_dropWhile hp h)))
  · exact List.rel_append h (.cons hself .nil)

end SameNames

/-- The values of a name whose values are the same. -/
theorem HeaderMap.getAll_of_forall₂ {R : Str × HeaderValue → Str × HeaderValue → Prop} {name : Str}
    (hR : ∀ f g, R f g → f.1 = g.1 ∧ (f.1 = name → f.2 = g.2)) {headers headers' : HeaderMap}
    (h : List.Forall₂ R headers headers') :
    HeaderMap.getAll headers name = HeaderMap.getAll headers' name := by
  induction h with
  | nil => rfl
  | @cons f g l l' hfg _ ih =>
      obtain ⟨hname, hvalue⟩ := hR f g hfg
      rw [HeaderMap.getAll_cons, HeaderMap.getAll_cons, ← hname, ih]
      by_cases hf : f.1 = name
      · rw [if_pos hf, if_pos hf, hvalue hf]
      · rw [if_neg hf, if_neg hf]

/-! ## Hop-by-hop headers -/

/-- The names every `strip_hop_headers` removes. -/
def hopHeaders : List Str :=
  ["connection", "proxy-connection", "keep-alive", "proxy-authenticate",
    "proxy-authorization", "te", "trailer", "transfer-encoding", "upgrade"].map String.toList

/-- The names the `Connection` values nominate. -/
def nominated (headers : HeaderMap) : List Str :=
  ((headers.getAll "connection".toList).filterMap HeaderValue.toStr).flatMap fun value =>
    (value.splitOn ',').map Str.trim

/-- `strip_hop_headers`. -/
def stripHopHeaders (headers : HeaderMap) : HeaderMap :=
  hopHeaders.foldl HeaderMap.remove ((nominated headers).foldl HeaderMap.remove headers)

/-! ## Messages -/

/-- A request as `handle` receives it. `bodyEnded` is `is_end_stream` of its body. -/
structure Request where
  method : Str
  uri : Uri
  headers : HeaderMap
  bodyEnded : Bool
  deriving DecidableEq

def Request.isConnect (request : Request) : Bool := request.method == "CONNECT".toList

/-- The body of a response: the one the upstream sends, or bytes the proxy has. -/
inductive Body where
  | upstream
  | full (bytes : List UInt8)
  deriving DecidableEq

structure Response where
  status : Nat
  headers : HeaderMap
  body : Body
  deriving DecidableEq

/-- `response(status, message)`. -/
def localResponse (status : Nat) (message : String) : Response where
  status := status
  headers := [("content-type".toList, "text/plain; charset=utf-8".toList)]
  body := .full (utf8 message.toList)

/-- `proxy_authentication_required()`. -/
def proxyAuthenticationRequired : Response where
  status := 407
  headers := [("content-type".toList, "text/plain; charset=utf-8".toList),
    ("proxy-authenticate".toList, "Basic realm=\"Sippin Soda\", charset=\"UTF-8\"".toList)]
  body := .full (utf8 "Valid proxy client credentials are required.".toList)

/-! ## What a capture shows of a message -/

/-- `clipped`. -/
def clipped (value : Str) (max : Nat) : Str := value.take max

/-- The text of a target with its query hidden. -/
def hiddenQuery (authority path : Str) (query : Option Str) : Str :=
  clipped authority 256 ++ clipped path 1024 ++
    if query.isSome then "?[REDACTED]".toList else []

/-- `safe_target`. -/
def safeTarget (request : Request) : Str :=
  let host := match request.uri.authority with
    | some authority => authority.hostPort
    | none => "invalid-target".toList
  if request.isConnect then clipped host 256
  else hiddenQuery host request.uri.path request.uri.query

/-- The headers whose values a capture shows. -/
def shownHeaders : List Str :=
  ["content-type", "content-length", "accept", "accept-encoding", "content-encoding",
    "cache-control", "connection", "transfer-encoding"].map String.toList

/-- `safe_headers`. -/
def safeHeaders (headers : HeaderMap) : List (Str × Str) :=
  (headers.take 48).map fun (name, value) =>
    (clipped name 128, if shownHeaders.contains name
      then clipped ((HeaderValue.toStr value).getD "[binary]".toList) 256
      else "[REDACTED]".toList)

/-! ## Classes of status -/

/-- `StatusCode::from_u16` filtered to success, redirection and the two error classes. -/
def replacementStatus (status : Nat) : Option Nat :=
  if 200 ≤ status ∧ status < 600 then some status else none

end SippinSoda
