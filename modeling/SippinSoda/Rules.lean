import SippinSoda.Host

/-!
# Response rules and breakpoint decisions

`ResponseRule`, `compile_replacement_body` and `BreakpointDecision` of `proxy.rs`: what may
be put in place of an upstream response, and when a configured rule applies.

* **compile** — a configuration is checked once, when the proxy starts;
* **matches** — the first rule in configured order that matches a request is applied;
* **decide** — what the user may answer to a paused response.
-/

namespace SippinSoda

/-! ## Replacement bodies -/

/-- The media type of a replacement body that names none. -/
def defaultContentType : HeaderValue := "text/plain; charset=utf-8".toList

/-- `compile_replacement_body`. -/
def compileReplacementBody (body contentType : Option Str) :
    Except String (Option (List UInt8 × HeaderValue)) :=
  match body with
  | none =>
      if contentType.isSome then
        .error "Content-Type can be replaced only with a replacement body."
      else .ok none
  | some body =>
      let contentType := contentType.getD defaultContentType
      let trimmed := Str.trim contentType
      if 64 * 1024 < Str.len body then
        .error "Replacement body must be at most 65536 UTF-8 bytes."
      else if trimmed.isEmpty || 128 < Str.len contentType ||
          contentType.any (fun c => c == '\r' || c == '\n') then
        .error "Replacement Content-Type is invalid or longer than 128 bytes."
      else
        match HeaderValue.fromStr trimmed with
        | none => .error "Replacement Content-Type is invalid or longer than 128 bytes."
        | some value => .ok (some (utf8 body, value))

/-! ## Rules -/

structure ResponseRuleConfig where
  id : Str
  name : Str
  enabled : Bool
  host : Str
  pathPrefix : Str
  method : Option Str
  status : Nat
  body : Option Str
  contentType : Option Str
  deriving DecidableEq, Repr

/-- The statuses a rule may not set: they forbid a body. -/
def bodyForbidden (status : Nat) : Bool := status == 204 || status == 205 || status == 304

/-- A compiled rule. -/
structure ResponseRule where
  id : Str
  name : Str
  host : HostPattern
  pathPrefix : Str
  method : Option Str
  status : Nat
  body : Option (List UInt8)
  contentType : Option HeaderValue
  /-- A status of the four classes a response may have. -/
  statusAllowed : replacementStatus status = some status
  bodyAllowed : bodyForbidden status = false
  /-- A replacement body is always compiled with its media type. -/
  typed : body.isSome = contentType.isSome
  deriving DecidableEq

/-- The check of `config.id`, its uniqueness apart. -/
def safeRuleId (id : Str) : Bool :=
  !id.isEmpty && Str.len id ≤ 128 &&
    id.all fun c => Str.isAsciiAlphanumeric c || c == '-' || c == '_' || c == '.'

/-- The check of `config.method`. -/
def compileMethod : Option Str → Except String (Option Str)
  | none => .ok none
  | some method =>
      if method.isEmpty || 16 < Str.len method || !method.all (fun c => 'A' ≤ c && c ≤ 'Z') then
        .error "Response rule methods must be uppercase ASCII tokens."
      else .ok (some method)

/-- The closure of `compile_all`; `ids` are the ones inserted so far. -/
def ResponseRule.compile (ids : List Str) (config : ResponseRuleConfig) :
    Except String ResponseRule := do
  if !safeRuleId config.id || ids.contains config.id then
    throw "Response rule IDs must be unique safe identifiers up to 128 characters."
  let name := Str.trim config.name
  if name.isEmpty || 80 < Str.len name then
    throw "Response rule names must use 1-80 bytes."
  if config.pathPrefix.head? != some '/' || 1024 < Str.len config.pathPrefix then
    throw "Response rule path prefixes must begin with '/' and use at most 1024 bytes."
  let method ← compileMethod config.method
  if hstatus : replacementStatus config.status = some config.status then
    if hbody : bodyForbidden config.status = false then
      let replacement ← compileReplacementBody config.body config.contentType
      let host ← HostPattern.compile config.host
      return {
        id := config.id, name, host, pathPrefix := config.pathPrefix, method
        status := config.status
        body := replacement.map Prod.fst
        contentType := replacement.map Prod.snd
        statusAllowed := hstatus, bodyAllowed := hbody
        typed := by rw [Option.isSome_map, Option.isSome_map] }
    else throw "Response rules cannot use body-forbidden status 204, 205 or 304."
  else throw "Response rule status must be between 200 and 599."

/-- The enabled rules in order, up to the first error. -/
def ResponseRule.compileEnabled (ids : List Str) :
    List ResponseRuleConfig → Except String (List ResponseRule)
  | [] => .ok []
  | config :: configs => do
      let rule ← ResponseRule.compile ids config
      let rules ← ResponseRule.compileEnabled (config.id :: ids) configs
      return rule :: rules

/-- `ResponseRule::compile_all`. -/
def ResponseRule.compileAll (configs : List ResponseRuleConfig) :
    Except String (List ResponseRule) :=
  if 64 < configs.length then .error "At most 64 response rules are allowed."
  else ResponseRule.compileEnabled [] (configs.filter (·.enabled))

theorem ResponseRule.compileEnabled_order {configs : List ResponseRuleConfig} :
    ∀ {ids : List Str} {rules : List ResponseRule},
      ResponseRule.compileEnabled ids configs = .ok rules →
      List.Forall₂ (fun config rule => ∃ ids, ResponseRule.compile ids config = .ok rule) configs
        rules := by
  induction configs with
  | nil =>
      intro ids rules h
      cases h
      exact .nil
  | cons config configs ih =>
      intro ids rules h
      obtain ⟨rule, hrule, h⟩ := Except.bind_eq_ok.mp h
      obtain ⟨rest, hrest, h⟩ := Except.bind_eq_ok.mp h
      cases h
      exact .cons ⟨ids, hrule⟩ (ih hrest)

/-- The compiled rules are the enabled ones, in the order of the configuration. -/
theorem ResponseRule.compileAll_order {configs : List ResponseRuleConfig}
    {rules : List ResponseRule} (h : ResponseRule.compileAll configs = .ok rules) :
    List.Forall₂ (fun config rule => ∃ ids, ResponseRule.compile ids config = .ok rule)
      (configs.filter (·.enabled)) rules := by
  unfold ResponseRule.compileAll at h
  split at h
  · cases h
  · exact compileEnabled_order h

/-- `ResponseRule::matches`. -/
def ResponseRule.matches (rule : ResponseRule) (host path method : Str) : Bool :=
  rule.host.matches (Str.toAsciiLowercase host) && rule.pathPrefix.isPrefixOf path &&
    rule.method.all (· == method)

/-! ## Decisions -/

/-- The answer to a response breakpoint. -/
structure BreakpointDecision where
  status : Option Nat
  body : Option (List UInt8)
  contentType : Option HeaderValue
  deriving DecidableEq, Repr

/-- The checks of `resolve_response_breakpoint`. -/
def BreakpointDecision.compile (status : Option Nat) (body contentType : Option Str) :
    Except String BreakpointDecision := do
  let status ← match status with
    | none => .ok none
    | some value =>
        match replacementStatus value with
        | some value => .ok (some value)
        | none => .error "Replacement status must be between 200 and 599."
  let replacement ← compileReplacementBody body contentType
  return { status, body := replacement.map Prod.fst, contentType := replacement.map Prod.snd }

/-- Does the decision change the response? -/
def BreakpointDecision.modifies (decision : BreakpointDecision) : Bool :=
  decision.status.isSome || decision.body.isSome

end SippinSoda
