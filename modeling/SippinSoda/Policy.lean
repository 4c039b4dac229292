/-!
# Destination policy (`lib.rs`)

Which operations a destination class allows. Only observation is allowed everywhere; a
Production or an unclassified destination is read-only.
-/

namespace SippinSoda

inductive EnginePhase where
  | stopped
  | running
  deriving DecidableEq, Repr

inductive Action where
  | observe
  | inspectTls
  | replay
  | modify
  | injectFault
  deriving DecidableEq, Repr

inductive DestinationClass where
  | development
  | production
  | unknown
  deriving DecidableEq, Repr

inductive PolicyError where
  | productionReadOnly
  | destinationUnclassified
  deriving DecidableEq, Repr

/-- `authorize`. -/
def authorize (destination : DestinationClass) (action : Action) : Except PolicyError Unit :=
  if action = .observe then .ok ()
  else match destination with
    | .development => .ok ()
    | .production => .error .productionReadOnly
    | .unknown => .error .destinationUnclassified

/-- `authorize(..).is_ok()`. -/
def authorized (destination : DestinationClass) (action : Action) : Bool :=
  (authorize destination action).toBool

/-- An active operation is authorized for Development alone. -/
theorem authorized_iff {destination : DestinationClass} {action : Action}
    (h : action ≠ .observe) : authorized destination action = true ↔
      destination = .development := by
  cases destination <;> simp [authorized, authorize, h, Except.toBool]

end SippinSoda
