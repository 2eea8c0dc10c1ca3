import StratumApps.Lib.Transition
import StratumApps.Sv2.Extensions
import StratumApps.Sv2.Mining

open Sv2

namespace Pool

-- The extensions that the configuration of the pool names.
structure ExtensionsConfig where
  supportedExtensions : List UInt16
  requiredExtensions  : List UInt16

inductive ExtensionsError
  | clientDoesNotSupportRequiredExtensions (extensions : List UInt16)
  | invalidUnsupportedExtensionsSequence
  | invalidRequiredExtensionsSequence
  | invalidSupportedExtensionsSequence
  | unexpectedMessage
  deriving DecidableEq

-- The task of a downstream once the connection is set up, with what it has passed on to the manager
-- and what it has answered itself. An error ends it.
structure DownstreamTask where
  negotiatedExtensions : List UInt16
  error                : Option ExtensionsError
  forwarded            : List Mining
  sent                 : List Extensions

inductive DownstreamFrame
  | mining (m : Mining)
  | extensions (m : Extensions)
  | other
  deriving DecidableEq

namespace DownstreamTask

def start : DownstreamTask where
  negotiatedExtensions := []
  error                := none
  forwarded            := []
  sent                 := []

variable (cfg : ExtensionsConfig) (t : DownstreamTask)

def send (m : Extensions) : DownstreamTask :=
  { t with sent := t.sent ++ [m] }

def fail (e : ExtensionsError) : DownstreamTask :=
  { t with error := some e }

-- The longest sequence of the wire format.
def maxExtensions : ℕ := 65535

section Request

variable (msg : RequestExtensions)

def supported : List UInt16 :=
  msg.requestedExtensions.filter (cfg.supportedExtensions.contains ·)

def unsupported : List UInt16 :=
  msg.requestedExtensions.filter (!cfg.supportedExtensions.contains ·)

def missingRequired : List UInt16 :=
  cfg.requiredExtensions.filter (!msg.requestedExtensions.contains ·)

-- A client that does not ask for all required extensions is told which ones, and cut off.
def refuse : DownstreamTask :=
  if (unsupported cfg msg).length > maxExtensions then
    t.fail .invalidUnsupportedExtensionsSequence
  else if (missingRequired cfg msg).length > maxExtensions then
    t.fail .invalidRequiredExtensionsSequence
  else
    let t := t.send <| .requestExtensionsError {
      requestId             := msg.requestId
      unsupportedExtensions := unsupported cfg msg
      requiredExtensions    := missingRequired cfg msg }
    if (missingRequired cfg msg).isEmpty then t
    else t.fail (.clientDoesNotSupportRequiredExtensions (missingRequired cfg msg))

-- The extensions are stored before they are sent.
def accept : DownstreamTask :=
  let t := { t with negotiatedExtensions := supported cfg msg }
  if (supported cfg msg).length > maxExtensions then
    t.fail .invalidSupportedExtensionsSequence
  else
    t.send (.requestExtensionsSuccess ⟨msg.requestId, supported cfg msg⟩)

def handleRequestExtensions : DownstreamTask :=
  if (supported cfg msg).isEmpty || !(missingRequired cfg msg).isEmpty then
    t.refuse cfg msg
  else
    t.accept cfg msg

end Request

-- A mining message is passed on whatever has been negotiated.
def handleDownstreamMessage : DownstreamFrame → DownstreamTask
  | .mining m                         => { t with forwarded := t.forwarded ++ [m] }
  | .extensions (.requestExtensions m) => t.handleRequestExtensions cfg m
  | .extensions _                     => t.fail .unexpectedMessage
  | .other                            => t

def step (frame : DownstreamFrame) : Option DownstreamTask :=
  match t.error with
  | none   => some (t.handleDownstreamMessage cfg frame)
  | some _ => none

variable {cfg t} {msg : RequestExtensions}

theorem missingRequired_eq_nil :
    missingRequired cfg msg = [] ↔ ∀ x ∈ cfg.requiredExtensions, x ∈ msg.requestedExtensions := by
  simp [missingRequired, List.filter_eq_nil_iff]

theorem mem_supported {x : UInt16} :
    x ∈ supported cfg msg ↔ x ∈ msg.requestedExtensions ∧ x ∈ cfg.supportedExtensions := by
  simp [supported]

theorem supported_eq (h : ∀ x ∈ msg.requestedExtensions, x ∈ cfg.supportedExtensions) :
    supported cfg msg = msg.requestedExtensions := by
  simpa [supported, List.filter_eq_self] using h

theorem unsupported_eq_nil (h : ∀ x ∈ msg.requestedExtensions, x ∈ cfg.supportedExtensions) :
    unsupported cfg msg = [] := by
  simpa [unsupported, List.filter_eq_nil_iff] using h

-- A request for extensions that the pool supports, and among them all that it requires.
theorem handleRequestExtensions_eq_accept (hs : supported cfg msg ≠ [])
    (hm : missingRequired cfg msg = []) :
    t.handleRequestExtensions cfg msg = t.accept cfg msg := by
  simp [handleRequestExtensions, hs, hm]

theorem handleRequestExtensions_eq_refuse (hm : missingRequired cfg msg ≠ []) :
    t.handleRequestExtensions cfg msg = t.refuse cfg msg := by
  simp [handleRequestExtensions, hm]

theorem accept_negotiatedExtensions :
    (t.accept cfg msg).negotiatedExtensions = supported cfg msg := by
  rw [accept]
  split <;> rfl

theorem refuse_negotiatedExtensions :
    (t.refuse cfg msg).negotiatedExtensions = t.negotiatedExtensions := by
  rw [refuse]
  split
  · rfl
  · split
    · rfl
    · dsimp only
      split <;> rfl

theorem refuse_error (hm : missingRequired cfg msg ≠ []) : (t.refuse cfg msg).error ≠ none := by
  rw [refuse]
  split
  · exact Option.some_ne_none _
  · split
    · exact Option.some_ne_none _
    · dsimp only
      rw [if_neg (by simpa using hm)]
      exact Option.some_ne_none _

theorem handleRequestExtensions_forwarded :
    (t.handleRequestExtensions cfg msg).forwarded = t.forwarded := by
  rw [handleRequestExtensions]
  split
  case isFalse =>
    rw [accept]
    split <;> rfl
  case isTrue =>
    rw [refuse]
    split
    · rfl
    · split
      · rfl
      · dsimp only
        split <;> rfl

end DownstreamTask

def downstreamMachine (cfg : ExtensionsConfig) : Machine DownstreamTask DownstreamFrame where
  Init t := t = .start
  step   := DownstreamTask.step cfg

end Pool
