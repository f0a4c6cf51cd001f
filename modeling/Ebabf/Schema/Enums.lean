import Ebabf.Py.Text

/-!
# Enumerations of the event contract

Each enumeration is an inductive type, with the text the source stores for each member.
-/

namespace Ebabf

open Py (Str str)

inductive EventSource
  | process | network | file | user | inventory
deriving DecidableEq

def EventSource.value : EventSource → Str
  | .process => str "process"
  | .network => str "network"
  | .file => str "file"
  | .user => str "user"
  | .inventory => str "inventory"

def EventSource.all : List EventSource := [.process, .network, .file, .user, .inventory]

inductive VerdictType
  | verdict | suspicion | unverified
deriving DecidableEq

def VerdictType.value : VerdictType → Str
  | .verdict => str "verdict"
  | .suspicion => str "suspicion"
  | .unverified => str "unverified"

inductive RiskLevel
  | normal | low | medium | high | critical
deriving DecidableEq

def RiskLevel.value : RiskLevel → Str
  | .normal => str "normal"
  | .low => str "low"
  | .medium => str "medium"
  | .high => str "high"
  | .critical => str "critical"

def RiskLevel.all : List RiskLevel := [.normal, .low, .medium, .high, .critical]

inductive Decision
  | log | watchlist | logForReview
  | alert | alertUnverified | alertAndConfirm | urgentAlertAndConfirm
  | alertAndRateLimit | suspend | suspendAndConfirm | blockAndIsolate
deriving DecidableEq

namespace Decision

def value : Decision → Str
  | .log => str "log"
  | .watchlist => str "watchlist"
  | .logForReview => str "log_for_review"
  | .alert => str "alert"
  | .alertUnverified => str "alert_unverified"
  | .alertAndConfirm => str "alert_and_confirm"
  | .urgentAlertAndConfirm => str "urgent_alert_and_confirm"
  | .alertAndRateLimit => str "alert_and_rate_limit"
  | .suspend => str "suspend"
  | .suspendAndConfirm => str "suspend_and_confirm"
  | .blockAndIsolate => str "block_and_isolate"

def all : List Decision :=
  [.log, .watchlist, .logForReview, .alert, .alertUnverified, .alertAndConfirm,
    .urgentAlertAndConfirm, .alertAndRateLimit, .suspend, .suspendAndConfirm, .blockAndIsolate]

/-- Whether the enforcement engine is asked to act. -/
def requiresEnforcement : Decision → Bool
  | .alertAndRateLimit | .suspend | .suspendAndConfirm | .blockAndIsolate => true
  | _ => false

end Decision

inductive EnforcementBlockedReason
  | killSwitchActive | enforcementDisabled | noActionRequired | failOpen | notSupported
deriving DecidableEq

def EnforcementBlockedReason.value : EnforcementBlockedReason → Str
  | .killSwitchActive => str "kill_switch_active"
  | .enforcementDisabled => str "enforcement_disabled"
  | .noActionRequired => str "no_action_required"
  | .failOpen => str "fail_open"
  | .notSupported => str "not_supported"

def EnforcementBlockedReason.all : List EnforcementBlockedReason :=
  [.killSwitchActive, .enforcementDisabled, .noActionRequired, .failOpen, .notSupported]

end Ebabf
