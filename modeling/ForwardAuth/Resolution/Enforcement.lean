import ForwardAuth.Identity
import ForwardAuth.Impersonation.Targets
import ForwardAuth.Resolution.Progress

/-!
# Enforcing impersonation

A caller who asks to act as someone else is put to the authority once for the user and once for each
group, in this order. The question is always about the caller as it came, also after the user has
been granted: one grant never helps to get the next. The first question that is not answered with
yes ends the matter, and then nothing that was granted before counts.

A granted user replaces the caller's name. Granted groups are added to the caller's groups.

## Main definitions

* `authorize`: Asks for one target.
* `enforce`: Asks for all targets of a request, and gives the identity to act as.
-/

namespace ForwardAuth

/-- The resource that an impersonation is of. -/
def Impersonation.Subject.resource : Impersonation.Subject → Review.Resource
  | user => .users
  | group => .groups

namespace Resolution

open Impersonation (Subject Targets)

variable {σ : Type}

/-- The question whether a caller may impersonate a user or a group. -/
def accessQuery (caller : Identity) (subject : Subject) (target : String) : Review.AccessQuery :=
  .impersonate caller.username caller.groups subject.resource target

/-- What the answer to an access review means for the caller. -/
def accessVerdict (caller : Identity) (subject : Subject) (target : String)
    (answer : Except Review.Error Bool) : Except Refusal Unit :=
  match answer with
  | .error error => throw (.backendUnavailable error.message)
  | .ok true => pure ()
  | .ok false => throw (.impersonationDenied subject caller.username target)

/-- Asks whether the caller may impersonate a user or a group, and refuses if not. -/
def authorize (authority : Authority σ) (caller : Identity) (subject : Subject) (target : String) :
    Resolving σ Unit := do
  let answer ← Resolving.reviewAccess authority (accessQuery caller subject target)
  .ofExcept (accessVerdict caller subject target answer)

/-- The identity that a caller acts as once all its targets are granted. -/
def assumed (caller : Identity) (targets : Targets) : Identity :=
  .of (targets.user.getD caller.username) (caller.groups ++ targets.groups)

/-- Asks for every target, and gives the identity to act as. Who asks for nothing stays who it
    is. -/
def enforce (authority : Authority σ) (caller : Identity) (targets : Targets) :
    Resolving σ Identity := do
  if targets.isEmpty then return caller
  targets.user.forM (authorize authority caller .user)
  targets.groups.forM (authorize authority caller .group)
  return assumed caller targets

end Resolution

end ForwardAuth
