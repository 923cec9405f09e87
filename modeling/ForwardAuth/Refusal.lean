import ForwardAuth.Http.Status

/-!
# Refusals

Why a request is given no identity. Every stage that can refuse has its own causes, and every
cause has a short name for counters and clients, a status code for the proxy, and a sentence for
people.

## Main definitions

* `Impersonation.Subject`: What an impersonation is of, a user or a group.
* `Refusal`: The causes.
* `Refusal.kind`, `Refusal.status`, `Refusal.message`: How a cause is shown.
-/

namespace ForwardAuth

/-- What a caller asks to act as. -/
inductive Impersonation.Subject where
  | user
  | group
  deriving DecidableEq, Repr

/-- The word for the subject in messages. -/
def Impersonation.Subject.word : Impersonation.Subject → String
  | .user => "user"
  | .group => "group"

/-- Why a request is given no identity. -/
inductive Refusal where
  /-- The request carries no credential at all. -/
  | noCredentials
  /-- A certificate is to be read, but the connection has none. -/
  | missingPeerCertificate
  /-- The client certificate cannot be read, or its subject cannot. -/
  | malformedCertificate (reason : String)
  /-- The claim that names the user is missing, or is no string. -/
  | missingUsernameClaim (claim : String)
  /-- The token says nothing about groups. -/
  | missingGroupsClaim
  /-- A claim has a value of the wrong type. -/
  | claimType (claim : String)
  /-- The verifier does not accept the token. -/
  | tokenRejected (reason : String)
  /-- The authority could not be asked about the token. -/
  | tokenReviewFailed (reason : String)
  /-- The authority does not know the token. -/
  | tokenReviewDenied (reason : String)
  /-- The credential names nobody. -/
  | emptyUsername
  /-- An impersonation header holds bytes that are no text. -/
  | invalidImpersonationHeader (reason : String)
  /-- The caller may not act as the target. -/
  | impersonationDenied (subject : Impersonation.Subject) (actor target : String)
  /-- The authority could not be asked about an impersonation. -/
  | backendUnavailable (reason : String)
  /-- The request was cancelled while a review was still needed. -/
  | cancelled
  /-- The time of the request ran out while a review was still needed. -/
  | deadlineExceeded
  deriving DecidableEq, Repr

namespace Refusal

/-- The short name of the cause. -/
def kind : Refusal → String
  | noCredentials => "no_credentials"
  | missingPeerCertificate => "missing_peer_certificate"
  | malformedCertificate _ => "malformed_certificate"
  | missingUsernameClaim _ => "missing_username_claim"
  | missingGroupsClaim => "missing_groups_claim"
  | claimType _ => "claim_type_error"
  | tokenRejected _ => "token_rejected"
  | tokenReviewFailed _ => "token_review_failed"
  | tokenReviewDenied _ => "token_review_denied"
  | emptyUsername => "empty_username"
  | invalidImpersonationHeader _ => "invalid_impersonation_header"
  | impersonationDenied .. => "impersonation_denied"
  | backendUnavailable _ => "backend_unavailable"
  | cancelled => "cancelled"
  | deadlineExceeded => "deadline_exceeded"

/-- The status code of the response that refuses for this cause. -/
def status : Refusal → Http.Status
  | invalidImpersonationHeader _ => ⟨400⟩
  | impersonationDenied .. => ⟨403⟩
  | tokenReviewFailed _ | backendUnavailable _ => ⟨502⟩
  | cancelled => ⟨503⟩
  | deadlineExceeded => ⟨504⟩
  | _ => ⟨401⟩

/-- The cause in a sentence. -/
def message : Refusal → String
  | noCredentials => "unauthenticated requests are not supported"
  | missingPeerCertificate => "no provided peer certificates"
  | malformedCertificate reason => "malformed client certificate: " ++ reason
  | missingUsernameClaim claim => "missing or invalid username claim '" ++ claim ++ "' in token"
  | missingGroupsClaim => "missing groups claim in token"
  | claimType claim => "unexpected type for claim '" ++ claim ++ "'"
  | tokenRejected reason => "token rejected: " ++ reason
  | tokenReviewFailed reason => "cannot create token review: " ++ reason
  | tokenReviewDenied reason => "cannot verify the token: " ++ reason
  | emptyUsername => "credentials resolved to an empty username"
  | invalidImpersonationHeader reason => "invalid impersonation header: " ++ reason
  | impersonationDenied subject actor target =>
    "the current user " ++ actor ++ " cannot impersonate the " ++ subject.word ++ " " ++ target
  | backendUnavailable reason => "access review unavailable: " ++ reason
  | cancelled => "request cancelled"
  | deadlineExceeded => "request deadline exceeded"

end Refusal

end ForwardAuth
