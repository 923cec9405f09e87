import ForwardAuth.Certificate.Subject
import ForwardAuth.Identity
import ForwardAuth.Refusal
import ForwardAuth.Wording

/-!
# Identities from certificates

The common name in the subject of a client certificate is the user name, and the organizations are
the groups. Of several common names the first counts; a certificate without one names nobody, which
is left to the caller to judge. All organizations count, so all of them have to be text.

## Main definitions

* `identity`: The identity that a certificate gives.
-/

namespace ForwardAuth.Certificate

/-- Why a certificate with an unreadable common name is refused. -/
def unreadableCommonName : String := "Unable to parse certificate common name"

/-- Why a certificate with an unreadable organization is refused. -/
def unreadableOrganizations : String := "Unable to parse certificate organizations"

/-- The user name that a subject gives: its first common name, or nothing. -/
def username (subject : List Attribute) : Except Refusal String :=
  match subject.find? fun a => a.type == Attribute.commonName with
  | none => pure ""
  | some a => a.text?.elim (throw (.malformedCertificate unreadableCommonName)) pure

/-- The groups that a subject gives: its organizations. -/
def groups (subject : List Attribute) : Except Refusal (List String) :=
  let organizations := subject.filter fun a => a.type == Attribute.organization
  (organizations.mapM Attribute.text?).elim
    (throw (.malformedCertificate unreadableOrganizations)) pure

/-- The identity that an encoded certificate gives. -/
def identity [Wording] (encoded : Encoded) : Except Refusal Identity := do
  let subject ← (subject? encoded).elim
    (throw (.malformedCertificate (Wording.certificate encoded))) pure
  let username ← username subject
  let groups ← groups subject
  return .of username groups

end ForwardAuth.Certificate
