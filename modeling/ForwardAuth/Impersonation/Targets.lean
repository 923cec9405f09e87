import ForwardAuth.Credential
import ForwardAuth.Refusal

/-!
# Impersonation targets

A caller may ask to act as someone else by naming a user, groups, or both, in headers. Blank values
ask for nothing and are skipped. Of several users the first counts; groups add up. A value that is
no text refuses the whole request, even when another value would have been used instead of it: what
cannot be read must not be guessed around.

## Main definitions

* `Targets`: The user and the groups a request asks to act as.
* `Targets.ofHeaders`: Reads them from the headers of a request.
* `Targets.isEmpty`: The request asks for nothing.
-/

namespace ForwardAuth.Impersonation

/-- The header that names a user to act as. -/
def userHeader : Http.HeaderName := ⟨"impersonate-user"⟩

/-- The header that names a group to act as a member of. -/
def groupHeader : Http.HeaderName := ⟨"impersonate-group"⟩

/-- What a request asks to act as. -/
structure Targets where
  user : Option String
  groups : List String
  deriving DecidableEq, Repr

namespace Targets

/-- Nothing is asked for. -/
def isEmpty (t : Targets) : Bool :=
  t.user.isNone && t.groups.isEmpty

/-- The values of a header as trimmed texts, without the blank ones; none if one is no text. -/
def texts? (h : Http.Headers) (name : Http.HeaderName) : Option (List String) := do
  let texts ← (h.values name).mapM Http.HeaderValue.text?
  return (texts.map Text.trim).filter fun t => !t.isEmpty

/-- The refusal of a request in which a value of the header is no text. -/
def unreadable (name : Http.HeaderName) : Refusal :=
  .invalidImpersonationHeader (name.text ++ " must be visible ASCII")

/-- Reads the targets from the headers: the first user and all groups, the user header before the
    group header. -/
def ofHeaders (h : Http.Headers) : Except Refusal Targets := do
  let users ← (texts? h userHeader).elim (throw (unreadable userHeader)) pure
  let groups ← (texts? h groupHeader).elim (throw (unreadable groupHeader)) pure
  return ⟨users.head?, groups⟩

end Targets

end ForwardAuth.Impersonation
