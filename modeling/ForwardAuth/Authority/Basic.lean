import ForwardAuth.Review.Basic
import ForwardAuth.Scope

/-!
# The authority

Whoever answers reviews, seen from the one who asks. Each question starts a call. What the authority
remembers from one question to the next is a value of its own, which every question may change: a
script that is used up, a connection, or nothing.

## Main definitions

* `Authority`: How questions are answered.
* `Script`, `Authority.scripted`: An authority that answers from two lists, one for each kind of
  question.
-/

namespace ForwardAuth

/-- The calls that questions start, given what the authority remembers. -/
structure Authority (σ : Type) where
  access : Review.AccessQuery → σ → Call (Except Review.Error Bool) × σ
  token : Review.TokenQuery → σ → Call (Except Review.Error Review.TokenVerdict) × σ

/-- The answers that a scripted authority has left, for each kind of question. -/
structure Script where
  access : List (Call (Except Review.Error Bool))
  token : List (Call (Except Review.Error Review.TokenVerdict))
  deriving Repr

namespace Authority

/-- An authority that gives the answers of its script one after another, whatever it is asked. After
    the last one it allows every access and cannot be reached about tokens. -/
def scripted : Authority Script where
  access _ script :=
    match script.access with
    | [] => (.instant (.ok true), script)
    | call :: rest => (call, { script with access := rest })
  token _ script :=
    match script.token with
    | [] => (.instant (.error (.transport "no reply")), script)
    | call :: rest => (call, { script with token := rest })

end Authority

end ForwardAuth
