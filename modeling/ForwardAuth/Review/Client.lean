import ForwardAuth.Authority.Basic
import ForwardAuth.Http.Headers
import ForwardAuth.Metrics.Sample
import ForwardAuth.Review.Wire
import ForwardAuth.Text.Blank
import ForwardAuth.Tls.Acceptor

/-!
# The authority's client

Reviews are asked for over HTTP. The client is set up once from its settings and the files they
name; then every review is one request, posted to the address of its kind below the address of the
authority. A response that is no success is an error whatever it holds, and so is one that does not
come in time.

Each review is measured from its beginning, also if the one who asked gives it up. What comes of it
is counted where this is found: errors where the request is sent and its response is read, answers
where they are told. Only a request that cannot be put together is not counted at all.

## Main definitions

* `Call.within`: A call that is given up after a time.
* `Client`, `Client.ofFiles`: The client, set up.
* `Client.request?`: The request for a review.
* `Exchange`, `Network`: What comes of sending a request, and who sends it.
* `Exit`: The end of a review, with what is counted there.
* `Client.reviewAccess`, `Client.reviewToken`: The reviews.
* `Client.authority`: The authority, asked through the client.
* `Client.metered`, `samples`: The same with what its exits count, and what is counted in the end.
-/

namespace ForwardAuth

/-- The call, given up with an answer of its own after so many milliseconds of waiting. A call that
    would answer at the very end of this time is given up as well: it is assumed of whoever measures
    the time that an answer has to come before it is over. -/
def Call.within {α : Type} (limit : Nat) (late : α) (c : Call α) : Call α :=
  let rec go (left : Nat) : List Call.Step → Call α
    | [] =>
      match c.answer with
      | some a => .instant a
      | none => Call.after (.wait left) (.instant late)
    | .cancel reach :: steps => (go left steps).after (.cancel reach)
    | .work duration :: steps => (go (left - duration) steps).after (.work duration)
    | .wait duration :: steps =>
      if left ≤ duration then Call.after (.wait left) (.instant late)
      else (go (left - duration) steps).after (.wait duration)
  go limit c.steps

namespace Review

/-- A client of the authority. -/
structure Client where
  /-- The address of the authority, without slashes at its end. -/
  baseUrl : String
  bearerToken : Option String
  /-- How long a review may take, in milliseconds. -/
  timeout : Nat
  connector : Tls.Connector
  deriving DecidableEq, Repr

/-- A request to the authority. It is posted, and both sides speak JSON. -/
structure Outgoing where
  uri : Uri
  authorization : Option Http.HeaderValue
  body : List UInt8
  deriving DecidableEq, Repr

/-- What comes of sending a request. -/
inductive Exchange where
  | response (status : Http.Status) (body : List UInt8)
  | failure (reason : String)
  deriving DecidableEq, Repr

/-- Who sends requests. What it remembers from one to the next is a value of its own. -/
structure Network (σ : Type) where
  send : Outgoing → σ → Call Exchange × σ

/-- The end of a review: what is answered, and what is counted there. -/
structure Exit (α : Type) where
  answer : Except Error α
  counted : List Metrics.Sample

namespace Exit

variable {α : Type}

/-- An error that is counted for a review of a kind. -/
def failed (kind : Metrics.ReviewKind) (e : Error) : Exit α :=
  ⟨.error e, [.review kind .error]⟩

/-- The same end, with one more result counted if there is an answer. -/
def counting (kind : Metrics.ReviewKind) (result : α → Metrics.ReviewResult) (x : Exit α) :
    Exit α :=
  match x.answer with
  | .ok a => { x with counted := x.counted ++ [.review kind (result a)] }
  | .error _ => x

@[simp] theorem answer_counting (kind : Metrics.ReviewKind) (result : α → Metrics.ReviewResult)
    (x : Exit α) : (x.counting kind result).answer = x.answer := by
  rcases x with ⟨e | a, counted⟩
  · rfl
  · rfl

/-- Counting the answers changes nothing about them. -/
theorem map_answer_counting (kind : Metrics.ReviewKind) (result : α → Metrics.ReviewResult)
    (call : Call (Exit α)) : (call.map (counting kind result)).map answer = call.map answer := by
  unfold Call.map
  rw [Option.map_map]
  exact congrArg (fun f => Call.mk call.steps (Option.map f call.answer))
    (funext (answer_counting kind result))

end Exit

namespace Client

variable [Wording]

/-- The text without the slashes it ends with. -/
def dropSlashes (url : String) : String :=
  String.ofList (url.toList.reverse.dropWhile (· == '/')).reverse

/-- Reads the token that the client shows. The blanks around it do not belong to it. -/
def readToken (files : Files) (path : String) : Except Misconfiguration String :=
  match files.text path with
  | .ok text => pure (Text.trim text)
  | .error reason => throw (.material reason)

/-- Sets up a client from its settings and the files that they name. -/
def ofFiles (files : Files) (s : Settings) : Except Misconfiguration Client := do
  s.check
  let bearerToken ← s.bearerTokenFile.mapM (readToken files)
  let connector ← Tls.Connector.ofFiles files s
  return ⟨dropSlashes s.url, bearerToken, s.timeout, connector⟩

/-- How the client shows its token. -/
def authorization? (token : String) : Option Http.HeaderValue :=
  Http.HeaderValue.ofString? ("Bearer " ++ token)

/-- The request that posts a value below the address of the authority, if that makes an address and
    the token makes a header. -/
def request? (c : Client) (path : String) (body : Json) : Option Outgoing := do
  let uri ← Uri.parse? (c.baseUrl ++ path)
  let authorization ← c.bearerToken.mapM authorization?
  return ⟨uri, authorization, Json.encode body⟩

/-- The request for an access review. -/
def accessRequest? (c : Client) (q : AccessQuery) : Option Outgoing :=
  c.request? AccessQuery.path q.body

/-- The request for a token review. -/
def tokenRequest? (c : Client) (q : TokenQuery) : Option Outgoing :=
  c.request? TokenQuery.path q.body

/-- What is said of a request that cannot be put together. Its address is looked at before its
    token. -/
def unaskable (c : Client) (path : String) : String :=
  if (Uri.parse? (c.baseUrl ++ path)).isNone then Wording.uri (c.baseUrl ++ path)
  else Wording.header

/-- What an exchange says about a review whose answer is read by `read?`. -/
def interpret {α : Type} (kind : Metrics.ReviewKind) (read? : List UInt8 → Option α) :
    Exchange → Exit α
  | .failure reason => .failed kind (.transport reason)
  | .response status body =>
    if status.isSuccess then
      match read? body with
      | some a => ⟨.ok a, []⟩
      | none => .failed kind (.decode (Wording.reply body))
    else .failed kind (.status status)

/-- Sends a request, if there is one, and reads the answer. A request that cannot be put together
    is an error that nobody counts. -/
def post {α σ : Type} (c : Client) (network : Network σ) (kind : Metrics.ReviewKind)
    (path : String) (read? : List UInt8 → Option α) (request : Option Outgoing) (s : σ) :
    Call (Exit α) × σ :=
  match request with
  | none => (.instant ⟨.error (.transport (c.unaskable path)), []⟩, s)
  | some r =>
    let (call, s) := network.send r s
    ((call.map (interpret kind read?)).within c.timeout (.failed kind .timeout), s)

/-- The result under which the answer to an access review is counted. -/
def accessResult (allowed : Bool) : Metrics.ReviewResult :=
  if allowed then .allow else .deny

/-- The result under which the answer to a token review is counted. -/
def tokenResult (verdict : TokenVerdict) : Metrics.ReviewResult :=
  if verdict.statusError.isNone then .allow else .deny

variable {σ : Type}

/-- Asks for an access review. -/
def reviewAccess (c : Client) (network : Network σ) (q : AccessQuery) (s : σ) :
    Call (Exit Bool) × σ :=
  let (call, s) := c.post network .access AccessQuery.path allowed? (c.accessRequest? q) s
  (call.map (Exit.counting .access accessResult), s)

/-- Asks for a token review. -/
def reviewToken (c : Client) (network : Network σ) (q : TokenQuery) (s : σ) :
    Call (Exit TokenVerdict) × σ :=
  let (call, s) := c.post network .token TokenQuery.path verdict? (c.tokenRequest? q) s
  (call.map (Exit.counting .token tokenResult), s)

/-- The authority, asked through the client. -/
def authority (c : Client) (network : Network σ) : Authority σ where
  access q s :=
    let (call, s) := c.reviewAccess network q s
    (call.map Exit.answer, s)
  token q s :=
    let (call, s) := c.reviewToken network q s
    (call.map Exit.answer, s)

/-- What is answered to an access review is what is answered to the request for it. -/
theorem authority_access (c : Client) (network : Network σ) (q : AccessQuery) (s : σ) :
    (c.authority network).access q s =
      ((c.post network .access AccessQuery.path allowed? (c.accessRequest? q) s).1.map Exit.answer,
        (c.post network .access AccessQuery.path allowed? (c.accessRequest? q) s).2) :=
  Prod.ext (Exit.map_answer_counting _ _ _) rfl

/-- What is answered to a token review is what is answered to the request for it. -/
theorem authority_token (c : Client) (network : Network σ) (q : TokenQuery) (s : σ) :
    (c.authority network).token q s =
      ((c.post network .token TokenQuery.path verdict? (c.tokenRequest? q) s).1.map Exit.answer,
        (c.post network .token TokenQuery.path verdict? (c.tokenRequest? q) s).2) :=
  Prod.ext (Exit.map_answer_counting _ _ _) rfl

/-- What the end of a call counts, if it has one. -/
def countedBy {α : Type} (call : Call (Exit α)) : List Metrics.Sample :=
  (call.answer.map Exit.counted).getD []

/-- The authority, asked through the client, with what each review counts at its end. -/
def metered (c : Client) (network : Network σ) : Authority (σ × List (List Metrics.Sample)) where
  access q s :=
    let (call, network) := c.reviewAccess network q s.1
    (call.map Exit.answer, network, s.2 ++ [countedBy call])
  token q s :=
    let (call, network) := c.reviewToken network q s.1
    (call.map Exit.answer, network, s.2 ++ [countedBy call])

end Client

/-- What is counted for a review: its duration in any case, and what its end counts if this was
    reached. -/
def Entry.samples (counted : List Metrics.Sample) : Entry → List Metrics.Sample
  | .access _ answer => .reviewDuration .access :: if answer.isSome then counted else []
  | .token _ answer => .reviewDuration .token :: if answer.isSome then counted else []

/-- What is counted for reviews, given what the end of each of them counts. -/
def samples (ends : List (List Metrics.Sample)) (reviews : List Entry) : List Metrics.Sample :=
  (List.zipWith Entry.samples ends reviews).flatten

end Review

end ForwardAuth
