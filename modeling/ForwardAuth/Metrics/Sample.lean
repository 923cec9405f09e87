/-!
# Samples

What the program counts. Each event that is counted belongs to a sample, a name with labels, and the
program keeps the list of the events. The value of a sample is the number of its events, and a text
names it in the way that collectors of such values expect.

## Main definitions

* `Sample`: Something that is counted.
* `Sample.text`: The sample as it is named in an exposition.
* `Metrics.count`: The value of a sample.
-/

namespace ForwardAuth.Metrics

/-- The kinds of reviews. -/
inductive ReviewKind where
  | access
  | token
  deriving DecidableEq, Repr

/-- The label of a kind of reviews. -/
def ReviewKind.label : ReviewKind → String
  | access => "subject_access_review"
  | token => "token_review"

/-- What comes of a review. -/
inductive ReviewResult where
  | allow
  | deny
  | error
  deriving DecidableEq, Repr

/-- The label of a result. -/
def ReviewResult.label : ReviewResult → String
  | allow => "allow"
  | deny => "deny"
  | error => "error"

/-- Something that is counted. -/
inductive Sample where
  /-- A resolution has ended: by which method, with which result. -/
  | resolution (method result : String)
  /-- A review was answered, or failed. -/
  | review (kind : ReviewKind) (result : ReviewResult)
  /-- The duration of a review was measured. -/
  | reviewDuration (kind : ReviewKind)
  /-- A request was responded to. -/
  | request
  /-- The duration of a request was measured. -/
  | requestDuration
  deriving DecidableEq, Repr

/-- A label with its value. -/
def label (name value : String) : String :=
  name ++ "=\"" ++ value ++ "\""

/-- A name with labels. -/
def labelled (name : String) (labels : List String) : String :=
  name ++ "\x7b" ++ ",".intercalate labels ++ "\x7d"

/-- The sample as it is named in an exposition. -/
def Sample.text : Sample → String
  | resolution method result =>
    labelled "identity_resolutions_total" [label "method" method, label "result" result]
  | review kind result =>
    labelled "authority_reviews_total" [label "result" result.label, label "review" kind.label]
  | reviewDuration kind =>
    labelled "authority_review_duration_seconds_count" [label "review" kind.label]
  | request => "http_requests_total"
  | requestDuration => "http_request_duration_ms_count"

/-- The value of a sample after the given events. -/
def count (events : List Sample) (s : Sample) : Nat :=
  events.count s

/-- The samples that have events, each with its value. -/
def values (events : List Sample) : List (Sample × Nat) :=
  events.eraseDups.map fun s => (s, count events s)

end ForwardAuth.Metrics
