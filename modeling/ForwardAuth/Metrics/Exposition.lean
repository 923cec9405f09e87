import ForwardAuth.Metrics.Sample

/-!
# Expositions

The values of the samples in the text form that collectors read: for each family of samples a line
that says what it counts, a line with its type, and a line for each of its samples. Durations are
only counted here, so a family of durations shows its count alone.

## Main definitions

* `Family`: A family of samples.
* `exposition`: The text for the events so far and the requests in flight.
-/

namespace ForwardAuth.Metrics

/-- A family of samples. -/
structure Family where
  name : String
  help : String
  type : String
  /-- The lines of its samples, each a sample and its value. -/
  lines : List (String × String)
  deriving Repr

/-- The family as it is written. -/
def Family.text (f : Family) : String :=
  "# HELP " ++ f.name ++ " " ++ f.help ++ "\n# TYPE " ++ f.name ++ " " ++ f.type ++ "\n" ++
    String.join (f.lines.map fun (sample, value) => sample ++ " " ++ value ++ "\n")

/-- The lines of the samples that have events and belong to a family. -/
def linesOf (events : List Sample) (belongs : Sample → Bool) : List (String × String) :=
  ((values events).filter fun v => belongs v.1).map fun v => (v.1.text, toString v.2)

/-- The line of a sample that is shown with or without events. -/
def lineOf (events : List Sample) (s : Sample) : String × String :=
  (s.text, toString (count events s))

/-- The families, in the order of their names. -/
def families (events : List Sample) (inFlight : Int) : List Family :=
  [⟨"authority_review_duration_seconds", "Review request duration", "histogram",
      linesOf events fun s => s matches .reviewDuration _⟩,
    ⟨"authority_reviews_total", "Total number of review requests sent to the authority", "counter",
      linesOf events fun s => s matches .review ..⟩,
    ⟨"http_request_duration_ms", "The HTTP request latencies in milliseconds.", "histogram",
      [lineOf events .requestDuration]⟩,
    ⟨"http_requests_in_flight", "The current number of in-flight HTTP requests.", "gauge",
      [("http_requests_in_flight", toString inFlight)]⟩,
    ⟨"http_requests_total", "Total number of HTTP requests made.", "counter",
      [lineOf events .request]⟩,
    ⟨"identity_resolutions_total", "Total number of identity resolutions", "counter",
      linesOf events fun s => s matches .resolution ..⟩]

/-- The text for the events so far and the requests in flight. A family without samples is left
    out. -/
def exposition (events : List Sample) (inFlight : Int) : String :=
  String.join (((families events inFlight).filter fun f => !f.lines.isEmpty).map Family.text)

end ForwardAuth.Metrics
