import ForwardAuth.Proofs.Anchoring
import ForwardAuth.Proofs.Material

/-!
# Configurations that were accepted

A configuration is checked when its text is read, and then its paths are anchored. When it is put to
use, the settings of the authority's client are checked a second time, and whether the client's
certificate and its key are given together a third time. Nobody wants to hear of that then: a server
that is told a configuration while it runs should not come to know so late that it could never have
been accepted.

The checks are written here as a list of conditions, each with what is said when it is broken. Which
error is reported is a matter of their order, and `FirstBroken` says it for any list. That the later
checks agree with the first one rests on what they look at. None of them reads a path, they only
see which paths are given, and `Relocated` says that anchoring keeps that. What is left to fail are
the files.

## Main definitions

* `Condition`, `FirstBroken`: What is checked, and what is reported.
* `Review.Settings.conditions`, `Configuration.conditions`: The conditions.
* `Relocated`: A configuration with other paths in the same places.
* `FailsForFilesAlone`: What can still go wrong with a configuration.

## Theorems

* `FirstBroken.unique`: One error is reported.
* `firstBroken_or_holds`: If none is reported, all conditions hold.
* `Review.Settings.check_fails`, `Configuration.check_fails`: What the checks report.
* `Relocated.check`: The checks do not look at paths.
* `accepted_stays_usable`: What is accepted, and that it stays usable.
-/

namespace ForwardAuth

/-! ## Conditions in order -/

/-- Something that has to hold, and what is said if it does not. -/
structure Condition (α ε : Type) where
  Holds : α → Prop
  refusal : α → ε

variable {α β ε ε' : Type}

/-- The first condition that is broken has this refusal. -/
inductive FirstBroken (a : α) : List (Condition α ε) → ε → Prop where
  | here {r : Condition α ε} {rs : List (Condition α ε)} (h : ¬ r.Holds a) :
      FirstBroken a (r :: rs) (r.refusal a)
  | later {r : Condition α ε} {rs : List (Condition α ε)} {e : ε} (h : r.Holds a)
      (hrest : FirstBroken a rs e) : FirstBroken a (r :: rs) e

theorem FirstBroken.unique {a : α} {rs : List (Condition α ε)} {e e' : ε}
    (h : FirstBroken a rs e) (h' : FirstBroken a rs e') : e = e' := by
  induction h with
  | here hbroken =>
      cases h' with
      | here => rfl
      | later hholds => exact absurd hholds hbroken
  | later hholds _ ih =>
      cases h' with
      | here hbroken => exact absurd hholds hbroken
      | later _ hrest => exact ih hrest

theorem FirstBroken.not_holds {a : α} {rs : List (Condition α ε)} {e : ε}
    (h : FirstBroken a rs e) : ¬ ∀ r ∈ rs, r.Holds a := by
  intro hall
  induction h with
  | here hbroken => exact hbroken (hall _ List.mem_cons_self)
  | later _ _ ih => exact ih fun r hr => hall r (List.mem_cons_of_mem _ hr)

theorem firstBroken_or_holds (a : α) (rs : List (Condition α ε)) :
    (∃ e, FirstBroken a rs e) ∨ ∀ r ∈ rs, r.Holds a := by
  induction rs with
  | nil => exact .inr fun r hr => (nomatch hr)
  | cons r rs ih =>
      by_cases h : r.Holds a
      · rcases ih with ⟨e, he⟩ | hall
        · exact .inl ⟨e, .later h he⟩
        · exact .inr (List.forall_mem_cons.mpr ⟨h, hall⟩)
      · exact .inl ⟨_, .here h⟩

namespace FailsFor

variable {a : α} {r : Condition α ε} {rs : List (Condition α ε)} {x : Except ε Unit}

theorem broken {e : ε} (he : r.refusal a = e) (h : ¬ r.Holds a) :
    FailsFor (.error e : Except ε Unit) (FirstBroken a (r :: rs)) :=
  ⟨fun _ he' => Except.error.inj he' ▸ he ▸ .here h, fun _ hok => (nomatch hok)⟩

theorem kept (h : r.Holds a) (hx : FailsFor x (FirstBroken a rs)) :
    FailsFor x (FirstBroken a (r :: rs)) := by
  refine hx.congr fun e => ⟨.later h, fun he => ?_⟩
  cases he with
  | here hbroken => exact absurd h hbroken
  | later _ hrest => exact hrest

/-- One check more, made before the others. -/
theorem checked {p : Prop} {_ : Decidable p} {e : ε} (he : r.refusal a = e) (hp : p ↔ ¬ r.Holds a)
    (hx : r.Holds a → FailsFor x (FirstBroken a rs)) :
    FailsFor (if p then .error e else x) (FirstBroken a (r :: rs)) := by
  by_cases h : p
  · rw [if_pos h]
    exact broken he (hp.mp h)
  · rw [if_neg h]
    have hholds : r.Holds a := not_not.mp fun hbroken => h (hp.mpr hbroken)
    exact kept hholds (hx hholds)

theorem nothingBroken (a : α) : FailsFor (.ok () : Except ε Unit) (FirstBroken a []) :=
  (FailsFor.pure ()).congr fun _ => ⟨False.elim, fun h => (nomatch h)⟩

/-- A check that reports what is broken first passes if all conditions hold. -/
theorem eq_ok_iff (hx : FailsFor x (FirstBroken a rs)) : x = .ok () ↔ ∀ r ∈ rs, r.Holds a := by
  constructor
  · intro hok
    rcases firstBroken_or_holds a rs with ⟨e, he⟩ | hall
    · exact absurd he (hx.of_ok () hok e)
    · exact hall
  · intro hall
    rcases hx' : x with e | _
    · exact absurd hall (hx.of_error e hx').not_holds
    · rfl

theorem eq_error_iff (hx : FailsFor x (FirstBroken a rs)) (e : ε) :
    x = .error e ↔ FirstBroken a rs e := by
  refine ⟨hx.of_error e, fun h => ?_⟩
  rcases hx' : x with e' | _
  · rw [(hx.of_error e' hx').unique h]
  · exact absurd h (hx.of_ok () hx' e)

end FailsFor

/-- The condition on a part of something else. -/
def Condition.onPart (part : β → α) (wrap : ε → ε') (r : Condition α ε) : Condition β ε' :=
  ⟨fun b => r.Holds (part b), fun b => wrap (r.refusal (part b))⟩

theorem firstBroken_onPart_iff {part : β → α} {wrap : ε → ε'} {b : β}
    {rs : List (Condition α ε)} {e' : ε'} :
    FirstBroken b (rs.map (Condition.onPart part wrap)) e' ↔
      ∃ e, FirstBroken (part b) rs e ∧ e' = wrap e := by
  induction rs with
  | nil =>
      refine ⟨fun h => (nomatch h), ?_⟩
      rintro ⟨_, ⟨⟩, -⟩
  | cons r rs ih =>
      rw [List.map_cons]
      constructor
      · intro h
        cases h with
        | here hbroken => exact ⟨_, .here hbroken, rfl⟩
        | later hholds hrest =>
            rcases ih.mp hrest with ⟨e, he, rfl⟩
            exact ⟨e, .later hholds he, rfl⟩
      · rintro ⟨e, he, rfl⟩
        cases he with
        | here hbroken => exact .here hbroken
        | later hholds hrest => exact .later hholds (ih.mpr ⟨e, hrest, rfl⟩)

namespace Configuration

/-! ## Other paths in the same places -/

/-- The other configuration differs in paths only, and has one wherever this one does. -/
structure Relocated (c d : Configuration) : Prop extends c.SameBesidePaths d where
  isSome_path? : ∀ field, (d.path? field).isSome = (c.path? field).isSome

theorem relocated_anchor (base : String) (c : Configuration) : c.Relocated (c.anchor base) where
  toSameBesidePaths := sameBesidePaths_anchor base c
  isSome_path? field := by rw [path?_anchor, Option.isSome_map]

end Configuration

/-! ## The conditions -/

section Checks

variable [Wording]

/-- What the settings of the authority's client have to meet. -/
def Review.Settings.conditions : List (Condition Review.Settings Review.Misconfiguration) :=
  [⟨fun s => s.clientCertificate.isSome = s.clientPrivateKey.isSome, fun _ => .halfIdentity⟩,
    ⟨fun s => (Uri.parse? s.url).isSome, fun s => .invalidUrl (Wording.uri s.url)⟩,
    ⟨fun s => ∃ u, Uri.parse? s.url = some u ∧ (u.scheme = some .http ∨ u.scheme = some .https),
      fun s => .foreignScheme s.url⟩]

namespace Configuration

/-- What a configuration has to meet. -/
def conditions : List (Condition Configuration Error) :=
  [⟨fun c => c.usernameClaim ≠ "", fun _ => .identity "username_claim_field must not be empty"⟩,
    ⟨fun c => 0 < c.server.resolveTimeout, fun _ => .zero "server.resolve_timeout_ms"⟩,
    ⟨fun c => 0 < c.workerThreads, fun _ => .zero "global.worker_threads"⟩] ++
  Review.Settings.conditions.map
    (Condition.onPart Configuration.authority fun cause => .authority (.configuration cause))

end Configuration

/-- Checking settings reports the first condition that is broken. -/
theorem Review.Settings.check_fails (s : Review.Settings) :
    FailsFor s.check (FirstBroken s conditions) := by
  rw [check]
  refine FailsFor.checked rfl Iff.rfl fun _ => ?_
  rcases hurl : Uri.parse? s.url with _ | u
  · refine FailsFor.broken rfl ?_
    change ¬ (Uri.parse? s.url).isSome = true
    rw [hurl]
    exact Bool.false_ne_true
  · refine FailsFor.kept ?_ ?_
    · change (Uri.parse? s.url).isSome = true
      rw [hurl]
      rfl
    · by_cases hhttp : isHttp u = true
      · change FailsFor (if isHttp u then pure () else throw _) _
        rw [if_pos hhttp]
        exact FailsFor.kept ⟨u, hurl, isHttp_iff.mp hhttp⟩ (FailsFor.nothingBroken s)
      · change FailsFor (if isHttp u then pure () else throw _) _
        rw [if_neg hhttp]
        refine FailsFor.broken rfl ?_
        rintro ⟨u', hurl', hscheme⟩
        rw [hurl] at hurl'
        cases hurl'
        exact hhttp (isHttp_iff.mpr hscheme)

/-- Checking a configuration reports the first condition that is broken. -/
theorem Configuration.check_fails (c : Configuration) :
    FailsFor c.check (FirstBroken c conditions) := by
  -- The last part of the check is that of the client's settings, whose refusals are wrapped.
  have hauthority := ((Review.Settings.check_fails c.authority).mapError fun cause =>
    Error.authority (.configuration cause)).congr fun e =>
      (firstBroken_onPart_iff (b := c)).symm
  rw [check]
  refine FailsFor.checked rfl (String.isEmpty_iff.trans not_not.symm) fun _ => ?_
  refine FailsFor.checked rfl Nat.pos_iff_ne_zero.not_left.symm fun _ => ?_
  refine FailsFor.checked rfl Nat.pos_iff_ne_zero.not_left.symm fun _ => ?_
  rcases hcheck : c.authority.check with cause | _
  · rw [hcheck] at hauthority
    exact hauthority
  · rw [hcheck] at hauthority
    exact hauthority

namespace Configuration

/-- The checks of the client's settings look at which paths are given, and not at the paths. -/
theorem Relocated.authority_check {c d : Configuration} (h : c.Relocated d) :
    d.authority.check = c.authority.check := by
  have hcertificate : d.authority.clientCertificate.isSome = c.authority.clientCertificate.isSome :=
    h.isSome_path? .clientCertificate
  have hkey : d.authority.clientPrivateKey.isSome = c.authority.clientPrivateKey.isSome :=
    h.isSome_path? .clientPrivateKey
  rw [Review.Settings.check, Review.Settings.check, hcertificate, hkey, h.url]

theorem Relocated.check {c d : Configuration} (h : c.Relocated d) : d.check = c.check := by
  rw [Configuration.check, Configuration.check, h.authority_check, h.usernameClaim,
    h.resolveTimeout, h.workerThreads]

/-! ## Acceptance -/

/-- The configuration that a text describes, whether it can be used or not. -/
def decode? (text : String) : Option Configuration := Toml.Table.parse? text >>= ofTable?

theorem parse_of_decode? {text : String} {c : Configuration} (h : decode? text = some c) :
    parse text = c.check.map fun _ => c := by
  rw [parse, show Toml.Table.parse? text >>= ofTable? = some c from h]
  change (c.check >>= fun _ => pure c) = _
  rcases c.check with e | _
  · rfl
  · rfl

theorem parse_of_not_decoded {text : String} (h : decode? text = none) :
    parse text = .error (.malformed (Wording.configuration text)) := by
  rw [parse, show Toml.Table.parse? text >>= ofTable? = none from h]
  rfl

theorem parse_eq_ok_iff {text : String} {c : Configuration} :
    parse text = .ok c ↔ decode? text = some c ∧ c.check = .ok () := by
  rcases hdecode : decode? text with _ | c'
  · rw [parse_of_not_decoded hdecode]
    exact ⟨fun h => (nomatch h), fun h => (nomatch h.1)⟩
  · rw [parse_of_decode? hdecode]
    rcases hcheck : c'.check with e | _
    · refine ⟨fun h => (nomatch h), ?_⟩
      rintro ⟨⟨⟩, hok⟩
      cases hcheck.symm.trans hok
    · refine ⟨fun h => ?_, fun h => congrArg _ (Option.some.inj h.1)⟩
      cases h
      exact ⟨rfl, hcheck⟩

theorem parse_eq_error_iff {text : String} {e : Error} :
    parse text = .error e ↔
      decode? text = none ∧ e = .malformed (Wording.configuration text) ∨
      ∃ c, decode? text = some c ∧ c.check = .error e := by
  rcases hdecode : decode? text with _ | c
  · rw [parse_of_not_decoded hdecode]
    refine ⟨fun h => .inl ⟨rfl, (Except.error.inj h).symm⟩, ?_⟩
    rintro (⟨-, rfl⟩ | ⟨_, ⟨⟩, -⟩)
    rfl
  · rw [parse_of_decode? hdecode]
    simp only [reduceCtorEq, false_and, false_or, Option.some.injEq, exists_eq_left']
    rcases c.check with e' | _
    · exact ⟨fun h => congrArg _ (Except.error.inj h), fun h => congrArg _ (Except.error.inj h)⟩
    · exact ⟨fun h => (nomatch h), fun h => (nomatch h)⟩

/-- What a configuration has to meet covers what the settings of its client have to meet. -/
theorem authority_check_of_holds {c : Configuration} (h : ∀ r ∈ conditions, r.Holds c) :
    c.authority.check = .ok () :=
  (Review.Settings.check_fails c.authority).eq_ok_iff.mpr fun _ hr =>
    h _ (List.mem_append_right _ (List.mem_map_of_mem hr))

/-- A configuration can be put to use unless the files that it names are spoiled. Whatever goes
    wrong cannot be seen from the settings, and as long as the system describes its errors by
    phrases, nothing is said that could have been said of the settings. -/
structure FailsForFilesAlone (files : Files) (c : Configuration) : Prop where
  client : FailsFor (Review.Client.ofFiles files c.authority) (c.authority.Spoiled files)
  server : ∀ shutdown, FailsFor (Server.ofConfiguration files c shutdown) (c.Spoiled files)
  reload_error : ∀ (s : Server) (e : Error), (s.reload files c).1 = .error e → c.Spoiled files e
  reload_ok : (∀ e, ¬ c.Spoiled files e) → ∀ s : Server, (s.reload files c).1 = .ok ()
  client_cause : ∀ cause, c.authority.Spoiled files cause → ¬ cause.IsOfSettings
  cause : ∀ cause, c.Spoiled files (.authority (.configuration cause)) → ¬ cause.IsOfSettings
  client_message : files.SayPhrases → ∀ cause other : Review.Misconfiguration,
    c.authority.Spoiled files cause → other.IsOfSettings → cause.message ≠ other.message
  message : files.SayPhrases → ∀ (e : Error) (other : Review.Misconfiguration),
    c.Spoiled files e → other.IsOfSettings →
      e.message ≠ (Error.authority (.configuration other)).message

theorem failsForFilesAlone_of_check {c : Configuration} (h : c.authority.check = .ok ())
    (files : Files) : FailsForFilesAlone files c where
  client := Review.Client.ofFiles_fails files h
  server := Server.ofConfiguration_fails h
  reload_error _ _ he := Server.reload_error h he
  reload_ok hgood s := by
    rcases hreload : (s.reload files c).1 with e | _
    · exact absurd (Server.reload_error h hreload) (hgood e)
    · rfl
  client_cause _ hspoiled := hspoiled.not_isOfSettings
  cause _ hspoiled := by
    cases hspoiled with
    | client hclient => exact hclient.not_isOfSettings
  client_message hfiles _ _ hspoiled hother := hspoiled.message_ne hfiles hother
  message hfiles _ _ hspoiled hother := hspoiled.message_ne hfiles hother

/-- A text is accepted if it describes a configuration that meets all conditions, and else what is
    reported is that it does not describe one, or the first condition that is broken. Whatever file
    an accepted text is loaded from, the configuration with its paths anchored meets all conditions
    still. A client that is set up from it, a server that is built from it and a running server that
    is told it can fail for nothing but the files, whatever these hold by then, and never with what
    is said of settings. -/
theorem accepted_stays_usable :
    (∀ text c, parse text = .ok c ↔ decode? text = some c ∧ ∀ r ∈ conditions, r.Holds c) ∧
    (∀ text e, parse text = .error e ↔
      decode? text = none ∧ e = .malformed (Wording.configuration text) ∨
      ∃ c, decode? text = some c ∧ FirstBroken c conditions e) ∧
    ∀ (files : Files) (path text : String) (c : Configuration), files.text path = .ok text →
      parse text = .ok c →
      ∃ d, load files path = .ok d ∧ c.Relocated d ∧ d.authority.check = .ok () ∧
        (∀ r ∈ conditions, r.Holds d) ∧ ∀ later : Files, FailsForFilesAlone later d := by
  refine ⟨fun text c => ?_, fun text e => ?_, fun files path text c htext hparse => ?_⟩
  · rw [parse_eq_ok_iff, (check_fails c).eq_ok_iff]
  · rw [parse_eq_error_iff]
    simp only [(check_fails _).eq_error_iff]
  · have hrelocated := relocated_anchor (Path.directory path) c
    have hcheck : (c.anchor (Path.directory path)).check = .ok () := by
      rw [hrelocated.check]
      exact (parse_eq_ok_iff.mp hparse).2
    have hall := (check_fails _).eq_ok_iff.mp hcheck
    have hauthority := authority_check_of_holds hall
    exact ⟨_, load_eq_ok_iff.mpr ⟨text, c, htext, hparse, rfl⟩, hrelocated, hauthority, hall,
      failsForFilesAlone_of_check hauthority⟩

end Configuration

end Checks

namespace Configuration

/-- A text that breaks three conditions is refused for the first of them. One with a certificate and
    a key for the client is accepted, and once the files with these are gone, only they fail. -/
theorem accepted_stays_usable_until_files_are_gone :
    let _ : Wording := .own
    let bad := "[server]\nbind_address = '::1'\nresolve_timeout_ms = 0\n" ++
      "[global]\nworker_threads = 0\n[authority]\nurl = 'authority'\n"
    let good := "[server]\nbind_address = '::1'\n[authority]\nurl = 'https://authority'\n" ++
      "client_certificate = 'client.pem'\nclient_private_key = 'client.key'\n"
    let files : Files := fun p =>
      if p = "/etc/gate.toml" then .ok good.toUTF8.data.toList else .error .noSuchFile
    let gone : Files := fun _ => .error .noSuchFile
    (∃ c, decode? bad = some c ∧ FirstBroken c conditions (.zero "server.resolve_timeout_ms")) ∧
    ∃ d, load files "/etc/gate.toml" = .ok d ∧ (∀ r ∈ conditions, r.Holds d) ∧
      ∃ cause, Review.Client.ofFiles gone d.authority = .error cause ∧
        cause.message = "PEM error: I/O error: No such file or directory (os error 2)" ∧
        cause.message ≠ "Both certificate and key required for mTLS" := by
  intro _ bad good files gone
  have htext : files.text "/etc/gate.toml" = .ok good := by decide +kernel
  have hbad : (parse bad).map (fun _ => ()) = .error (.zero "server.resolve_timeout_ms") := by
    decide +kernel
  have hgood : (parse good).toOption.map (fun c => [PathField.clientCertificate,
      .clientPrivateKey, .bearerTokenFile, .serverCaBundle].map fun field => (c.path? field).isSome)
      = some [true, true, false, false] := by decide +kernel
  rcases accepted_stays_usable with ⟨-, hrefused, husable⟩
  constructor
  · rcases hparse : parse bad with e | c
    · rw [hparse] at hbad
      cases hbad
      rcases (hrefused _ _).mp hparse with ⟨-, h⟩ | h
      · cases h
      · exact h
    · rw [hparse] at hbad
      cases hbad
  · rcases hparse : parse good with e | c
    · rw [hparse] at hgood
      cases hgood
    · rw [hparse] at hgood
      simp only [Except.toOption, Option.map_some, List.map_cons, List.map_nil, Option.some.injEq,
        List.cons.injEq, and_true] at hgood
      rcases husable files _ good c htext hparse with ⟨d, hd, hrelocated, -, hall, hlater⟩
      simp only [← hrelocated.isSome_path?] at hgood
      rcases hgood with ⟨hcertificate, hkey, htoken, hroots⟩
      rcases Option.isSome_iff_exists.mp hcertificate with ⟨certificate, hc⟩
      rcases Option.isSome_iff_exists.mp hkey with ⟨key, hk⟩
      have hgone := hlater gone
      refine ⟨d, hd, hall, ?_⟩
      rcases hclient : Review.Client.ofFiles gone d.authority with cause | client
      · have hspoiled := hgone.client.of_error cause hclient
        refine ⟨cause, rfl, ?_, hgone.client_message (fun path e he => ?_) cause .halfIdentity
          hspoiled trivial⟩
        · cases hspoiled with
          | @token path reason h hfile =>
              rw [show d.path? .bearerTokenFile = some path from h] at htoken
              cases htoken
          | @roots path fault h hfile =>
              rw [show d.path? .serverCaBundle = some path from h] at hroots
              cases hroots
          | identity hcertificate hkey h =>
              rcases h with h | h | ⟨chain, sect, h, -⟩
              · rw [← Except.error.inj h]
                decide
              · rw [← Except.error.inj h]
                decide
              · cases h
        · rw [← Except.error.inj he]
          decide
      · exact absurd (.identity hc hk (.chain rfl)) (hgone.client.of_ok client hclient _)

end Configuration

end ForwardAuth
