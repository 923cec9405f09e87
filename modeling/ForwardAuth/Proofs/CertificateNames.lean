import ForwardAuth.Proofs.Naming
import ForwardAuth.Proofs.Partwise
import ForwardAuth.Proofs.Selection
import ForwardAuth.Proofs.SubjectEncoding

/-!
# Whom a certificate names

The subject of a certificate is a list of attributes, in the order of its encoding. Its sets may
hold any number of them and of any type, a type may come again, and a value need not be text. Two
types matter, and they are treated differently: of the common names only the first is looked at, and
of the organizations every one.

`Names` is the first half: a user name is the text of the first common name, or empty if there is
none. `Reading` has one rule for each outcome. A first common name that is no text is found before
an organization that is none, and one such organization is enough to refuse the certificate,
wherever it stands. Since no rule looks at anything else, two certificates with the same first
common name and the same organizations are read alike.

A certificate that names nobody is still read to the end, so that a resolution refuses it for its
empty name only if all its organizations are text. Neither refusal depends on the headers.

## Main definitions

* `Attribute.isCommonName`, `Attribute.isOrganization`: The attributes that matter.
* `Names`: The user name that a subject gives.
* `Reading`: What is read of a subject, with one rule for each outcome.
* `Frame.plain`: A certificate that says little besides its subject.

## Theorems

* `Names.unique`, `Reading.unique`: A subject is read in one way.
* `username_spec`, `groups_spec`: The two halves of a reading.
* `identity_eq_iff`: A certificate is read by its subject.
* `exists_reading_ok_iff`: When there is something to read.
* `Reading.congr`: Only the first common name and the organizations matter.
* `resolve_of_identity_error`, `resolve_of_unnamed`: What a resolution makes of a refused
  certificate, and of one that names nobody.
* `certificate_names`: Whom a certificate names.
* `not_always_emptyUsername`: Not every certificate without a common name is refused for that.
-/

namespace ForwardAuth

namespace Certificate

/-- The attribute is a common name. -/
def Attribute.isCommonName (a : Attribute) : Bool :=
  a.type == commonName

/-- The attribute is an organization. -/
def Attribute.isOrganization (a : Attribute) : Bool :=
  a.type == organization

/-- The user name that a subject gives is the text of its first common name, or empty. -/
inductive Names (subject : List Attribute) : String → Prop where
  | nobody (h : subject.find? Attribute.isCommonName = none) : Names subject ""
  | somebody {a : Attribute} {name : String} (h : subject.find? Attribute.isCommonName = some a)
      (htext : a.text? = some name) : Names subject name

/-- What is read of a subject. -/
inductive Reading (subject : List Attribute) : Except Refusal Identity → Prop where
  | identity {name : String} {organizations : List String} {i : Identity}
      (hname : Names subject name)
      (horganizations : List.Forall₂ (fun a text => a.text? = some text)
        (subject.filter Attribute.isOrganization) organizations)
      (husername : i.username = name) (hgroups : i.groups = organizations.eraseDups) :
      Reading subject (.ok i)
  | unreadableName {a : Attribute} (h : subject.find? Attribute.isCommonName = some a)
      (hnone : a.text? = none) :
      Reading subject (.error (.malformedCertificate unreadableCommonName))
  | unreadableOrganization {name : String} {o : Attribute} (hname : Names subject name)
      (ho : o ∈ subject) (htype : o.isOrganization = true) (hnone : o.text? = none) :
      Reading subject (.error (.malformedCertificate unreadableOrganizations))

theorem Names.unique {subject : List Attribute} {name name' : String} (h : Names subject name)
    (h' : Names subject name') : name = name' := by
  cases h with
  | nobody h =>
      cases h' with
      | nobody _ => rfl
      | somebody h' _ => exact absurd (h.symm.trans h') (Option.some_ne_none _).symm
  | somebody h htext =>
      cases h' with
      | nobody h' => exact absurd (h.symm.trans h') (Option.some_ne_none _)
      | somebody h' htext' =>
          rw [h] at h'
          cases h'
          exact Option.some.inj (htext.symm.trans htext')

theorem Names.text?_ne_none {subject : List Attribute} {name : String} (h : Names subject name)
    {a : Attribute} (ha : subject.find? Attribute.isCommonName = some a) : a.text? ≠ none := by
  cases h with
  | nobody h => exact absurd (h.symm.trans ha) (Option.some_ne_none _).symm
  | somebody h htext =>
      rw [h] at ha
      cases ha
      rw [htext]
      exact Option.some_ne_none _

/-! ## The two halves of a reading -/

theorem username_spec (subject : List Attribute) :
    (∃ name, username subject = .ok name ∧ Names subject name) ∨
      ∃ a, username subject = .error (.malformedCertificate unreadableCommonName) ∧
        subject.find? Attribute.isCommonName = some a ∧ a.text? = none := by
  have htype : (fun a : Attribute => a.type == Attribute.commonName) = Attribute.isCommonName := rfl
  cases hfirst : subject.find? Attribute.isCommonName with
  | none => exact .inl ⟨"", by rw [username, htype, hfirst]; rfl, .nobody hfirst⟩
  | some a =>
      have hread : username subject
          = a.text?.elim (throw (.malformedCertificate unreadableCommonName)) pure := by
        rw [username, htype, hfirst]
      cases htext : a.text? with
      | none => exact .inr ⟨a, by rw [hread, htext]; rfl, rfl, htext⟩
      | some name => exact .inl ⟨name, by rw [hread, htext]; rfl, .somebody hfirst htext⟩

theorem groups_spec (subject : List Attribute) :
    (∃ organizations, groups subject = .ok organizations ∧
      List.Forall₂ (fun a text => a.text? = some text)
        (subject.filter Attribute.isOrganization) organizations) ∨
      ∃ o, groups subject = .error (.malformedCertificate unreadableOrganizations) ∧
        o ∈ subject ∧ o.isOrganization = true ∧ o.text? = none := by
  have hgroups : groups subject
      = ((subject.filter Attribute.isOrganization).mapM Attribute.text?).elim
        (throw (.malformedCertificate unreadableOrganizations)) pure := rfl
  cases hread : (subject.filter Attribute.isOrganization).mapM Attribute.text? with
  | none =>
      rcases mapM_eq_none_iff.mp hread with ⟨o, ho, hnone⟩
      rw [List.mem_filter] at ho
      exact .inr ⟨o, by rw [hgroups, hread]; rfl, ho.1, ho.2, hnone⟩
  | some organizations =>
      exact .inl ⟨organizations, by rw [hgroups, hread]; rfl, mapM_eq_some_iff_forall₂.mp hread⟩

/-! ## A reading -/

theorem reading_identity [Wording] {encoded : Encoded} {subject : List Attribute}
    (h : subject? encoded = some subject) : Reading subject (identity encoded) := by
  have hidentity : identity encoded = username subject >>= fun name =>
      groups subject >>= fun organizations => pure (Identity.of name organizations) := by
    rw [identity, h]
    rfl
  rw [hidentity]
  -- The name is read before the organizations, so it is refused first.
  rcases username_spec subject with ⟨name, husername, hname⟩ | ⟨a, husername, hfirst, hnone⟩
  · rcases groups_spec subject with ⟨organizations, hgroups, hread⟩ | ⟨o, hgroups, ho, htype, hnone⟩
    · rw [husername, hgroups]
      exact .identity hname hread rfl (firstOccurrences_eq_eraseDups organizations)
    · rw [husername, hgroups]
      exact .unreadableOrganization hname ho htype hnone
  · rw [husername]
    exact .unreadableName hfirst hnone

theorem not_forall₂_of_text?_eq_none {subject : List Attribute} {organizations : List String}
    {o : Attribute} (ho : o ∈ subject) (htype : o.isOrganization = true) (hnone : o.text? = none) :
    ¬ List.Forall₂ (fun a text => a.text? = some text)
      (subject.filter Attribute.isOrganization) organizations := by
  intro hread
  rcases exists_mem_of_forall₂ hread (List.mem_filter.mpr ⟨ho, htype⟩) with ⟨text, -, htext⟩
  exact absurd (hnone.symm.trans htext) (Option.some_ne_none _).symm

theorem Reading.unique {subject : List Attribute} {r r' : Except Refusal Identity}
    (h : Reading subject r) (h' : Reading subject r') : r = r' := by
  cases h with
  | identity hname hread husername hgroups =>
      cases h' with
      | identity hname' hread' husername' hgroups' =>
          have hsame := Option.some.inj ((mapM_eq_some_iff_forall₂.mpr hread).symm.trans
            (mapM_eq_some_iff_forall₂.mpr hread'))
          refine congrArg Except.ok (Identity.ext ?_ ?_)
          · rw [husername, husername', hname.unique hname']
          · rw [hgroups, hgroups', hsame]
      | unreadableName hfirst hnone => exact absurd hnone (hname.text?_ne_none hfirst)
      | unreadableOrganization _ ho htype hnone =>
          exact absurd hread (not_forall₂_of_text?_eq_none ho htype hnone)
  | unreadableName hfirst hnone =>
      cases h' with
      | identity hname _ _ _ => exact absurd hnone (hname.text?_ne_none hfirst)
      | unreadableName _ _ => rfl
      | unreadableOrganization hname _ _ _ => exact absurd hnone (hname.text?_ne_none hfirst)
  | unreadableOrganization hname ho htype hnone =>
      cases h' with
      | identity _ hread _ _ => exact absurd hread (not_forall₂_of_text?_eq_none ho htype hnone)
      | unreadableName hfirst hnone => exact absurd hnone (hname.text?_ne_none hfirst)
      | unreadableOrganization _ _ _ _ => rfl

/-- A certificate is read by its subject. -/
theorem identity_eq_iff [Wording] {encoded : Encoded} {subject : List Attribute}
    (h : subject? encoded = some subject) (r : Except Refusal Identity) :
    identity encoded = r ↔ Reading subject r :=
  ⟨fun hr => hr ▸ reading_identity h, fun hr => (reading_identity h).unique hr⟩

theorem identity_of_unreadable [Wording] {encoded : Encoded} (h : subject? encoded = none) :
    identity encoded = .error (.malformedCertificate (Wording.certificate encoded)) := by
  rw [identity, h]
  rfl

/-- There is something to read as long as the first common name and all organizations are text. -/
theorem exists_reading_ok_iff (subject : List Attribute) :
    (∃ i, Reading subject (.ok i)) ↔
      (∀ a, subject.find? Attribute.isCommonName = some a → a.text? ≠ none) ∧
        ∀ o ∈ subject, o.isOrganization = true → o.text? ≠ none := by
  constructor
  · rintro ⟨i, hi⟩
    cases hi with
    | identity hname hread _ _ =>
        exact ⟨fun a ha => hname.text?_ne_none ha, fun o ho htype hnone =>
          not_forall₂_of_text?_eq_none ho htype hnone hread⟩
  · rintro ⟨hfirst, hall⟩
    rcases username_spec subject with ⟨name, -, hname⟩ | ⟨a, -, ha, hnone⟩
    · rcases groups_spec subject with ⟨organizations, -, hread⟩ | ⟨o, -, ho, htype, hnone⟩
      · exact ⟨.of name organizations,
          .identity hname hread rfl (firstOccurrences_eq_eraseDups organizations)⟩
      · exact absurd hnone (hall o ho htype)
    · exact absurd hnone (hfirst a ha)

/-- Only the first common name and the organizations matter. -/
theorem Reading.congr {subject subject' : List Attribute} {r : Except Refusal Identity}
    (hname : subject'.find? Attribute.isCommonName = subject.find? Attribute.isCommonName)
    (horganizations : subject'.filter Attribute.isOrganization
      = subject.filter Attribute.isOrganization)
    (h : Reading subject r) : Reading subject' r := by
  have hnames : ∀ {name}, Names subject name → Names subject' name := by
    intro name hsubject
    cases hsubject with
    | nobody hnone => exact .nobody (hname.trans hnone)
    | somebody hfirst htext => exact .somebody (hname.trans hfirst) htext
  cases h with
  | identity hsubject hread husername hgroups =>
      exact .identity (hnames hsubject) (horganizations ▸ hread) husername hgroups
  | unreadableName hfirst hnone => exact .unreadableName (hname.trans hfirst) hnone
  | unreadableOrganization hsubject ho htype hnone =>
      have hmem := List.mem_filter.mpr ⟨ho, htype⟩
      rw [← horganizations, List.mem_filter] at hmem
      exact .unreadableOrganization (hnames hsubject) hmem.1 htype hnone

/-- A certificate of ten years that says little else. -/
def Frame.plain : Frame where
  serial := [0x01]
  algorithm := [0x2A]
  issuer := []
  notBefore := [0x32, 0x34, 0x30, 0x31, 0x30, 0x31, 0x30, 0x30, 0x30, 0x30, 0x30, 0x30, 0x5A]
  notAfter := [0x33, 0x34, 0x30, 0x31, 0x30, 0x31, 0x30, 0x30, 0x30, 0x30, 0x30, 0x30, 0x5A]
  key := []
  signature := []

theorem Frame.isSound_plain : plain.IsSound :=
  ⟨by decide, by decide, by decide⟩

end Certificate

namespace Resolution

open Certificate (Attribute Encoded Entry Fits Frame IsName Names Reading subject?)

variable {σ : Type}

theorem resolve_of_identity_error [Wording] (r : Resolver σ) {request : Request} {leaf : Encoded}
    {issuers : List Encoded} (hchain : request.peerChain = some (leaf :: issuers)) {cause : Refusal}
    (h : Certificate.identity leaf = .error cause) (scope : Scope) (memory : σ) :
    r.resolve request scope memory = ⟨.error (.refused cause), ⟨scope, memory, [], []⟩⟩ := by
  refine resolve_of_refused r request scope memory cause ?_
  rw [Credential.ofRequest_of_leaf hchain]
  change Resolving.ofExcept (Certificate.identity leaf) = _
  rw [h]
  rfl

/-- A certificate that names nobody is refused for that, if it can be read. -/
theorem resolve_of_unnamed [Wording] (r : Resolver σ) {request : Request} {leaf : Encoded}
    {issuers : List Encoded} (hchain : request.peerChain = some (leaf :: issuers))
    {caller : Identity} (h : Certificate.identity leaf = .ok caller) (hname : caller.username = "")
    (scope : Scope) (memory : σ) :
    r.resolve request scope memory
      = ⟨.error (.refused .emptyUsername), ⟨scope, memory, [], []⟩⟩ := by
  refine resolve_of_nameless r request scope memory caller ⟨scope, memory, [], []⟩ ?_ hname
  rw [Credential.ofRequest_of_leaf hchain]
  change (Resolving.ofExcept (Certificate.identity leaf)).runFrom _ = _
  rw [h, Resolving.runFrom_ofExcept]
  rfl

/-- Whom a certificate names. Its subject is the list of attributes that was written there, set
    after set. Nothing but the first common name and the organizations matters, and it is read as
    long as these are text. If it names nobody, a request is refused for that if all organizations
    are text, and else because of these, whatever its headers, and nobody is asked. -/
theorem certificate_names [Wording] :
    (∀ (f : Frame) (sets : List (List Entry)), f.IsSound → IsName sets → Fits (f.encode sets) →
      subject? (f.encode sets) = some (sets.flatten.map Entry.toAttribute)) ∧
    ∀ (leaf : Encoded) (issuers : List Encoded),
      (∀ (e : Extractor) (A : Authority σ) (p : Progress σ),
        (e.extract A (.certificate (leaf :: issuers))).runFrom p
          = ((Certificate.identity leaf).mapError Stop.refused, p)) ∧
      (subject? leaf = none →
        Certificate.identity leaf
          = .error (.malformedCertificate (Wording.certificate leaf))) ∧
      ∀ subject, subject? leaf = some subject →
        (∀ result, Certificate.identity leaf = result ↔ Reading subject result) ∧
        ((∃ i, Certificate.identity leaf = .ok i) ↔
          (∀ a, subject.find? Attribute.isCommonName = some a → a.text? ≠ none) ∧
            ∀ o ∈ subject, o.isOrganization = true → o.text? ≠ none) ∧
        (∀ leaf' subject', subject? leaf' = some subject' →
          subject'.find? Attribute.isCommonName = subject.find? Attribute.isCommonName →
          subject'.filter Attribute.isOrganization = subject.filter Attribute.isOrganization →
          Certificate.identity leaf' = Certificate.identity leaf) ∧
        (Names subject "" → ∀ (r : Resolver σ) (request : Request) (scope : Scope) (memory : σ),
          request.peerChain = some (leaf :: issuers) →
          ((∀ o ∈ subject, o.isOrganization = true → o.text? ≠ none) →
            r.resolve request scope memory
              = ⟨.error (.refused .emptyUsername), ⟨scope, memory, [], []⟩⟩) ∧
          ((∃ o ∈ subject, o.isOrganization = true ∧ o.text? = none) →
            r.resolve request scope memory
              = ⟨.error (.refused
                  (.malformedCertificate "Unable to parse certificate organizations")),
                  ⟨scope, memory, [], []⟩⟩)) := by
  refine ⟨fun f sets hf hsets h => Frame.subject?_encode hf sets hsets h, fun leaf issuers =>
    ⟨fun e A p => Resolving.runFrom_ofExcept (Certificate.identity leaf) p,
      Certificate.identity_of_unreadable, fun subject hsubject =>
        ⟨Certificate.identity_eq_iff hsubject, ?_,
          fun leaf' subject' hsubject' hname horganizations => ?_,
          fun hnobody r request scope memory hchain => ⟨fun hall => ?_, ?_⟩⟩⟩⟩
  · -- A certificate is read if its subject can be.
    rw [← Certificate.exists_reading_ok_iff]
    exact exists_congr fun i => Certificate.identity_eq_iff hsubject (.ok i)
  · -- What is read of one of the two subjects is read of the other.
    exact (Certificate.identity_eq_iff hsubject' _).mpr
      ((Certificate.reading_identity hsubject).congr hname horganizations)
  · -- All organizations are text, so nothing but the name is missing.
    rcases Certificate.groups_spec subject with
      ⟨organizations, -, hread⟩ | ⟨o, -, ho, htype, hnone⟩
    · have hidentity : Certificate.identity leaf = .ok (.of "" organizations) :=
        (Certificate.identity_eq_iff hsubject _).mpr
          (.identity hnobody hread rfl (firstOccurrences_eq_eraseDups organizations))
      exact resolve_of_unnamed r hchain hidentity rfl scope memory
    · exact absurd hnone (hall o ho htype)
  · rintro ⟨o, ho, htype, hnone⟩
    exact resolve_of_identity_error r hchain ((Certificate.identity_eq_iff hsubject _).mpr
      (.unreadableOrganization hnobody ho htype hnone)) scope memory

/-- An organization that comes before the name and again after it, beside a second name that is no
    text; and a certificate with this organization alone. -/
theorem certificate_names_mixed :
    let _ : Wording := .own
    let organization : Entry := ⟨Attribute.organization, 0x0C, [0x65, 0x6E, 0x67]⟩
    let name : Entry := ⟨Attribute.commonName, 0x0C, [0x62, 0x6F, 0x62]⟩
    let other : Entry := ⟨Attribute.commonName, 0x14, [0x78]⟩
    let r : Resolver Script := ⟨⟨"sub", .trusting⟩, .scripted⟩
    let unnamed := Frame.plain.encode [[organization]]
    Certificate.identity (Frame.plain.encode [[organization, name], [other], [organization]])
        = .ok ⟨"bob", ["eng"], by decide⟩ ∧
      r.resolve ⟨"GET", "/", [], some [unnamed]⟩ .unbounded ⟨[], []⟩
        = ⟨.error (.refused .emptyUsername), ⟨.unbounded, ⟨[], []⟩, [], []⟩⟩ := by
  intro _ organization name other r unnamed
  rcases certificate_names (σ := Script) with ⟨hencode, hnames⟩
  have hnamed := (hnames _ []).2.2 _ (hencode .plain [[organization, name], [other], [organization]]
    Frame.isSound_plain (by decide) (by decide +kernel))
  have hunnamed := (hnames unnamed []).2.2 _ (hencode .plain [[organization]] Frame.isSound_plain
    (by decide) (by decide +kernel))
  have hname : name.toAttribute.text? = some "bob" := by decide +kernel
  have heng : organization.toAttribute.text? = some "eng" := by decide +kernel
  refine ⟨(hnamed.1 _).mpr (.identity (.somebody rfl hname) (.cons heng (.cons heng .nil)) rfl
    (by decide)), ?_⟩
  · refine (hunnamed.2.2.2 (.nobody rfl) r _ .unbounded ⟨[], []⟩ rfl).1 fun o ho _ => ?_
    rw [List.mem_singleton.mp ho, heng]
    exact Option.some_ne_none _

/-- A certificate without a common name whose organization is no text is not refused for its empty
    name. -/
theorem not_always_emptyUsername :
    let _ : Wording := .own
    ¬ ∀ (leaf : Encoded) (subject : List Attribute) (r : Resolver Script) (request : Request)
      (scope : Scope) (memory : Script), subject? leaf = some subject →
        subject.find? Attribute.isCommonName = none → request.peerChain = some [leaf] →
          (r.resolve request scope memory).result = .error (.refused .emptyUsername) := by
  intro _ h
  let organization : Entry := ⟨Attribute.organization, 0x14, [0x32, 0x31]⟩
  let r : Resolver Script := ⟨⟨"sub", .trusting⟩, .scripted⟩
  have hsubject := Frame.subject?_encode Frame.isSound_plain [[organization]] (by decide)
    (by decide +kernel)
  have hidentity := (Certificate.identity_eq_iff hsubject _).mpr
    (.unreadableOrganization (o := organization.toAttribute) (.nobody rfl)
      (List.mem_singleton.mpr rfl) rfl rfl)
  have hresult := h _ _ r ⟨"GET", "/", [], some [Frame.plain.encode [[organization]]]⟩ .unbounded
    ⟨[], []⟩ hsubject rfl rfl
  rw [resolve_of_identity_error r rfl hidentity] at hresult
  exact absurd hresult (by decide)

end Resolution

end ForwardAuth
