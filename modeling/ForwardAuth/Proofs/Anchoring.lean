import ForwardAuth.Configuration.Reading
import ForwardAuth.Proofs.Directories
import Mathlib.Data.Option.Basic

/-!
# Configurations with anchored paths

A configuration file names other files in seven settings, three of the listener and four of the
authority's client, and most of these may be left out. When the file is read, the paths in them are
taken from the directory of the file. Nothing else of what the text says may change on the way, and
no path may be forgotten.

`path?` gathers the seven settings, and `SameBesidePaths` everything that is not among them. The two
make up a configuration, so that what happens to it can be said of each in turn: the one is anchored
and the other stays.

A file that is read by a path from the root is read the same way wherever the program is started,
and so are the files that it names: all their paths start at the root then.

## Main definitions

* `PathField`, `path?`: The settings that are paths, and the paths that they have.
* `SameBesidePaths`: Two configurations agree in everything but their paths.

## Theorems

* `eq_of_path?_eq`: A configuration is made up of its paths and the rest.
* `path?_anchor`: What anchoring does to the paths.
* `load_eq_ok_iff`: What is loaded from a file.
* `load_anchors_paths`: Loading anchors the paths and changes nothing else.
-/

namespace ForwardAuth.Configuration

open ForwardAuth.Path (InDirectory Anchored isAbsolute directory)

/-- The settings of a configuration that are paths. -/
inductive PathField where
  | certificateBundle
  | privateKey
  | clientCaBundle
  | bearerTokenFile
  | serverCaBundle
  | clientCertificate
  | clientPrivateKey
  deriving DecidableEq, Repr

/-- The path that a setting has, unless it is left out. -/
def path? (c : Configuration) : PathField → Option String
  | .certificateBundle => c.server.tls.map Tls.certificateBundle
  | .privateKey => c.server.tls.map Tls.privateKey
  | .clientCaBundle => c.server.tls.bind Tls.clientCaBundle
  | .bearerTokenFile => c.authority.bearerTokenFile
  | .serverCaBundle => c.authority.serverCaBundle
  | .clientCertificate => c.authority.clientCertificate
  | .clientPrivateKey => c.authority.clientPrivateKey

/-- The configurations agree in all settings but those that are paths. -/
structure SameBesidePaths (c d : Configuration) : Prop where
  bindAddress : d.server.bindAddress = c.server.bindAddress
  port : d.server.port = c.server.port
  queryTimeout : d.server.queryTimeout = c.server.queryTimeout
  gracePeriod : d.server.gracePeriod = c.server.gracePeriod
  resolveTimeout : d.server.resolveTimeout = c.server.resolveTimeout
  workerThreads : d.workerThreads = c.workerThreads
  usernameClaim : d.usernameClaim = c.usernameClaim
  url : d.authority.url = c.authority.url
  timeout : d.authority.timeout = c.authority.timeout
  observability : d.observability = c.observability

theorem tls_eq_of_path?_eq {c d : Configuration} (h : ∀ field, d.path? field = c.path? field) :
    d.server.tls = c.server.tls := by
  have hbundle := h .certificateBundle
  have hkey := h .privateKey
  have hroots := h .clientCaBundle
  simp only [path?] at hbundle hkey hroots
  rcases hc : c.server.tls with _ | tc
  · rw [hc, Option.map_none] at hbundle
    exact Option.map_eq_none_iff.mp hbundle
  · rcases hd : d.server.tls with _ | td
    · rw [hc, hd] at hbundle
      cases hbundle
    · rw [hc, hd] at hbundle hkey hroots
      rcases tc with ⟨bundle, key, roots⟩
      rcases td with ⟨bundle', key', roots'⟩
      cases hbundle
      cases hkey
      cases hroots
      rfl

/-- A configuration is made up of its paths and of what it agrees in with others beside them. -/
theorem eq_of_path?_eq {c d : Configuration} (hsame : c.SameBesidePaths d)
    (h : ∀ field, d.path? field = c.path? field) : d = c := by
  have htls := tls_eq_of_path?_eq h
  have htoken := h .bearerTokenFile
  have hroots := h .serverCaBundle
  have hcertificate := h .clientCertificate
  have hkey := h .clientPrivateKey
  rcases hsame with ⟨haddress, hport, hquery, hgrace, hresolve, hthreads, hclaim, hurl, htimeout,
    hobservability⟩
  rcases c with ⟨⟨_, _, _, _, _, _⟩, _, _, ⟨_, _, _, _, _, _⟩, _⟩
  rcases d with ⟨⟨_, _, _, _, _, _⟩, _, _, ⟨_, _, _, _, _, _⟩, _⟩
  cases haddress; cases hport; cases hquery; cases hgrace; cases hresolve; cases htls
  cases hthreads; cases hclaim; cases hobservability
  cases hurl; cases htimeout; cases htoken; cases hroots; cases hcertificate; cases hkey
  rfl

theorem sameBesidePaths_anchor (base : String) (c : Configuration) :
    c.SameBesidePaths (c.anchor base) :=
  ⟨rfl, rfl, rfl, rfl, rfl, rfl, rfl, rfl, rfl, rfl⟩

/-- Anchoring takes every path from the directory, and adds none. -/
theorem path?_anchor (base : String) (c : Configuration) (field : PathField) :
    (c.anchor base).path? field = (c.path? field).map (Path.anchor base) := by
  cases field with
  | certificateBundle | privateKey | clientCaBundle =>
      simp only [path?, anchor]
      cases c.server.tls with
      | none => rfl
      | some tls => rfl
  | bearerTokenFile | serverCaBundle | clientCertificate | clientPrivateKey => rfl

theorem load_of_text [Wording] {files : Files} {path text : String}
    (h : files.text path = .ok text) :
    load files path = (parse text).map (anchor (directory path)) := by
  rw [load, h]
  change (parse text >>= fun c => pure (c.anchor (directory path))) = _
  rcases parse text with e | c
  · rfl
  · rfl

/-- What is loaded is the configuration in the text of the file, anchored at its directory. -/
theorem load_eq_ok_iff [Wording] {files : Files} {path : String} {d : Configuration} :
    load files path = .ok d ↔ ∃ text c, files.text path = .ok text ∧ parse text = .ok c ∧
      d = c.anchor (directory path) := by
  constructor
  · intro h
    rcases htext : files.text path with reason | text
    · rw [load, htext] at h
      cases h
    · rw [load_of_text htext] at h
      rcases hparse : parse text with e | c
      · rw [hparse] at h
        cases h
      · rw [hparse] at h
        exact ⟨text, c, rfl, hparse, (Except.ok.inj h).symm⟩
  · rintro ⟨text, c, htext, hparse, rfl⟩
    rw [load_of_text htext, hparse]
    rfl

/-- The file itself was found by a path from the root, so the paths in it lead on from there. -/
theorem isAbsolute_of_load [Wording] {files : Files} {path : String} {d : Configuration}
    {field : PathField} {p : String} (hpath : isAbsolute path = true) (h : load files path = .ok d)
    (hp : d.path? field = some p) : isAbsolute p = true := by
  rcases load_eq_ok_iff.mp h with ⟨text, c, -, -, rfl⟩
  rw [path?_anchor, Option.map_eq_some_iff] at hp
  rcases hp with ⟨written, -, rfl⟩
  rw [Path.isAbsolute_anchor, Path.isAbsolute_directory, hpath, Bool.or_true]

/-- Loading a configuration file takes the paths in it from the directory of the file and changes
    nothing else. A setting that is left out stays so, a path that starts at the root stays what it
    is, and any other one is put behind the directory. A path that is taken from a directory starts
    at the root if one of the two does, and if the directory does, taking it from anywhere again
    changes nothing. So a file that is loaded by a path from the root gives the same configuration
    wherever the program is started, and all its paths lead to the same files from there. -/
theorem load_anchors_paths [Wording] (files : Files) (path : String) :
    (∃ dir, InDirectory dir path ∧ (∀ other, InDirectory other path → other = dir) ∧
      ∀ text c, files.text path = .ok text → parse text = .ok c →
        ∃ d, load files path = .ok d ∧ c.SameBesidePaths d ∧
          (∀ field, Option.Rel (Anchored dir) (c.path? field) (d.path? field)) ∧
          ∀ d', c.SameBesidePaths d' → (∀ field, d'.path? field = d.path? field) → d' = d) ∧
    (∀ base p q, Path.anchor base p = q ↔ Anchored base p q) ∧
    (∀ base p, isAbsolute (Path.anchor base p) = true ↔
      isAbsolute p = true ∨ isAbsolute base = true) ∧
    (∀ base, isAbsolute base = true → ∀ other p,
      Path.anchor base (Path.anchor base p) = Path.anchor base p ∧
      Path.anchor other (Path.anchor base p) = Path.anchor base p) ∧
    (isAbsolute path = true → ∀ elsewhere : Files,
      (∀ p, isAbsolute p = true → elsewhere p = files p) →
      load elsewhere path = load files path ∧
      ∀ d, load files path = .ok d → ∀ field p, d.path? field = some p →
        isAbsolute p = true ∧ elsewhere p = files p ∧ ∀ base, Path.anchor base p = p) := by
  refine ⟨⟨directory path, Path.directory_eq_iff.mp rfl,
    fun other h => (Path.directory_eq_iff.mpr h).symm, fun text c htext hparse => ?_⟩,
    fun _ _ _ => Path.anchor_eq_iff, fun base p => ?_,
    fun base hbase other p => ⟨Path.anchor_anchor hbase base p, Path.anchor_anchor hbase other p⟩,
    fun hpath elsewhere hagree => ?_⟩
  · refine ⟨c.anchor (directory path), load_eq_ok_iff.mpr ⟨text, c, htext, hparse, rfl⟩,
      sameBesidePaths_anchor _ c, fun field => ?_, fun d' hsame hpaths => ?_⟩
    · rw [path?_anchor]
      cases c.path? field with
      | none => exact .none
      | some p => exact .some (Path.anchor_eq_iff.mp rfl)
    · exact eq_of_path?_eq ⟨hsame.bindAddress, hsame.port, hsame.queryTimeout, hsame.gracePeriod,
        hsame.resolveTimeout, hsame.workerThreads, hsame.usernameClaim, hsame.url, hsame.timeout,
        hsame.observability⟩ hpaths
  · rw [Path.isAbsolute_anchor, Bool.or_eq_true]
  · refine ⟨?_, fun d hd field p hp => ?_⟩
    · rw [load, load, Files.text, Files.text, hagree path hpath]
    · have habsolute := isAbsolute_of_load hpath hd hp
      exact ⟨habsolute, hagree p habsolute, Path.anchor_of_isAbsolute habsolute⟩

/-- A file two directories below the root names one file from there, another from the root, and no
    certificate of the client. -/
theorem load_anchors_paths_of_nested :
    let _ : Wording := .own
    let path := "/etc/./gate/config.toml"
    let text := "[server]\nbind_address = '::1'\n[authority]\nurl = 'http://authority'\n" ++
      "bearer_token_file = '../token'\nserver_ca_bundle = '/ca.pem'\n"
    let files : Files := fun p =>
      if p = path then .ok text.toUTF8.data.toList else .error .noSuchFile
    ∃ d, load files path = .ok d ∧ d.path? .bearerTokenFile = some "/etc/./gate/../token" ∧
      d.path? .serverCaBundle = some "/ca.pem" ∧ d.path? .clientCertificate = none ∧
      Path.anchor "/srv" "/etc/./gate/../token" = "/etc/./gate/../token" := by
  intro _ path text files
  have htext : files.text path = .ok text := by decide +kernel
  have hpaths : (parse text).toOption.map
      (fun c => (c.path? .bearerTokenFile, c.path? .serverCaBundle, c.path? .clientCertificate))
      = some (some "../token", some "/ca.pem", none) := by decide +kernel
  have hdir : InDirectory "/etc/./gate" path :=
    @InDirectory.under "/etc/." "gate" "config.toml" (by decide) (by decide) (by decide)
  rcases load_anchors_paths files path with ⟨⟨dir, -, hunique, hload⟩, hanchor, -, -, habsolute⟩
  rcases hparse : parse text with e | c
  · rw [hparse] at hpaths
    cases hpaths
  · rw [hparse] at hpaths
    simp only [Except.toOption, Option.map_some, Option.some.injEq, Prod.mk.injEq] at hpaths
    rcases hpaths with ⟨htoken, hroots, hcertificate⟩
    rcases hload text c htext hparse with ⟨d, hd, -, hrel, -⟩
    have hvalue : ∀ {field p q}, c.path? field = some p → Path.anchor "/etc/./gate" p = q →
        d.path? field = some q := by
      intro field p q hp hq
      have hfield := hrel field
      rw [hp, ← hunique _ hdir] at hfield
      generalize d.path? field = found at hfield ⊢
      cases hfield with
      | some h => rw [← (hanchor _ _ _).mpr h, hq]
    have hkept := hvalue htoken (q := "/etc/./gate/../token") (by decide +kernel)
    refine ⟨d, hd, hkept, hvalue hroots (by decide +kernel), ?_,
      ((habsolute (by decide) files fun _ _ => rfl).2 d hd _ _ hkept).2.2 "/srv"⟩
    have hfield := hrel .clientCertificate
    rw [hcertificate] at hfield
    generalize d.path? .clientCertificate = found at hfield ⊢
    cases hfield
    rfl

end ForwardAuth.Configuration
