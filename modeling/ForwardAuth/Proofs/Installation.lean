import ForwardAuth.Server.Basic
import Mathlib.Data.List.TakeWhile

/-!
# What a configuration installs

Before a server takes a configuration it puts together what it needs from it: the context that
requests are resolved with, and the credentials of its listener. This takes many steps, each of
which may fail. What comes out if none of them does is described here without them, by where each
part of it is found, in the configuration or in a file that it names.

Each function that puts something together is then an equivalence: it gives exactly what follows the
configuration. So a statement about a server that takes a configuration can say what it has
afterwards, and need not name the functions that make it.

## Main definitions

* `Tls.CertificatesAt`, `Tls.KeyAt`: What the file at a path holds.
* `Tls.Credentials.Follow`: Credentials are those in two files.
* `Tls.Acceptor.Follows`, `Tls.Connector.Follows`: How connections are secured is what the files
  say.
* `Review.Client.Follows`: A client is what its settings and files say.
* `Server.Context.Follows`: A context is what a configuration and its files say.

## Theorems

* `bind_eq_ok_iff`, `optional_eq_ok_iff`: How computations succeed.
* `Tls.Acceptor.ofFiles_eq_ok_iff`, `Tls.Connector.ofFiles_eq_ok_iff`: How connections are secured.
* `Review.Settings.check_eq_ok_iff`: Which settings can be used.
* `Review.Client.dropSlashes_eq_iff`: The address without the slashes at its end.
* `Review.Client.ofFiles_eq_ok_iff`: The client that is set up is the one that follows the settings.
* `Server.Context.ofConfiguration_eq_ok_iff`, `Server.secure_eq_ok_iff`: The same for the parts of a
  server.
-/

namespace ForwardAuth

/-! ## How computations succeed -/

section Computations

variable {ε ε' α β : Type}

theorem bind_eq_ok_iff {x : Except ε α} {f : α → Except ε β} {b : β} :
    (x >>= f) = .ok b ↔ ∃ a, x = .ok a ∧ f a = .ok b := by
  rcases x with e | a
  · exact ⟨fun h => (nomatch h), fun ⟨_, h, _⟩ => (nomatch h)⟩
  · exact ⟨fun h => ⟨a, rfl, h⟩, fun ⟨_, ha, h⟩ => Except.ok.inj ha ▸ h⟩

theorem mapError_eq_ok_iff {x : Except ε α} {f : ε → ε'} {a : α} :
    x.mapError f = .ok a ↔ x = .ok a := by
  rcases x with e | b
  · exact ⟨fun h => (nomatch h), fun h => (nomatch h)⟩
  · exact ⟨fun h => congrArg _ (Except.ok.inj h), fun h => congrArg _ (Except.ok.inj h)⟩

theorem elim_eq_ok_iff {x : Option α} {e : ε} {a : α} :
    x.elim (throw e) pure = (.ok a : Except ε α) ↔ x = some a := by
  rcases x with _ | b
  · exact ⟨fun h => (nomatch h), fun h => (nomatch h)⟩
  · exact ⟨fun h => congrArg _ (Except.ok.inj h), fun h => congrArg _ (Option.some.inj h)⟩

/-- What is left out stays so, and what is given is put together. -/
theorem optional_eq_ok_iff {f : α → Except ε β} {x : Option α} {y : Option β} :
    x.mapM f = .ok y ↔ Option.Rel (fun a b => f a = .ok b) x y := by
  rcases x with _ | a
  · refine ⟨fun h => Except.ok.inj h ▸ .none, fun h => ?_⟩
    cases h
    rfl
  · change (f a).map some = .ok y ↔ _
    rcases hf : f a with e | b
    · refine ⟨fun h => (nomatch h), fun h => ?_⟩
      cases h with
      | some h => exact (nomatch hf.symm.trans h)
    · refine ⟨fun h => Except.ok.inj h ▸ .some hf, fun h => ?_⟩
      cases h with
      | some h =>
          rw [Except.ok.inj (hf.symm.trans h)]
          rfl

/-- What is made of the parts that are given, in two steps. -/
theorem optionRel_map_iff {γ : Type} {R : α → β → Prop} {g : β → γ} {x : Option α}
    {y : Option γ} :
    Option.Rel (fun a c => ∃ b, R a b ∧ c = g b) x y ↔ ∃ z, Option.Rel R x z ∧ y = z.map g := by
  constructor
  · intro h
    cases h with
    | none => exact ⟨none, .none, rfl⟩
    | some h =>
        rcases h with ⟨b, hb, rfl⟩
        exact ⟨some b, .some hb, rfl⟩
  · rintro ⟨z, hz, rfl⟩
    cases hz with
    | none => exact .none
    | some h => exact .some ⟨_, h, rfl⟩

end Computations

/-! ## How connections are secured -/

namespace Tls

/-- The certificates in the file at a path. -/
def CertificatesAt (files : Files) (path : String) (certificates : List Certificate.Encoded) :
    Prop :=
  ∃ file, files path = .ok file ∧ Pem.all? .certificate file = some certificates

/-- The first private key in the file at a path. -/
def KeyAt (files : Files) (path : String) (key : Section) : Prop :=
  ∃ file, files path = .ok file ∧ Pem.first? PrivateKey.sectionKinds file = some key

/-- The credentials are those in two files, and the key is that of the first certificate. -/
structure Credentials.Follow (files : Files) (certificate key : String) (x : Credentials) :
    Prop where
  chain : CertificatesAt files certificate x.chain
  key : KeyAt files key x.key
  own : ∃ own issuers shown, x.chain = own :: issuers ∧
    CertificateForm.publicKey? own = some shown ∧ PrivateKey.publicKey? x.key = some shown

/-- The listener shows the certificates of its files. It asks clients for theirs if it names roots
    for them, all of which are good, and there is one at least. -/
structure Acceptor.Follows (files : Files) (tls : Configuration.Tls) (a : Acceptor) : Prop where
  credentials : a.credentials.Follow files tls.certificateBundle tls.privateKey
  clientRoots : Option.Rel
    (fun path roots => CertificatesAt files path roots ∧ roots ≠ [] ∧
      ∀ root ∈ roots, CertificateForm.isRoot root = true)
    tls.clientCaBundle a.clientRoots

/-- What a client shows that may name the files of a certificate and of its key. -/
inductive Shown (files : Files) : Option String → Option String → Option Credentials → Prop where
  | nothing : Shown files none none none
  | credentials {certificate key : String} {x : Credentials} (h : x.Follow files certificate key) :
      Shown files (some certificate) (some key) (some x)

/-- The client of the authority trusts the good ones of the roots that it names, if it does, and
    shows the certificates of its files, if it names any. -/
structure Connector.Follows (files : Files) (s : Review.Settings) (c : Connector) : Prop where
  roots : Option.Rel
    (fun path roots => ∃ certificates, CertificatesAt files path certificates ∧
      roots = certificates.filter CertificateForm.isRoot)
    s.serverCaBundle c.roots
  credentials : Shown files s.clientCertificate s.clientPrivateKey c.credentials

theorem readFile_eq_ok_iff {files : Files} {path : String} {file : List UInt8} :
    readFile files path = .ok file ↔ files path = .ok file :=
  mapError_eq_ok_iff

theorem readCertificates_eq_ok_iff {files : Files} {path : String}
    {certificates : List Certificate.Encoded} :
    readCertificates files path = .ok certificates ↔ CertificatesAt files path certificates := by
  simp only [readCertificates, bind_eq_ok_iff, readFile_eq_ok_iff, elim_eq_ok_iff, CertificatesAt]

theorem readPrivateKey_eq_ok_iff {files : Files} {path : String} {key : Section} :
    readPrivateKey files path = .ok key ↔ KeyAt files path key := by
  simp only [readPrivateKey, bind_eq_ok_iff, readFile_eq_ok_iff, elim_eq_ok_iff, KeyAt]

theorem Credentials.of_eq_ok_iff {chain : List Certificate.Encoded} {key : Section}
    {x : Credentials} : Credentials.of chain key = .ok x ↔
      x = ⟨chain, key⟩ ∧ ∃ own issuers shown, chain = own :: issuers ∧
        CertificateForm.publicKey? own = some shown ∧ PrivateKey.publicKey? key = some shown := by
  simp only [Credentials.of, bind_eq_ok_iff, elim_eq_ok_iff]
  rcases chain with _ | ⟨own, issuers⟩
  · exact ⟨fun ⟨_, _, h⟩ => (nomatch h), fun ⟨_, _, _, _, h, _⟩ => (nomatch h)⟩
  · simp only [bind_eq_ok_iff, elim_eq_ok_iff]
    constructor
    · rintro ⟨expected, hexpected, found, hfound, h⟩
      by_cases hsame : found = expected
      · rw [if_pos hsame] at h
        exact ⟨(Except.ok.inj h).symm, own, issuers, expected, rfl, hsame ▸ hfound, hexpected⟩
      · rw [if_neg hsame] at h
        cases h
    · rintro ⟨rfl, _, _, shown, ⟨⟩, hfound, hexpected⟩
      exact ⟨shown, hexpected, shown, hfound, if_pos rfl⟩

/-- Credentials can be read from two files exactly if they follow them. -/
theorem Credentials.follow_iff {files : Files} {certificate key : String} {x : Credentials} :
    x.Follow files certificate key ↔
      ∃ chain sect, CertificatesAt files certificate chain ∧ KeyAt files key sect ∧
        Credentials.of chain sect = .ok x := by
  constructor
  · intro h
    exact ⟨x.chain, x.key, h.chain, h.key, of_eq_ok_iff.mpr ⟨rfl, h.own⟩⟩
  · rintro ⟨chain, sect, hchain, hsect, h⟩
    rcases of_eq_ok_iff.mp h with ⟨rfl, hown⟩
    exact ⟨hchain, hsect, hown⟩

theorem readClientRoots_eq_ok_iff {files : Files} {path : String}
    {roots : List Certificate.Encoded} :
    readClientRoots files path = .ok roots ↔ CertificatesAt files path roots ∧ roots ≠ [] ∧
      ∀ root ∈ roots, CertificateForm.isRoot root = true := by
  simp only [readClientRoots, bind_eq_ok_iff, readCertificates_eq_ok_iff]
  constructor
  · rintro ⟨found, hfound, h⟩
    rcases hbad : found.find? (fun root => !CertificateForm.isRoot root) with _ | bad
    · simp only [hbad] at h
      by_cases hempty : found.isEmpty = true
      · rw [if_pos hempty] at h
        cases h
      · rw [if_neg hempty] at h
        cases h
        refine ⟨hfound, fun hnil => hempty (by rw [hnil]; rfl), fun root hroot => ?_⟩
        have hgood := List.find?_eq_none.mp hbad root hroot
        rwa [Bool.not_eq_true', Bool.not_eq_false] at hgood
    · simp only [hbad] at h
      cases h
  · rintro ⟨hroots, hne, hall⟩
    have hgood : roots.find? (fun root => !CertificateForm.isRoot root) = none :=
      List.find?_eq_none.mpr fun root hroot => by rw [hall root hroot]; exact Bool.false_ne_true
    refine ⟨roots, hroots, ?_⟩
    simp only [hgood]
    exact if_neg fun hempty => hne (List.isEmpty_iff.mp hempty)

/-- A listener is secured exactly as its files say. -/
theorem Acceptor.ofFiles_eq_ok_iff {files : Files} {tls : Configuration.Tls} {a : Acceptor} :
    Acceptor.ofFiles files tls = .ok a ↔ a.Follows files tls := by
  simp only [Acceptor.ofFiles, bind_eq_ok_iff, readCertificates_eq_ok_iff,
    readPrivateKey_eq_ok_iff, optional_eq_ok_iff, readClientRoots_eq_ok_iff]
  constructor
  · rintro ⟨chain, hchain, sect, hsect, roots, hroots, credentials, hcredentials, h⟩
    cases h
    exact ⟨Credentials.follow_iff.mpr ⟨chain, sect, hchain, hsect, hcredentials⟩, hroots⟩
  · rintro ⟨hfollow, hroots⟩
    rcases Credentials.follow_iff.mp hfollow with ⟨chain, sect, hchain, hsect, hcredentials⟩
    exact ⟨chain, hchain, sect, hsect, _, hroots, _, hcredentials, rfl⟩

theorem shown_some_iff {files : Files} {certificate key : String} {shown : Option Credentials} :
    Shown files (some certificate) (some key) shown ↔
      ∃ x : Credentials, x.Follow files certificate key ∧ shown = some x := by
  constructor
  · rintro (_ | h)
    exact ⟨_, h, rfl⟩
  · rintro ⟨x, h, rfl⟩
    exact .credentials h

/-- The client of the authority secures its connections exactly as its files say. -/
theorem Connector.ofFiles_eq_ok_iff [Wording] {files : Files} {s : Review.Settings}
    {c : Connector} : Connector.ofFiles files s = .ok c ↔ c.Follows files s := by
  have hfollows : c.Follows files s ↔ (∃ roots,
      Option.Rel (CertificatesAt files) s.serverCaBundle roots ∧
        c.roots = roots.map fun rs => rs.filter CertificateForm.isRoot) ∧
      Shown files s.clientCertificate s.clientPrivateKey c.credentials := by
    rw [← optionRel_map_iff]
    exact ⟨fun h => ⟨h.roots, h.credentials⟩, fun h => ⟨h.1, h.2⟩⟩
  rw [hfollows]
  rcases hcertificate : s.clientCertificate with _ | certificate <;>
    rcases hkey : s.clientPrivateKey with _ | key <;>
    simp only [Connector.ofFiles, hcertificate, hkey, bind_eq_ok_iff, optional_eq_ok_iff,
      mapError_eq_ok_iff, readCertificates_eq_ok_iff, readPrivateKey_eq_ok_iff]
  · constructor
    · rintro ⟨roots, hroots, _, h, hc⟩
      cases h
      cases hc
      exact ⟨⟨roots, hroots, rfl⟩, .nothing⟩
    · rintro ⟨⟨roots, hroots, hc⟩, h⟩
      rcases c with ⟨found, credentials⟩
      cases h
      exact ⟨roots, hroots, none, rfl, by rw [← hc]; rfl⟩
  -- One without the other is refused, and nothing is shown for it.
  · exact ⟨fun ⟨_, _, _, h, _⟩ => (nomatch h), fun ⟨_, h⟩ => (nomatch h)⟩
  · exact ⟨fun ⟨_, _, _, h, _⟩ => (nomatch h), fun ⟨_, h⟩ => (nomatch h)⟩
  · rw [shown_some_iff]
    constructor
    · rintro ⟨roots, hroots, chain, hchain, sect, hsect, x, hx, _, h, hc⟩
      cases h
      cases hc
      exact ⟨⟨roots, hroots, rfl⟩, x,
        Credentials.follow_iff.mpr ⟨chain, sect, hchain, hsect, hx⟩, rfl⟩
    · rintro ⟨⟨roots, hroots, hc⟩, x, hfollow, hx⟩
      rcases Credentials.follow_iff.mp hfollow with ⟨chain, sect, hchain, hsect, hof⟩
      rcases c with ⟨found, credentials⟩
      exact ⟨roots, hroots, chain, hchain, sect, hsect, x, hof, some x, rfl,
        by rw [← hc, ← show credentials = some x from hx]; rfl⟩

end Tls

/-! ## The authority's client -/

namespace Review

/-- The settings can be used: a certificate is given with its key, and the address is one of
    HTTP. -/
structure Settings.Usable (s : Settings) : Prop where
  paired : s.clientCertificate.isSome = s.clientPrivateKey.isSome
  address : ∃ u, Uri.parse? s.url = some u ∧ (u.scheme = some .http ∨ u.scheme = some .https)

/-- The text is the address without all the slashes that it ends with. -/
def Unslashed (url base : String) : Prop :=
  ∃ slashes, url.toList = base.toList ++ slashes ∧ (∀ c ∈ slashes, c = '/') ∧
    base.toList.getLast? ≠ some '/'

/-- The client is what its settings and the files that they name say. -/
structure Client.Follows (files : Files) (s : Settings) (c : Client) : Prop where
  usable : s.Usable
  baseUrl : Unslashed s.url c.baseUrl
  bearerToken : Option.Rel
    (fun path token => ∃ text, files.text path = .ok text ∧ token = Text.trim text)
    s.bearerTokenFile c.bearerToken
  timeout : c.timeout = s.timeout
  connector : c.connector.Follows files s

theorem Settings.isHttp_iff {u : Uri} :
    isHttp u = true ↔ u.scheme = some .http ∨ u.scheme = some .https := by
  rw [isHttp, Bool.or_eq_true, beq_iff_eq, beq_iff_eq]

theorem Settings.check_eq_ok_iff [Wording] {s : Settings} : s.check = .ok () ↔ s.Usable := by
  rw [check]
  by_cases hpaired : s.clientCertificate.isSome = s.clientPrivateKey.isSome
  · rw [if_neg (not_not.mpr hpaired)]
    rcases hurl : Uri.parse? s.url with _ | u
    · refine ⟨fun h => (nomatch h), fun h => ?_⟩
      rcases h.address with ⟨u, hu, -⟩
      exact (nomatch hurl.symm.trans hu)
    · by_cases hhttp : isHttp u = true
      · exact ⟨fun _ => ⟨hpaired, u, hurl, isHttp_iff.mp hhttp⟩, fun _ => if_pos hhttp⟩
      · refine ⟨fun h => (nomatch (if_neg hhttp).symm.trans h), fun h => ?_⟩
        rcases h.address with ⟨u', hu', hscheme⟩
        rw [Option.some.inj (hurl.symm.trans hu')] at hhttp
        exact absurd (isHttp_iff.mpr hscheme) hhttp
  · rw [if_pos hpaired]
    exact ⟨fun h => (nomatch h), fun h => absurd h.paired hpaired⟩

/-- Dropping slashes takes all of them off the end of an address. -/
theorem Client.dropSlashes_eq_iff {url base : String} :
    dropSlashes url = base ↔ Unslashed url base := by
  constructor
  · rintro rfl
    refine ⟨(url.toList.reverse.takeWhile (· == '/')).reverse, ?_, fun c hc => ?_, fun hlast => ?_⟩
    · rw [dropSlashes, String.toList_ofList, ← List.reverse_append, List.takeWhile_append_dropWhile,
        List.reverse_reverse]
    · have hslash := List.mem_takeWhile_imp (List.mem_reverse.mp hc)
      exact beq_iff_eq.mp hslash
    · have hfirst := List.head?_dropWhile_not (· == '/') url.toList.reverse
      rw [dropSlashes, String.toList_ofList, List.getLast?_reverse] at hlast
      rw [hlast] at hfirst
      exact absurd hfirst (by decide)
  · rintro ⟨slashes, hurl, hslashes, hlast⟩
    refine String.toList_injective ?_
    rw [dropSlashes, String.toList_ofList, hurl, List.reverse_append,
      List.dropWhile_append_of_pos fun c hc =>
        beq_iff_eq.mpr (hslashes c (List.mem_reverse.mp hc))]
    -- What is left begins, read backwards, with something else.
    have hkept : base.toList.reverse.dropWhile (· == '/') = base.toList.reverse := by
      refine List.dropWhile_eq_self_iff.mpr fun hpos hfirst => hlast ?_
      rw [← List.head?_reverse, List.head?_eq_getElem?, List.getElem?_eq_getElem hpos,
        beq_iff_eq.mp hfirst]
    rw [hkept, List.reverse_reverse]

theorem Client.readToken_eq_ok_iff {files : Files} {path token : String} :
    readToken files path = .ok token ↔
      ∃ text, files.text path = .ok text ∧ token = Text.trim text := by
  rw [readToken]
  rcases files.text path with reason | text
  · exact ⟨fun h => (nomatch h), fun ⟨_, h, _⟩ => (nomatch h)⟩
  · exact ⟨fun h => ⟨text, rfl, (Except.ok.inj h).symm⟩,
      fun ⟨_, ht, h⟩ => by rw [h, ← Except.ok.inj ht]; rfl⟩

/-- The client that is set up is the one that follows its settings. -/
theorem Client.ofFiles_eq_ok_iff [Wording] {files : Files} {s : Settings} {c : Client} :
    Client.ofFiles files s = .ok c ↔ c.Follows files s := by
  simp only [Client.ofFiles, bind_eq_ok_iff, optional_eq_ok_iff, readToken_eq_ok_iff,
    Tls.Connector.ofFiles_eq_ok_iff]
  constructor
  · rintro ⟨⟨⟩, hcheck, token, htoken, connector, hconnector, h⟩
    cases h
    exact ⟨Settings.check_eq_ok_iff.mp hcheck, dropSlashes_eq_iff.mp rfl, htoken, rfl, hconnector⟩
  · rintro ⟨husable, hbase, htoken, htimeout, hconnector⟩
    refine ⟨(), Settings.check_eq_ok_iff.mpr husable, _, htoken, _, hconnector, ?_⟩
    rw [dropSlashes_eq_iff.mpr hbase, ← htimeout]
    rfl

end Review

/-! ## The server -/

namespace Server

/-- The context is what a configuration and the files that it names say, for a server that lives for
    a lifetime. Structured tokens are not checked once more. -/
structure Context.Follows (files : Files) (c : Configuration) (life : Lifetime) (x : Context) :
    Prop where
  usernameClaim : x.extractor.usernameClaim = c.usernameClaim
  verifier : ∀ before token, x.extractor.verifier before token = .ok ()
  client : x.client.Follows files c.authority
  resolveTimeout : x.resolveTimeout = c.server.resolveTimeout
  shutdown : x.shutdown = life

/-- The context that is put together is the one that follows the configuration. -/
theorem Context.ofConfiguration_eq_ok_iff [Wording] {files : Files} {c : Configuration}
    {life : Lifetime} {x : Context} :
    Context.ofConfiguration files c life = .ok x ↔ x.Follows files c life := by
  rw [Context.ofConfiguration]
  rcases hclient : Review.Client.ofFiles files c.authority with cause | client
  · refine ⟨fun h => (nomatch h), fun h => ?_⟩
    exact (nomatch hclient.symm.trans (Review.Client.ofFiles_eq_ok_iff.mpr h.client))
  · refine ⟨fun h => ?_, fun h => ?_⟩
    · cases h
      exact ⟨rfl, fun _ _ => rfl, Review.Client.ofFiles_eq_ok_iff.mp hclient, rfl, rfl⟩
    · rcases x with ⟨⟨claim, verifier⟩, found, timeout, shutdown⟩
      have hsame := hclient.symm.trans (Review.Client.ofFiles_eq_ok_iff.mpr h.client)
      have hverifier : verifier = .trusting := funext fun before => funext (h.verifier before)
      rw [Except.ok.inj hsame, hverifier, ← show claim = _ from h.usernameClaim,
        ← show timeout = _ from h.resolveTimeout, ← show shutdown = _ from h.shutdown]
      rfl

/-- A listener is secured exactly as its files say. -/
theorem secure_eq_ok_iff [Wording] {files : Files} {tls : Configuration.Tls} {a : Tls.Acceptor} :
    secure files tls = .ok a ↔ a.Follows files tls :=
  mapError_eq_ok_iff.trans Tls.Acceptor.ofFiles_eq_ok_iff

end Server

end ForwardAuth
