import ForwardAuth.Proofs.Installation

/-!
# What files can spoil

A client of the authority is set up from settings and from the files that they name, and a server
from a client and the files of its listener. Settings that were checked cannot stand against that
any more, but files can: they may be gone, hold no text, no certificates or no key, or certificates
and a key that do not belong together.

What is wrong with the files is listed apart from any order in which they are looked at, each time
with what is said about it. Setting up a client or a server fails exactly if something in the list
is the case, and with an error from it. On the way it is asked once more whether the certificate of
the client and its key are given together. Checked settings answer that, so the question never
decides.

Most of what is said about files comes from elsewhere. What libraries say is passed on behind the
name of the one that found the fault, and this name is enough to tell it from anything that is said
of settings. What the system says of a file is passed on as it is. It is a description of the error
and its number in parentheses, and as long as there is no colon in the description, it can be told
apart as well: what is said of settings holds a colon or does not end with a parenthesis.

## Main definitions

* `FailsFor`: What a computation fails for.
* `Files.SayPhrases`: Errors of the system are described without colons.
* `SaidOfFiles`: What may be said about files.
* `Tls.SpoiledIdentity`, `Tls.SpoiledListener`: What is wrong with the files of a certificate with
  its key, and with those of a listener.
* `Review.Settings.Spoiled`: What is wrong with the files of the authority's client.
* `Configuration.Spoiled`: What is wrong with the files of a configuration.
* `Review.Misconfiguration.IsOfSettings`: What is wrong with settings, whatever the files hold.

## Theorems

* `FailsFor.bind`: What two computations, one after the other, fail for.
* `SaidOfFiles.ne_message`: What is said of files is never said of settings.
* `Tls.Acceptor.ofFiles_fails`: A listener is secured unless its files are spoiled.
* `Review.Client.ofFiles_fails`: A client is set up unless its files are spoiled.
* `Server.ofConfiguration_fails`: A server is built unless its files are spoiled.
* `Server.reload_error`: The same of a server that is given a new configuration.
* `Configuration.Spoiled.message_ne`: The same of everything that is said of a configuration's
  files.
-/

namespace ForwardAuth

open Tls (readCertificates readPrivateKey Credentials Fault)

/-! ## Failing for reasons -/

/-- A computation fails only with certain errors, and succeeds only if there is nothing that leads
    to any of them. -/
structure FailsFor {ε α : Type} (x : Except ε α) (bad : ε → Prop) : Prop where
  of_error : ∀ e, x = .error e → bad e
  of_ok : ∀ a, x = .ok a → ∀ e, ¬ bad e

namespace FailsFor

variable {ε ε' α β : Type} {bad bad' : ε → Prop}

theorem congr {x : Except ε α} (h : FailsFor x bad) (hiff : ∀ e, bad e ↔ bad' e) :
    FailsFor x bad' := by
  rwa [show bad' = bad from funext fun e => propext (hiff e).symm]

theorem pure (a : α) : FailsFor (.ok a) fun _ : ε => False :=
  ⟨fun _ h => (nomatch h), fun _ _ _ => id⟩

/-- Of two computations, one after the other, the second can fail only once the first is done. -/
theorem bind {x : Except ε α} {f : α → Except ε β} (hx : FailsFor x bad)
    (hf : ∀ a, x = .ok a → FailsFor (f a) bad') : FailsFor (x >>= f) fun e => bad e ∨ bad' e := by
  rcases x with e | a
  · refine ⟨fun e' h => ?_, fun b h => (nomatch h)⟩
    rw [← Except.error.inj h]
    exact .inl (hx.of_error e rfl)
  · exact ⟨fun e h => .inr ((hf a rfl).of_error e h),
      fun b h e => not_or.mpr ⟨hx.of_ok a rfl e, (hf a rfl).of_ok b h e⟩⟩

theorem mapError {x : Except ε α} (hx : FailsFor x bad) (f : ε → ε') :
    FailsFor (x.mapError f) fun e' => ∃ e, bad e ∧ e' = f e := by
  rcases x with e | a
  · exact ⟨fun e' h => ⟨e, hx.of_error e rfl, (Except.error.inj h).symm⟩, fun a h => (nomatch h)⟩
  · refine ⟨fun e' h => (nomatch h), fun _ _ _ => ?_⟩
    rintro ⟨e, hbad, -⟩
    exact hx.of_ok a rfl e hbad

/-- What is left out cannot fail. -/
theorem optional {γ : Type} {f : γ → Except ε α} {bad : γ → ε → Prop} (path? : Option γ)
    (h : ∀ path, path? = some path → FailsFor (f path) (bad path)) :
    FailsFor (path?.mapM f) fun e => ∃ path, path? = some path ∧ bad path e := by
  cases path? with
  | none =>
      refine (pure (none : Option α)).congr fun e => ⟨False.elim, ?_⟩
      rintro ⟨_, ⟨⟩, -⟩
  | some path =>
      refine ((h path rfl).bind fun a _ => pure (some a)).congr fun e => ?_
      simp only [or_false, Option.some.injEq, exists_eq_left']

theorem self (x : Except ε α) : FailsFor x fun e => x = .error e :=
  ⟨fun _ => id, fun _ ha _ he => (nomatch ha.symm.trans he)⟩

end FailsFor

/-! ## What is said -/

/-- The cause can be seen from the settings, whatever the files hold. -/
def Review.Misconfiguration.IsOfSettings : Misconfiguration → Prop
  | .material _ => False
  | _ => True

/-- Errors of the system are described by phrases, in which there is no colon. -/
def Files.SayPhrases (files : Files) : Prop :=
  ∀ path e, files path = .error e → ':' ∉ e.description.toList

/-- What may be said about files: the client's part that found a fault reports it, a file is no
    text, or the system describes an error by a phrase. -/
inductive SaidOfFiles [Wording] : String → Prop where
  | report (fault : Fault) : SaidOfFiles fault.report
  | notText : SaidOfFiles Files.notText
  | system {e : SystemError} (h : ':' ∉ e.description.toList) : SaidOfFiles e.message

theorem Tls.Fault.report_eq [Wording] (fault : Fault) :
    fault.report = "PEM error: " ++ Wording.tls fault ∨
      fault.report = "TLS error: " ++ Wording.tls fault := by
  unfold report
  cases fault.isOfSections with
  | false => exact .inr rfl
  | true => exact .inl rfl

theorem head?_append {s : String} (h : s ≠ "") (t : String) :
    (s ++ t).toList.head? = s.toList.head? := by
  rw [String.toList_append]
  rcases hs : s.toList with _ | ⟨c, cs⟩
  · exact absurd (String.toList_eq_nil_iff.mp hs) h
  · rfl

/-- What is said of settings begins with one of four letters. -/
theorem Review.Misconfiguration.head?_message {cause : Misconfiguration} (h : cause.IsOfSettings) :
    cause.message.toList.head? ∈ [some 'B', some 'C', some 'I', some 'A'] := by
  cases cause with
  | halfIdentity | halfConnection => decide
  | invalidUrl reason =>
      change ("Invalid authority URL: " ++ reason).toList.head? ∈ _
      rw [head?_append (by decide)]
      decide
  | foreignScheme url =>
      change ("Authority URL must be http or https: " ++ url).toList.head? ∈ _
      rw [head?_append (by decide)]
      decide
  | material reason => exact h.elim

/-- What is said of settings holds a colon or does not end with a parenthesis. -/
theorem Review.Misconfiguration.colon_mem_message {cause : Misconfiguration}
    (h : cause.IsOfSettings) (hlast : cause.message.toList.getLast? = some ')') :
    ':' ∈ cause.message.toList := by
  cases cause with
  | halfIdentity | halfConnection => exact absurd hlast (by decide)
  | invalidUrl reason =>
      change ':' ∈ ("Invalid authority URL: " ++ reason).toList
      rw [String.toList_append]
      exact List.mem_append_left _ (by decide)
  | foreignScheme url =>
      change ':' ∈ ("Authority URL must be http or https: " ++ url).toList
      rw [String.toList_append]
      exact List.mem_append_left _ (by decide)
  | material reason => exact h.elim

/-- A phrase of the system stands before the number of the error, in parentheses. -/
theorem SystemError.message_spec {e : SystemError} (h : ':' ∉ e.description.toList) :
    ':' ∉ e.message.toList ∧ e.message.toList.getLast? = some ')' := by
  have hmessage : e.message.toList
      = e.description.toList ++ " (os error ".toList ++ Nat.toDigits 10 e.number ++ [')'] := by
    change (e.description ++ " (os error " ++ toString e.number ++ ")").toList = _
    rw [String.toList_append, String.toList_append, String.toList_append,
      show (toString e.number).toList = Nat.toDigits 10 e.number from String.toList_ofList]
    rfl
  rw [hmessage]
  refine ⟨fun hcolon => ?_, List.getLast?_concat⟩
  rcases List.mem_append.mp hcolon with hcolon | hcolon
  · rcases List.mem_append.mp hcolon with hcolon | hcolon
    · rcases List.mem_append.mp hcolon with hcolon | hcolon
      · exact h hcolon
      · exact absurd hcolon (by decide)
    · exact absurd (Nat.isDigit_of_mem_toDigits (by decide) (by decide) hcolon) (by decide)
  · exact absurd hcolon (by decide)

theorem SaidOfFiles.of_text [Wording] {files : Files} (hfiles : files.SayPhrases)
    {path reason : String} (h : files.text path = .error reason) : SaidOfFiles reason := by
  rw [Files.text] at h
  rcases hread : files path with e | bytes
  · rw [hread] at h
    rw [← Except.error.inj h]
    exact .system (hfiles path e hread)
  · rw [hread] at h
    rcases htext : String.fromUTF8? ⟨bytes.toArray⟩ with _ | text
    · simp only [htext] at h
      rw [← Except.error.inj h]
      exact .notText
    · simp only [htext] at h
      cases h

/-- What is said of files is never said of settings. -/
theorem SaidOfFiles.ne_message [Wording] {text : String} (h : SaidOfFiles text)
    {cause : Review.Misconfiguration} (hcause : cause.IsOfSettings) : text ≠ cause.message := by
  intro heq
  have hhead := cause.head?_message hcause
  rw [← heq] at hhead
  cases h with
  | report fault =>
      -- Whoever found the fault, the name of this part begins with another letter.
      rcases fault.report_eq with hreport | hreport
      · rw [hreport, head?_append (by decide)] at hhead
        exact absurd hhead (by decide)
      · rw [hreport, head?_append (by decide)] at hhead
        exact absurd hhead (by decide)
  | notText => exact absurd hhead (by decide)
  | @system e hphrase =>
      rcases e.message_spec hphrase with ⟨hcolon, hlast⟩
      rw [heq] at hcolon hlast
      exact hcolon (cause.colon_mem_message hcause hlast)

/-! ## Certificates with their key -/

namespace Tls

/-- The certificates and the key can be read, but do not make credentials. -/
def Mismatched (files : Files) (certificate key : String) (fault : Fault) : Prop :=
  ∃ chain sect, readCertificates files certificate = .ok chain ∧
    readPrivateKey files key = .ok sect ∧ Credentials.of chain sect = .error fault

/-- Something is wrong with the files of a certificate and of its key. -/
inductive SpoiledIdentity (files : Files) (certificate key : String) : Fault → Prop where
  | chain {fault : Fault} (h : readCertificates files certificate = .error fault) :
      SpoiledIdentity files certificate key fault
  | key {fault : Fault} (h : readPrivateKey files key = .error fault) :
      SpoiledIdentity files certificate key fault
  | mismatched {fault : Fault} (h : Mismatched files certificate key fault) :
      SpoiledIdentity files certificate key fault

theorem credentials_fails {files : Files} {certificate key : String}
    {chain : List Certificate.Encoded} {sect : Section}
    (hchain : readCertificates files certificate = .ok chain)
    (hsect : readPrivateKey files key = .ok sect) :
    FailsFor (Credentials.of chain sect) (Mismatched files certificate key) := by
  refine (FailsFor.self _).congr fun fault => ?_
  simp only [Mismatched, hchain, hsect, Except.ok.injEq, exists_and_left, exists_eq_left']

/-- Something is wrong with the files that a listener names. -/
inductive SpoiledListener (files : Files) (tls : Configuration.Tls) : Fault → Prop where
  | identity {fault : Fault}
      (h : SpoiledIdentity files tls.certificateBundle tls.privateKey fault) :
      SpoiledListener files tls fault
  | clientRoots {path : String} {fault : Fault} (h : tls.clientCaBundle = some path)
      (hfile : readClientRoots files path = .error fault) : SpoiledListener files tls fault

/-- A listener is secured unless its files are spoiled. -/
theorem Acceptor.ofFiles_fails (files : Files) (tls : Configuration.Tls) :
    FailsFor (Acceptor.ofFiles files tls) (SpoiledListener files tls) := by
  unfold Acceptor.ofFiles
  refine ((FailsFor.self _).bind fun chain hchain => (FailsFor.self _).bind fun sect hsect =>
    (FailsFor.optional _ fun path _ => FailsFor.self _).bind fun roots _ =>
      (credentials_fails hchain hsect).bind fun credentials _ =>
        FailsFor.pure _).congr fun fault => ⟨?_, ?_⟩
  · rintro (h | h | ⟨path, hpath, hfile⟩ | h | h)
    · exact .identity (.chain h)
    · exact .identity (.key h)
    · exact .clientRoots hpath hfile
    · exact .identity (.mismatched h)
    · exact h.elim
  · rintro ((h | h | h) | ⟨hpath, hfile⟩)
    · exact .inl h
    · exact .inr (.inl h)
    · exact .inr (.inr (.inr (.inl h)))
    · exact .inr (.inr (.inl ⟨_, hpath, hfile⟩))

end Tls

open Tls (SpoiledIdentity)

/-! ## The authority's client -/

namespace Review

theorem Client.readToken_fails (files : Files) (path : String) :
    FailsFor (Client.readToken files path) fun e =>
      ∃ reason, files.text path = .error reason ∧ e = .material reason := by
  rw [Client.readToken]
  rcases files.text path with reason | text
  · refine ⟨fun e h => ⟨reason, rfl, (Except.error.inj h).symm⟩, fun a h => ?_⟩
    cases h
  · refine ⟨fun e h => ?_, fun _ _ _ => ?_⟩
    · cases h
    · rintro ⟨_, ⟨⟩, -⟩

variable [Wording]

/-- Something is wrong with the files that the settings of a client name. -/
inductive Settings.Spoiled (files : Files) (s : Settings) : Misconfiguration → Prop where
  | token {path reason : String} (h : s.bearerTokenFile = some path)
      (hfile : files.text path = .error reason) : Spoiled files s (.material reason)
  | roots {path : String} {fault : Fault} (h : s.serverCaBundle = some path)
      (hfile : readCertificates files path = .error fault) :
      Spoiled files s (.material fault.report)
  | identity {certificate key : String} {fault : Fault}
      (hcertificate : s.clientCertificate = some certificate) (hkey : s.clientPrivateKey = some key)
      (h : SpoiledIdentity files certificate key fault) :
      Spoiled files s (.material fault.report)

/-- Spoiled files are nothing that can be seen from the settings. -/
theorem Settings.Spoiled.not_isOfSettings {files : Files} {s : Settings} {cause : Misconfiguration}
    (h : s.Spoiled files cause) : ¬ cause.IsOfSettings := by
  cases h with
  | token | roots | identity => exact id

theorem Settings.Spoiled.saidOfFiles {files : Files} (hfiles : files.SayPhrases) {s : Settings}
    {cause : Misconfiguration} (h : s.Spoiled files cause) : SaidOfFiles cause.message := by
  cases h with
  | token h hfile => exact .of_text hfiles hfile
  | roots h hfile => exact .report _
  | identity hcertificate hkey h => exact .report _

/-- What is said of the files of a client is never said of settings. -/
theorem Settings.Spoiled.message_ne {files : Files} (hfiles : files.SayPhrases) {s : Settings}
    {cause other : Misconfiguration} (h : s.Spoiled files cause) (hother : other.IsOfSettings) :
    cause.message ≠ other.message :=
  (h.saidOfFiles hfiles).ne_message hother

/-- Once a certificate and its key are given together, nothing but the files can be wrong with the
    connection. -/
theorem Client.connector_fails (files : Files) {s : Settings}
    (hpair : s.clientCertificate.isSome = s.clientPrivateKey.isSome) :
    FailsFor (Tls.Connector.ofFiles files s) fun e =>
      (∃ path, s.serverCaBundle = some path ∧
        ∃ fault, readCertificates files path = .error fault ∧ e = .material fault.report) ∨
      ∃ certificate key, s.clientCertificate = some certificate ∧ s.clientPrivateKey = some key ∧
        ∃ fault, SpoiledIdentity files certificate key fault ∧
          e = .material fault.report := by
  unfold Tls.Connector.ofFiles
  refine (FailsFor.optional _ fun path _ =>
    (FailsFor.self (readCertificates files path)).mapError _).bind fun roots _ => ?_
  rcases hcertificate : s.clientCertificate with _ | certificate <;>
    rcases hkey : s.clientPrivateKey with _ | key
  · refine (FailsFor.pure _).congr fun e => ⟨False.elim, ?_⟩
    rintro ⟨_, _, ⟨⟩, -⟩
  -- One without the other would be refused here, but the settings do not have it.
  · rw [hcertificate, hkey] at hpair
    cases hpair
  · rw [hcertificate, hkey] at hpair
    cases hpair
  · refine (((FailsFor.self _).mapError _).bind fun chain hchain =>
      ((FailsFor.self _).mapError _).bind fun sect hsect =>
        ((Tls.credentials_fails (mapError_eq_ok_iff.mp hchain)
          (mapError_eq_ok_iff.mp hsect)).mapError _).bind fun credentials _ =>
            FailsFor.pure _).congr fun e => ?_
    simp only [Option.some.injEq, exists_and_left, exists_eq_left']
    constructor
    · rintro (⟨fault, h, rfl⟩ | ⟨fault, h, rfl⟩ | ⟨fault, h, rfl⟩ | h)
      · exact ⟨fault, .chain h, rfl⟩
      · exact ⟨fault, .key h, rfl⟩
      · exact ⟨fault, .mismatched h, rfl⟩
      · exact h.elim
    · rintro ⟨fault, h | h | h, rfl⟩
      · exact .inl ⟨fault, h, rfl⟩
      · exact .inr (.inl ⟨fault, h, rfl⟩)
      · exact .inr (.inr (.inl ⟨fault, h, rfl⟩))

/-- A client with checked settings is set up unless its files are spoiled. -/
theorem Client.ofFiles_fails (files : Files) {s : Settings} (h : s.check = .ok ()) :
    FailsFor (Client.ofFiles files s) (s.Spoiled files) := by
  unfold Client.ofFiles
  rw [h]
  refine ((FailsFor.optional _ fun path _ => readToken_fails files path).bind fun token _ =>
    (connector_fails files (Settings.check_eq_ok_iff.mp h).paired).bind fun connector _ =>
      FailsFor.pure _).congr fun e => ⟨?_, ?_⟩
  · rintro (⟨path, hpath, reason, hfile, rfl⟩ | (⟨path, hpath, fault, hfile, rfl⟩ |
      ⟨certificate, key, hcertificate, hkey, fault, hfault, rfl⟩) | h)
    · exact .token hpath hfile
    · exact .roots hpath hfile
    · exact .identity hcertificate hkey hfault
    · exact h.elim
  · intro h
    cases h with
    | token hpath hfile => exact .inl ⟨_, hpath, _, hfile, rfl⟩
    | roots hpath hfile => exact .inr (.inl (.inl ⟨_, hpath, _, hfile, rfl⟩))
    | identity hcertificate hkey hfault =>
        exact .inr (.inl (.inr ⟨_, _, hcertificate, hkey, _, hfault, rfl⟩))

end Review

/-! ## The server -/

variable [Wording]

/-- Something is wrong with the files that a configuration names. -/
inductive Configuration.Spoiled (files : Files) (c : Configuration) :
    Configuration.Error → Prop where
  | client {cause : Review.Misconfiguration} (h : c.authority.Spoiled files cause) :
      Spoiled files c (.authority (.configuration cause))
  | listener {tls : Configuration.Tls} {fault : Fault} (h : c.server.tls = some tls)
      (hfault : Tls.SpoiledListener files tls fault) : Spoiled files c (.tls (Wording.tls fault))

theorem Configuration.Spoiled.message_ne {files : Files} (hfiles : files.SayPhrases)
    {c : Configuration} {e : Configuration.Error} {other : Review.Misconfiguration}
    (h : c.Spoiled files e) (hother : other.IsOfSettings) :
    e.message ≠ (Configuration.Error.authority (.configuration other)).message := by
  cases h with
  | client h =>
      unfold Configuration.Error.message Review.Error.message
      rw [Ne, String.append_right_inj, String.append_right_inj]
      exact h.message_ne hfiles hother
  | @listener tls fault h hfault =>
      intro heq
      have hhead := congrArg (fun text => text.toList.head?) heq
      change ("Listener TLS error: " ++ Wording.tls fault).toList.head? =
        ("Authority configuration error: " ++ _).toList.head? at hhead
      rw [head?_append (by decide), head?_append (by decide)] at hhead
      exact absurd hhead (by decide)

namespace Server

variable {files : Files} {c : Configuration}

theorem Context.ofConfiguration_fails (h : c.authority.check = .ok ()) (shutdown : Lifetime) :
    FailsFor (Context.ofConfiguration files c shutdown) fun e =>
      ∃ cause, c.authority.Spoiled files cause ∧ e = .authority (.configuration cause) := by
  have hclient := Review.Client.ofFiles_fails files h
  rw [Context.ofConfiguration]
  rcases hc : Review.Client.ofFiles files c.authority with cause | client
  · refine ⟨fun e he => ⟨cause, hclient.of_error cause hc, (Except.error.inj he).symm⟩,
      fun a ha => ?_⟩
    cases ha
  · refine ⟨fun e he => ?_, fun _ _ _ => ?_⟩
    · cases he
    · rintro ⟨cause, hcause, -⟩
      exact hclient.of_ok client hc cause hcause

theorem secure_fails (tls : Configuration.Tls) :
    FailsFor (secure files tls) fun e =>
      ∃ fault, Tls.SpoiledListener files tls fault ∧ e = .tls (Wording.tls fault) :=
  (Tls.Acceptor.ofFiles_fails files tls).mapError _

/-- A server whose client has checked settings is built unless its files are spoiled. -/
theorem ofConfiguration_fails (h : c.authority.check = .ok ()) (shutdown : Lifetime) :
    FailsFor (Server.ofConfiguration files c shutdown) (c.Spoiled files) := by
  refine ((Context.ofConfiguration_fails h shutdown).bind fun context _ =>
    (FailsFor.optional _ fun tls _ => secure_fails tls).bind fun acceptor _ =>
      FailsFor.pure _).congr fun e => ⟨?_, ?_⟩
  · rintro (⟨cause, hcause, rfl⟩ | ⟨tls, htls, fault, hfault, rfl⟩ | h)
    · exact .client hcause
    · exact .listener htls hfault
    · exact h.elim
  · rintro (hcause | ⟨htls, hfault⟩)
    · exact .inl ⟨_, hcause, rfl⟩
    · exact .inr (.inl ⟨_, htls, _, hfault, rfl⟩)

/-- A running server takes a configuration with checked settings unless files are spoiled that it
    names. -/
theorem reload_error (h : c.authority.check = .ok ()) {s : Server} {e : Configuration.Error}
    (he : (s.reload files c).1 = .error e) : c.Spoiled files e := by
  have hcontext : FailsFor (Context.ofConfiguration files c s.shutdown) _ :=
    Context.ofConfiguration_fails h s.shutdown
  rw [reload] at he
  rcases hc : Context.ofConfiguration files c s.shutdown with e' | context
  · rw [hc] at he
    cases he
    rcases hcontext.of_error _ hc with ⟨cause, hcause, rfl⟩
    exact .client hcause
  · rw [hc] at he
    rcases hacceptor : s.acceptor with _ | acceptor <;>
      rcases htls : c.server.tls with _ | tls <;> rw [hacceptor, htls] at he
    · cases he
    · cases he
    · cases he
    -- Only here the files of the listener are read at all.
    · rcases hsecure : secure files tls with e' | acceptor'
      · simp only [hsecure] at he
        cases he
        rcases (secure_fails tls).of_error _ hsecure with ⟨fault, hfault, rfl⟩
        exact .listener htls hfault
      · simp only [hsecure] at he
        cases he

end Server

end ForwardAuth
