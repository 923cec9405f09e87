import ForwardAuth.Proofs.Installation
import Mathlib.Data.List.Induction

/-!
# A server changes over as a whole

While a server runs it may be given new configurations and new files for its listener, any number of
times and in any order, and each time the files may have changed as well. Some of these changes
fail, and some of them fail late, after a part of what they need was already put together. A server
that took over this part would serve requests under a mixture of two configurations.

That this does not happen is stated for a server with any history of changes behind it. `reload` and
`reloadTls` are taken apart once: which changes succeed on which kind of listener, and what the
server is afterwards. From that the two kinds of statement follow. A change that fails leaves the
server as it was, and one that succeeds installs all that belongs together, each part as the
configuration and its files have it. And over a whole history, by induction on it, the server keeps
what it has for life, and what it serves with always comes from one configuration.

## Main definitions

* `Change`, `apply`: Something that a running server is told, and what it does.
* `after`: The server after changes, one after another.
* `Kept`: What a server has for life.
* `Whole`: What a server serves with comes from one configuration.

## Theorems

* `ofConfiguration_eq_ok`: What a server is built from.
* `reload_plain_iff`, `reload_secured_iff`, `reload_unsecuring_iff`: When a new configuration is
  taken, and what it changes.
* `reloadTls_plain`, `reloadTls_secured_iff`: The same for new files.
* `apply_error`: A change that fails changes nothing.
* `kept_after`, `whole_after`: What every history preserves.
* `changes_over_as_a_whole`: What a change does to a server with any history.
-/

namespace ForwardAuth.Server

/-- Something that a running server is told, with the files as they are at that time. -/
inductive Change where
  /-- There is a new configuration. -/
  | configuration (files : Files) (c : Configuration)
  /-- There are new files for the listener. -/
  | listener (files : Files) (tls : Configuration.Tls)

/-- What the server answers to a change, and the server afterwards. -/
def apply [Wording] (s : Server) : Change → Except Configuration.Error Unit × Server
  | .configuration files c => s.reload files c
  | .listener files tls => s.reloadTls files tls

/-- The server after changes, one after another, whether they were taken or not. -/
def after [Wording] (s : Server) (changes : List Change) : Server :=
  changes.foldl (fun s change => (s.apply change).2) s

/-- What a server that was built from a configuration has for life. -/
structure Kept (c : Configuration) (life : Lifetime) (s : Server) : Prop where
  secured : s.acceptor.isSome = c.server.tls.isSome
  address : s.address = c.server.bindAddress
  port : s.port = c.server.port
  shutdown : s.shutdown = life
  /-- Whatever context it resolves with, its requests are part of its own lifetime. -/
  context_shutdown : s.context.shutdown = life

/-- The configuration is the first one, or one that the server was told. -/
def Told (files : Files) (c : Configuration) (changes : List Change) (files' : Files)
    (c' : Configuration) : Prop :=
  (files' = files ∧ c' = c) ∨ .configuration files' c' ∈ changes

/-- What a server serves with comes from configurations it was told: the context and the durations
    from one and the same, and the acceptor from what this or another change said about it. -/
structure Whole (files : Files) (c : Configuration) (shutdown : Lifetime) (changes : List Change)
    (s : Server) : Prop where
  context : ∃ files' c', Told files c changes files' c' ∧
    s.context.Follows files' c' shutdown ∧
    s.timeouts = ⟨c'.server.queryTimeout, c'.server.gracePeriod⟩
  acceptor : ∀ acceptor, s.acceptor = some acceptor →
    ∃ files' tls, acceptor.Follows files' tls ∧
      (.listener files' tls ∈ changes ∨
        ∃ c', Told files c changes files' c' ∧ c'.server.tls = some tls)

theorem told_concat {files : Files} {c : Configuration} {changes : List Change} {files' : Files}
    {c' : Configuration} (h : Told files c changes files' c') (change : Change) :
    Told files c (changes ++ [change]) files' c' :=
  h.imp id fun hmem => List.mem_append_left _ hmem

section Histories

variable [Wording]

/-- A server is built from a context and, exactly if connections are to be secured, an acceptor. -/
theorem ofConfiguration_eq_ok {files : Files} {c : Configuration} {shutdown : Lifetime} {s : Server}
    (h : ofConfiguration files c shutdown = .ok s) :
    ∃ (context : Context) (acceptor : Option Tls.Acceptor), context.Follows files c shutdown ∧
      acceptor.isSome = c.server.tls.isSome ∧
      (∀ found, acceptor = some found →
        ∃ tls, c.server.tls = some tls ∧ found.Follows files tls) ∧
      s = ⟨c.server.bindAddress, c.server.port, acceptor, context, .of c.server, shutdown⟩ := by
  simp only [← Context.ofConfiguration_eq_ok_iff, ← secure_eq_ok_iff]
  unfold ofConfiguration at h
  rcases hcontext : Context.ofConfiguration files c shutdown with e | context
  · rw [hcontext] at h
    cases h
  · rw [hcontext] at h
    rcases htls : c.server.tls with _ | tls
    · rw [htls] at h
      refine ⟨context, none, rfl, rfl, fun found hfound => ?_, (Except.ok.inj h).symm⟩
      cases hfound
    · rcases hacceptor : secure files tls with e | acceptor
      · rw [htls] at h
        change ((secure files tls).map some >>= _) = _ at h
        rw [hacceptor] at h
        cases h
      · rw [htls] at h
        change ((secure files tls).map some >>= _) = _ at h
        rw [hacceptor] at h
        refine ⟨context, some acceptor, rfl, rfl, fun found hfound => ?_, (Except.ok.inj h).symm⟩
        exact ⟨tls, rfl, hacceptor.trans (congrArg Except.ok (Option.some.inj hfound))⟩

/-- A listener that does not secure connections takes a configuration once there is a context for
    it, whatever it says about securing them. -/
theorem reload_plain_iff {s : Server} (hplain : s.acceptor = none) (files : Files)
    (c : Configuration) (s' : Server) :
    s.reload files c = (.ok (), s') ↔
      ∃ context : Context, context.Follows files c s.shutdown ∧
        s' = { s with context, timeouts := .of c.server } := by
  simp only [← Context.ofConfiguration_eq_ok_iff]
  unfold reload
  rcases Context.ofConfiguration files c s.shutdown with e | context
  · simp only [Prod.mk.injEq, reduceCtorEq, false_and, exists_false]
  · simp only [hplain, Prod.mk.injEq, true_and, Except.ok.injEq, exists_eq_left', eq_comm]

/-- A listener that secures connections takes a configuration that says how, once there are a
    context and an acceptor for it, and then it takes both. -/
theorem reload_secured_iff {s : Server} (hsecured : s.acceptor.isSome = true) (files : Files)
    (c : Configuration) {tls : Configuration.Tls} (htls : c.server.tls = some tls) (s' : Server) :
    s.reload files c = (.ok (), s') ↔
      ∃ (context : Context) (acceptor : Tls.Acceptor),
        context.Follows files c s.shutdown ∧ acceptor.Follows files tls ∧
        s' = { s with acceptor := some acceptor, context, timeouts := .of c.server } := by
  simp only [← Context.ofConfiguration_eq_ok_iff, ← secure_eq_ok_iff]
  rcases Option.isSome_iff_exists.mp hsecured with ⟨old, hold⟩
  unfold reload
  rcases Context.ofConfiguration files c s.shutdown with e | context
  · simp only [Prod.mk.injEq, reduceCtorEq, false_and, exists_false]
  · rcases hacceptor : secure files tls with e | acceptor
    · simp only [hold, htls, hacceptor, Prod.mk.injEq, reduceCtorEq, false_and, and_false,
        exists_false]
    · simp only [hold, htls, hacceptor, Prod.mk.injEq, true_and, Except.ok.injEq, exists_and_left,
        exists_eq_left', eq_comm]

/-- A listener that secures connections goes on as before under a configuration that does not say
    how, and still asks for a context. -/
theorem reload_unsecuring_iff {s : Server} (hsecured : s.acceptor.isSome = true) (files : Files)
    (c : Configuration) (htls : c.server.tls = none) (s' : Server) :
    s.reload files c = (.ok (), s') ↔
      (∃ context : Context, context.Follows files c s.shutdown) ∧ s' = s := by
  simp only [← Context.ofConfiguration_eq_ok_iff]
  rcases Option.isSome_iff_exists.mp hsecured with ⟨old, hold⟩
  unfold reload
  rcases Context.ofConfiguration files c s.shutdown with e | context
  · simp only [Prod.mk.injEq, reduceCtorEq, false_and, exists_false]
  · simp only [hold, htls, Prod.mk.injEq, true_and, Except.ok.injEq, exists_eq', eq_comm]

theorem reloadTls_plain {s : Server} (hplain : s.acceptor = none) (files : Files)
    (tls : Configuration.Tls) : s.reloadTls files tls = (.ok (), s) := by
  unfold reloadTls
  rw [hplain]

/-- New files replace the acceptor and nothing else. -/
theorem reloadTls_secured_iff {s : Server} (hsecured : s.acceptor.isSome = true) (files : Files)
    (tls : Configuration.Tls) (s' : Server) :
    s.reloadTls files tls = (.ok (), s') ↔
      ∃ acceptor : Tls.Acceptor, acceptor.Follows files tls ∧
        s' = { s with acceptor := some acceptor } := by
  simp only [← secure_eq_ok_iff]
  rcases Option.isSome_iff_exists.mp hsecured with ⟨old, hold⟩
  unfold reloadTls
  rcases secure files tls with e | acceptor
  · simp only [hold, Prod.mk.injEq, reduceCtorEq, false_and, exists_false]
  · simp only [hold, Prod.mk.injEq, true_and, Except.ok.injEq, exists_eq_left', eq_comm]

/-- A change that fails changes nothing, however much of it could be put together. -/
theorem apply_error {s s' : Server} {change : Change} {e : Configuration.Error}
    (h : s.apply change = (.error e, s')) : s' = s := by
  have hsecond : s' = (s.apply change).2 := by rw [h]
  have hfirst : (s.apply change).1 = .error e := by rw [h]
  rw [hsecond]
  cases change with
  | configuration files c =>
      -- The only errors are those of the context and of the acceptor, and nothing is set before.
      change (s.reload files c).2 = s
      change (s.reload files c).1 = _ at hfirst
      unfold reload at hfirst ⊢
      split at hfirst
      · rfl
      · split at hfirst
        · injection hfirst
        · injection hfirst
        · split at hfirst
          · rfl
          · injection hfirst
  | listener files tls =>
      change (s.reloadTls files tls).2 = s
      change (s.reloadTls files tls).1 = _ at hfirst
      unfold reloadTls at hfirst ⊢
      split at hfirst
      · injection hfirst
      · split at hfirst
        · rfl
        · injection hfirst

/-- What a change may do: nothing, or what a configuration needs together, or a new acceptor. -/
theorem apply_cases (s : Server) (change : Change) :
    (s.apply change).2 = s ∨
      (∃ files c, ∃ context : Context, change = .configuration files c ∧
        context.Follows files c s.shutdown ∧
        ((s.apply change).2 = { s with context, timeouts := .of c.server } ∨
          ∃ tls, ∃ acceptor : Tls.Acceptor, s.acceptor.isSome = true ∧
            c.server.tls = some tls ∧ acceptor.Follows files tls ∧
            (s.apply change).2
              = { s with acceptor := some acceptor, context, timeouts := .of c.server })) ∨
      ∃ files tls, ∃ acceptor : Tls.Acceptor, change = .listener files tls ∧
        s.acceptor.isSome = true ∧ acceptor.Follows files tls ∧
        (s.apply change).2 = { s with acceptor := some acceptor } := by
  rcases hresult : s.apply change with ⟨e | ⟨⟩, s'⟩
  · exact Or.inl (apply_error hresult)
  · cases hsecured : s.acceptor.isSome with
    | false =>
        have hplain : s.acceptor = none :=
          Option.not_isSome_iff_eq_none.mp (by rw [hsecured]; decide)
        cases change with
        | configuration files c =>
            rcases (reload_plain_iff hplain files c s').mp hresult with ⟨context, hcontext, hs'⟩
            exact Or.inr (Or.inl ⟨files, c, context, rfl, hcontext, Or.inl hs'⟩)
        | listener files tls =>
            have hsame := hresult.symm.trans (reloadTls_plain hplain files tls)
            exact Or.inl (congrArg Prod.snd hsame)
    | true =>
        cases change with
        | configuration files c =>
            rcases htls : c.server.tls with _ | tls
            · exact Or.inl ((reload_unsecuring_iff hsecured files c htls s').mp hresult).2
            · rcases (reload_secured_iff hsecured files c htls s').mp hresult with
                ⟨context, acceptor, hcontext, hacceptor, hs'⟩
              exact Or.inr (Or.inl ⟨files, c, context, rfl, hcontext,
                Or.inr ⟨tls, acceptor, rfl, htls, hacceptor, hs'⟩⟩)
        | listener files tls =>
            rcases (reloadTls_secured_iff hsecured files tls s').mp hresult with
              ⟨acceptor, hacceptor, hs'⟩
            exact Or.inr (Or.inr ⟨files, tls, acceptor, rfl, rfl, hacceptor, hs'⟩)

theorem after_concat (s : Server) (changes : List Change) (change : Change) :
    s.after (changes ++ [change]) = ((s.after changes).apply change).2 := by
  unfold after
  rw [List.foldl_append]
  rfl

theorem kept_apply {c : Configuration} {life : Lifetime} {s : Server} (h : Kept c life s)
    (change : Change) : Kept c life (s.apply change).2 := by
  -- A new context is made with the lifetime of the server.
  have hcontext : ∀ {files c} {context : Context}, context.Follows files c s.shutdown →
      context.shutdown = life := fun hc => hc.shutdown.trans h.shutdown
  rcases apply_cases s change with hs |
    ⟨files, c', context, -, hc, hs | ⟨tls, acceptor, hsecured, -, -, hs⟩⟩ |
    ⟨files, tls, acceptor, -, hsecured, -, hs⟩
  · rw [hs]
    exact h
  · rw [hs]
    exact ⟨h.secured, h.address, h.port, h.shutdown, hcontext hc⟩
  · rw [hs]
    exact ⟨hsecured.symm.trans h.secured, h.address, h.port, h.shutdown, hcontext hc⟩
  · rw [hs]
    exact ⟨hsecured.symm.trans h.secured, h.address, h.port, h.shutdown, h.context_shutdown⟩

theorem kept_after {files : Files} {c : Configuration} {life : Lifetime} {s : Server}
    (h : ofConfiguration files c life = .ok s) (changes : List Change) :
    Kept c life (s.after changes) := by
  induction changes using List.reverseRecOn with
  | nil =>
      rcases ofConfiguration_eq_ok h with ⟨context, acceptor, hcontext, hsecured, -, rfl⟩
      exact ⟨hsecured, rfl, rfl, rfl, hcontext.shutdown⟩
  | append_singleton changes change ih =>
      rw [after_concat]
      exact kept_apply ih change

theorem whole_apply {files : Files} {c : Configuration} {life : Lifetime} {changes : List Change}
    {s : Server} (h : Whole files c life changes s) (hlife : s.shutdown = life) (change : Change) :
    Whole files c life (changes ++ [change]) (s.apply change).2 := by
  have hlast : change ∈ changes ++ [change] := List.mem_append_right _ List.mem_cons_self
  -- What was told before is told still.
  have hcontext : ∃ files' c', Told files c (changes ++ [change]) files' c' ∧
      s.context.Follows files' c' life ∧
      s.timeouts = ⟨c'.server.queryTimeout, c'.server.gracePeriod⟩ := by
    rcases h.context with ⟨files', c', htold, hc, ht⟩
    exact ⟨files', c', told_concat htold change, hc, ht⟩
  have hacceptor : ∀ acceptor, s.acceptor = some acceptor →
      ∃ files' tls, acceptor.Follows files' tls ∧
        (.listener files' tls ∈ changes ++ [change] ∨
          ∃ c', Told files c (changes ++ [change]) files' c' ∧ c'.server.tls = some tls) := by
    intro acceptor ha
    rcases h.acceptor acceptor ha with ⟨files', tls, hs, hmem | ⟨c', htold, htls⟩⟩
    · exact ⟨files', tls, hs, Or.inl (List.mem_append_left _ hmem)⟩
    · exact ⟨files', tls, hs, Or.inr ⟨c', told_concat htold change, htls⟩⟩
  rcases apply_cases s change with hs |
    ⟨files', c', context, rfl, hc, hs | ⟨tls, acceptor, -, htls, hsecure, hs⟩⟩ |
    ⟨files', tls, acceptor, rfl, -, hsecure, hs⟩
  · rw [hs]
    exact ⟨hcontext, hacceptor⟩
  · rw [hs]
    exact ⟨⟨files', c', Or.inr hlast, hlife ▸ hc, rfl⟩, hacceptor⟩
  · rw [hs]
    refine ⟨⟨files', c', Or.inr hlast, hlife ▸ hc, rfl⟩, fun found hfound => ?_⟩
    rw [← Option.some.inj hfound]
    exact ⟨files', tls, hsecure, Or.inr ⟨c', Or.inr hlast, htls⟩⟩
  · rw [hs]
    refine ⟨hcontext, fun found hfound => ?_⟩
    rw [← Option.some.inj hfound]
    exact ⟨files', tls, hsecure, Or.inl hlast⟩

theorem whole_after {files : Files} {c : Configuration} {life : Lifetime} {s : Server}
    (h : ofConfiguration files c life = .ok s) (changes : List Change) :
    Whole files c life changes (s.after changes) := by
  induction changes using List.reverseRecOn with
  | nil =>
      rcases ofConfiguration_eq_ok h with ⟨context, acceptor, hcontext, -, hfound, rfl⟩
      refine ⟨⟨files, c, Or.inl ⟨rfl, rfl⟩, hcontext, rfl⟩, fun found hacceptor => ?_⟩
      rcases hfound found hacceptor with ⟨tls, htls, hsecure⟩
      exact ⟨files, tls, hsecure, Or.inr ⟨c, Or.inl ⟨rfl, rfl⟩, htls⟩⟩
  | append_singleton changes change ih =>
      rw [after_concat]
      exact whole_apply ih (kept_after h changes).shutdown change

/-- What a change does to a server with any history. The server has kept what it has for life, and
    serves with what belongs together. A change that fails leaves it as it was. A configuration that
    is taken installs the context and the durations on a plain listener, and on one that secures
    connections the acceptor with them; if it does not say how to secure them, it changes nothing.
    New files replace the acceptor alone, and a plain listener has no use for them. -/
theorem changes_over_as_a_whole {files : Files} {c : Configuration} {life : Lifetime} {s : Server}
    (h : ofConfiguration files c life = .ok s) (changes : List Change) :
    Kept c life (s.after changes) ∧
    Whole files c life changes (s.after changes) ∧
    (∀ change e s', (s.after changes).apply change = (.error e, s') → s' = s.after changes) ∧
    (c.server.tls = none → ∀ files' c' tls' s',
      ((s.after changes).apply (.configuration files' c') = (.ok (), s') ↔
        ∃ context : Context, context.Follows files' c' life ∧
          s' = { s.after changes with
            context, timeouts := ⟨c'.server.queryTimeout, c'.server.gracePeriod⟩ }) ∧
      (s.after changes).apply (.listener files' tls') = (.ok (), s.after changes)) ∧
    (c.server.tls.isSome = true → ∀ files' c' s',
      (∀ tls, c'.server.tls = some tls →
        ((s.after changes).apply (.configuration files' c') = (.ok (), s') ↔
          ∃ (context : Context) (acceptor : Tls.Acceptor),
            context.Follows files' c' life ∧ acceptor.Follows files' tls ∧
            s' = { s.after changes with
              acceptor := some acceptor, context
              timeouts := ⟨c'.server.queryTimeout, c'.server.gracePeriod⟩ })) ∧
      (c'.server.tls = none →
        ((s.after changes).apply (.configuration files' c') = (.ok (), s') ↔
          (∃ context : Context, context.Follows files' c' life) ∧ s' = s.after changes)) ∧
      ∀ tls, (s.after changes).apply (.listener files' tls) = (.ok (), s') ↔
        ∃ acceptor : Tls.Acceptor, acceptor.Follows files' tls ∧
          s' = { s.after changes with acceptor := some acceptor }) := by
  have hkept := kept_after h changes
  refine ⟨hkept, whole_after h changes, fun change e s' => apply_error, fun hplain => ?_,
    fun hsecured => ?_⟩
  · have hnone : (s.after changes).acceptor = none := by
      rw [← Option.not_isSome_iff_eq_none, hkept.secured, hplain]
      decide
    intro files' c' tls' s'
    refine ⟨?_, reloadTls_plain hnone files' tls'⟩
    rw [← hkept.shutdown]
    exact reload_plain_iff hnone files' c' s'
  · have hsome : (s.after changes).acceptor.isSome = true := hkept.secured.trans hsecured
    intro files' c' s'
    rw [← hkept.shutdown]
    exact ⟨fun tls htls => reload_secured_iff hsome files' c' htls s',
      fun htls => reload_unsecuring_iff hsome files' c' htls s',
      fun tls => reloadTls_secured_iff hsome files' tls s'⟩

end Histories

/-- A plain server that was given new files for its listener is told a configuration that names a
    token file. As long as the file is not there, the server stays as it was. Once it is, the server
    takes all that the configuration says, apart from where to listen. -/
theorem changes_over_once_token_is_there :
    let _ : Wording := .own
    let missing : Files := fun _ => .error .noSuchFile
    let found : Files := fun _ => .ok "secret\n".toUTF8.toList
    let c : Configuration := ⟨⟨.v4 127 0 0 1, 8000, 3600, 60, 10000, none⟩, 4, "sub",
      ⟨"http://authority", 5000, none, none, none, none⟩, none⟩
    let next : Configuration := ⟨⟨.v4 10 0 0 1, 9000, 30, 5, 700, none⟩, 4, "email",
      ⟨"https://other/api/", 250, some "token", none, none, none⟩, none⟩
    let tls : Configuration.Tls := ⟨"bundle", "key", none⟩
    let failed : List Change := [.listener missing tls, .configuration missing next]
    ∃ s e s', ofConfiguration missing c ⟨0, none⟩ = .ok s ∧
      (s.after [.listener missing tls]).apply (.configuration missing next) = (.error e, s) ∧
      (s.after failed).apply (.configuration found next) = (.ok (), s') ∧
      s'.address = .v4 127 0 0 1 ∧ s'.port = 8000 ∧ s'.acceptor = none ∧
      s'.context.extractor.usernameClaim = "email" ∧
      s'.context.client = ⟨"https://other/api", some "secret", 250, ⟨none, none⟩⟩ ∧
      s'.context.resolveTimeout = 700 ∧ s'.context.shutdown = ⟨0, none⟩ ∧
      s'.timeouts = ⟨30, 5⟩ ∧ s'.shutdown = ⟨0, none⟩ := by
  intro _ missing found c next tls failed
  have hbuilt : (ofConfiguration missing c ⟨0, none⟩).isOk = true := by decide +kernel
  rcases hs : ofConfiguration missing c ⟨0, none⟩ with e | s
  · rw [hs] at hbuilt
    exact absurd hbuilt Bool.false_ne_true
  · -- The listener has no use for new files, so the server is still the one that was built.
    have hsame : s.after [.listener missing tls] = s :=
      congrArg Prod.snd ((changes_over_as_a_whole hs []).2.2.2.1 rfl missing c tls s).2
    rcases changes_over_as_a_whole hs [.listener missing tls] with ⟨-, -, herror, hplain, -⟩
    rcases happly : (s.after [.listener missing tls]).apply (.configuration missing next) with
      ⟨e | ⟨⟩, t⟩
    · have hunchanged : t = s := (herror _ e t happly).trans hsame
      have hfailed : s.after failed = s := by
        rw [show failed = [.listener missing tls] ++ [.configuration missing next] from rfl,
          after_concat, happly]
        exact hunchanged
      rcases changes_over_as_a_whole hs failed with ⟨hkept, -, -, htaken, -⟩
      have hclient : Review.Client.Follows found next.authority
          ⟨"https://other/api", some "secret", 250, ⟨none, none⟩⟩ :=
        Review.Client.ofFiles_eq_ok_iff.mp (by decide +kernel)
      have hfollows : Context.Follows found next ⟨0, none⟩
          ⟨⟨"email", .trusting⟩, _, 700, ⟨0, none⟩⟩ :=
        ⟨rfl, fun _ _ => rfl, hclient, rfl, rfl⟩
      have hnew := (htaken rfl found next tls _).1.mpr ⟨_, hfollows, rfl⟩
      rw [hunchanged] at happly
      exact ⟨s, e, _, rfl, happly, hnew, hkept.address, hkept.port,
        Option.not_isSome_iff_eq_none.mp (by rw [hkept.secured]; decide), rfl, rfl, rfl, rfl, rfl,
        hkept.shutdown⟩
    · -- Without the file there is no token for the client.
      rcases (hplain rfl missing next tls t).1.mp happly with ⟨context, hfollows, -⟩
      have htoken := hfollows.client.bearerToken
      generalize context.client.bearerToken = token at htoken
      cases htoken with
      | some h =>
          rcases h with ⟨text, htext, -⟩
          cases htext

end ForwardAuth.Server
