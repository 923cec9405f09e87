import ForwardAuth.Proofs.Installation
import ForwardAuth.Proofs.Questions
import Mathlib.Data.List.DropRight
import Mathlib.Data.List.TakeWhile

/-!
# Where questions are asked

The address of a question is made from that of the authority as a text: slashes at its end are taken
off, the path of the question is put behind it, and the whole is read again. So two readings have to
agree, of the address that is configured and of the one that is made from it. Both find the same
authority, since slashes at the end never reach into it and what is added begins with another.

They agree about the path exactly if the address ends with it. Behind a question mark or a number
sign the path of the question becomes part of a query or a fragment, and the question is posted to
the path of the authority itself.

## Main definitions

* `Begins`: A text that begins an address of HTTP.
* `IsCut`: An address of HTTP, cut around its authority.
* `endsPath`: The characters that end a path.
* `withoutSlashes`: A text without the slashes that it ends with.

## Theorems

* `withoutSlashes_append`: Slashes are taken off behind any other character.
* `parts_of_isCut`, `exists_isCut`: An address is read as it is cut.
* `IsCut.extend`: An address with a path behind it is cut in the same place.
* `takeWhile_extend`: Behind the end of the path nothing is added to it.
* `asked_below`: Where a question is posted.
* `not_asked_below_fragment`: Not every question is posted below the path of the authority.
-/

namespace ForwardAuth

namespace Uri

/-- A text that begins an address of HTTP, in any case of its letters. -/
inductive Begins : List Char → Scheme → Prop where
  | http {text : List Char} (h : text.map Char.toLower = "http://".toList) : Begins text .http
  | https {text : List Char} (h : text.map Char.toLower = "https://".toList) : Begins text .https

/-- The text is an address of HTTP, cut where its authority begins and where it ends. -/
structure IsCut (text : List Char) (scheme : Scheme) (authority rest : List Char) : Prop where
  begins : ∃ start, Begins start scheme ∧ text = start ++ (authority ++ rest)
  authority_ne : authority ≠ []
  within : ∀ c ∈ authority, endsAuthority c = false
  ends : ∀ c ∈ rest.head?, endsAuthority c = true

/-- The character ends a path. -/
def endsPath (c : Char) : Bool :=
  c = '?' || c = '#'

/-- The text without the slashes that it ends with. -/
def withoutSlashes (text : List Char) : List Char :=
  text.rdropWhile (· == '/')

/-! ## Slashes at the end -/

theorem withoutSlashes_append {c : Char} (hc : c ≠ '/') (before after : List Char) :
    withoutSlashes (before ++ c :: after) = before ++ c :: withoutSlashes after := by
  induction after using List.reverseRecOn with
  | nil => exact List.rdropWhile_concat_neg _ _ _ (by rwa [beq_iff_eq])
  | append_singleton after d ih =>
      rw [withoutSlashes] at ih
      rw [← List.cons_append, ← List.append_assoc, withoutSlashes, withoutSlashes,
        List.rdropWhile_concat, List.rdropWhile_concat]
      by_cases hd : (d == '/') = true
      · rw [if_pos hd, if_pos hd, ih]
        rfl
      · rw [if_neg hd, if_neg hd, List.append_assoc]
        rfl

/-! ## The parts of an address -/

theorem beginsWith_iff {word cs : List Char} : beginsWith word cs = true ↔
    ∃ start rest, start.map Char.toLower = word ∧ cs = start ++ rest := by
  rw [beginsWith, List.isPrefixOf_iff_prefix]
  constructor
  · intro h
    have hlength : ((cs.take word.length).map Char.toLower).length ≤ word.length := by
      rw [List.length_map]
      exact List.length_take_le _ _
    exact ⟨cs.take word.length, cs.drop word.length, (h.eq_of_length_le hlength).symm,
      (List.take_append_drop _ _).symm⟩
  · rintro ⟨start, rest, rfl, rfl⟩
    have htake : (start ++ rest).take (start.map Char.toLower).length = start := by
      rw [List.length_map, List.take_left]
    exact ⟨[], by rw [List.append_nil, htake]⟩

theorem splitScheme?_of_begins {start rest : List Char} {scheme : Scheme}
    (h : Begins start scheme) : splitScheme? (start ++ rest) = some (some scheme, rest) := by
  rw [splitScheme?]
  cases h with
  | http h =>
      have hlength : start.length = 7 := (List.length_map _).symm.trans (congrArg List.length h)
      rw [if_pos (beginsWith_iff.mpr ⟨start, rest, h, rfl⟩), ← hlength, List.drop_left]
  | https h =>
      have hlength : start.length = 8 := (List.length_map _).symm.trans (congrArg List.length h)
      -- With an s before the colon it is not the shorter of the two words.
      have hother : ¬ beginsWith "http://".toList (start ++ rest) = true := by
        have htake : ((start ++ rest).take 7).map Char.toLower = "https:/".toList := by
          rw [List.take_append_of_le_length (by omega), List.map_take, h]
          decide
        rw [beginsWith, show "http://".toList.length = 7 from rfl, htake]
        decide
      rw [if_neg hother, if_pos (beginsWith_iff.mpr ⟨start, rest, h, rfl⟩), ← hlength,
        List.drop_left]

theorem begins_of_splitScheme? {cs rest : List Char} {scheme : Scheme}
    (h : splitScheme? cs = some (some scheme, rest)) (hhttp : scheme = .http ∨ scheme = .https) :
    ∃ start, Begins start scheme ∧ cs = start ++ rest := by
  rw [splitScheme?] at h
  by_cases hplain : beginsWith "http://".toList cs = true
  · rcases beginsWith_iff.mp hplain with ⟨start, rest', hstart, rfl⟩
    have hlength : start.length = 7 := (List.length_map _).symm.trans (congrArg List.length hstart)
    rw [if_pos hplain, ← hlength, List.drop_left] at h
    cases h
    exact ⟨start, .http hstart, rfl⟩
  rw [if_neg hplain] at h
  by_cases hsecure : beginsWith "https://".toList cs = true
  · rcases beginsWith_iff.mp hsecure with ⟨start, rest', hstart, rfl⟩
    have hlength : start.length = 8 := (List.length_map _).symm.trans (congrArg List.length hstart)
    rw [if_pos hsecure, ← hlength, List.drop_left] at h
    cases h
    exact ⟨start, .https hstart, rfl⟩
  rw [if_neg hsecure] at h
  -- Any other scheme is known by a name of its own.
  simp only at h
  split_ifs at h with hname hlong
  · cases h
    rcases hhttp with hhttp | hhttp
    · cases hhttp
    · cases hhttp
  · cases h

theorem splitAuthority?_sound {cs authority rest : List Char}
    (h : splitAuthority? cs = some (authority, rest)) : cs = authority ++ rest ∧
      (∀ c ∈ authority, endsAuthority c = false) ∧ ∀ c ∈ rest.head?, endsAuthority c = true := by
  simp only [splitAuthority?] at h
  split_ifs at h with hauthority
  cases h
  refine ⟨List.takeWhile_append_dropWhile.symm, fun c hc => ?_, fun c hc => ?_⟩
  · simpa using List.mem_takeWhile_imp hc
  · have hnot := List.head?_dropWhile_not (fun c => !endsAuthority c) cs
    rw [hc] at hnot
    simpa using hnot

/-- What is taken from a text ends where it may end and has to. -/
theorem takeWhile_exact {p : Char → Bool} {body rest : List Char} (hbody : ∀ c ∈ body, p c = true)
    (hrest : ∀ c ∈ rest.head?, p c = false) : (body ++ rest).takeWhile p = body := by
  rw [List.takeWhile_append_of_pos hbody]
  cases rest with
  | nil => exact List.append_nil body
  | cons c rest =>
      rw [List.takeWhile_cons_of_neg (by rw [hrest c rfl]; exact Bool.false_ne_true),
        List.append_nil]

-- An authority ends where the first character is that ends it.
theorem cut_unique {authority authority' rest rest' : List Char}
    (h : authority ++ rest = authority' ++ rest')
    (hwithin : ∀ c ∈ authority, endsAuthority c = false)
    (hends : ∀ c ∈ rest.head?, endsAuthority c = true)
    (hwithin' : ∀ c ∈ authority', endsAuthority c = false)
    (hends' : ∀ c ∈ rest'.head?, endsAuthority c = true) :
    authority = authority' ∧ rest = rest' := by
  have htake : ∀ {authority rest : List Char}, (∀ c ∈ authority, endsAuthority c = false) →
      (∀ c ∈ rest.head?, endsAuthority c = true) →
      (authority ++ rest).takeWhile (fun c => !endsAuthority c) = authority :=
    fun hwithin hends => takeWhile_exact (fun c hc => by rw [hwithin c hc]; rfl)
      fun c hc => by rw [hends c hc]; rfl
  have hsame : authority = authority' := by
    rw [← htake hwithin hends, h, htake hwithin' hends']
  rw [hsame] at h
  exact ⟨hsame, List.append_cancel_left h⟩

theorem path_of_splitQuery? {cs path : List Char} {query : Option (List Char)}
    (h : splitQuery? cs = some (path, query)) : path = cs.takeWhile fun c => !endsPath c := by
  have hpath : (cs.takeWhile (· ≠ '#')).takeWhile (· ≠ '?')
      = cs.takeWhile fun c => !endsPath c := by
    rw [List.takeWhile_takeWhile]
    congr 1
    funext c
    simp [endsPath]
  rw [← hpath]
  simp only [splitQuery?] at h
  split at h
  · split at h
    · cases h
      rfl
    · split at h
      · cases h
        rfl
      · cases h
  · cases h

/-- What is read of an address with a scheme. -/
theorem parseFull?_sound {cs : List Char} {u : Uri} {scheme : Scheme} (h : parseFull? cs = some u)
    (hscheme : (∃ rest, splitScheme? cs = some (some scheme, rest)) ∨ u.scheme = some scheme) :
    ∃ rest rest', splitScheme? cs = some (some scheme, rest) ∧ u.scheme = some scheme ∧
      splitAuthority? rest = some (u.authority, rest') ∧ u.authority ≠ [] ∧
      u.path = rest'.takeWhile fun c => !endsPath c := by
  rw [parseFull?, Option.bind_eq_bind, Option.bind_eq_some_iff] at h
  rcases h with ⟨⟨found, rest⟩, hfound, h⟩
  rcases Option.bind_eq_some_iff.mp h with ⟨⟨authority, rest'⟩, hauthority, h⟩
  cases found with
  | none =>
      -- Without a scheme there is an authority alone.
      rcases Option.bind_eq_some_iff.mp h with ⟨_, -, hu⟩
      cases hu
      rcases hscheme with ⟨rest, hrest⟩ | hscheme
      · rw [hfound] at hrest
        cases hrest
      · cases hscheme
  | some found =>
      rcases Option.bind_eq_some_iff.mp h with ⟨_, hsome, h⟩
      rcases Option.bind_eq_some_iff.mp h with ⟨⟨path, query⟩, hquery, hu⟩
      cases hu
      have hsame : found = scheme := by
        rcases hscheme with ⟨rest, hrest⟩ | hscheme
        · rw [hfound] at hrest
          cases hrest
          rfl
        · exact Option.some.inj hscheme
      have hne : authority ≠ [] := by
        rintro rfl
        exact absurd ((Option.guard_eq_some' ()).mp hsome) (by decide)
      exact ⟨rest, rest', hsame ▸ hfound, congrArg some hsame, hauthority, hne,
        path_of_splitQuery? hquery⟩

-- Neither the star nor a path alone has a scheme.
theorem parseFull?_of_parse? {s : String} {u : Uri} (h : parse? s = some u)
    (hfull : (∀ c ∈ s.toList.head?, c ≠ '*' ∧ c ≠ '/') ∨ u.scheme ≠ none) :
    parseFull? s.toList = some u := by
  rw [parse?] at h
  split_ifs at h with hlength
  split at h
  · cases h
  · next hstar =>
    cases h
    rw [hstar] at hfull
    rcases hfull with hfirst | hscheme
    · exact absurd rfl (hfirst '*' rfl).1
    · exact absurd rfl hscheme
  · next cs hslash =>
    rcases Option.map_eq_some_iff.mp h with ⟨parts, -, rfl⟩
    rw [hslash] at hfull
    rcases hfull with hfirst | hscheme
    · exact absurd rfl (hfirst '/' rfl).2
    · exact absurd rfl hscheme
  · exact h

theorem Begins.head? {start rest : List Char} {scheme : Scheme} (h : Begins start scheme) :
    ∀ c ∈ (start ++ rest).head?, c ≠ '*' ∧ c ≠ '/' := by
  have hlower : ∃ tail, start.map Char.toLower = 'h' :: tail := by
    cases h with
    | http h => exact ⟨_, h⟩
    | https h => exact ⟨_, h⟩
  rcases hlower with ⟨tail, hlower⟩
  cases start with
  | nil => cases hlower
  | cons c start =>
      rintro c' ⟨⟩
      have hc : c.toLower = 'h' := (List.cons.inj hlower).1
      refine ⟨?_, ?_⟩
      · rintro rfl
        exact absurd hc (by decide)
      · rintro rfl
        exact absurd hc (by decide)

/-- An address that is read has the parts that it is cut into. -/
theorem parts_of_isCut {s : String} {u : Uri} {scheme : Scheme} {authority rest : List Char}
    (hcut : IsCut s.toList scheme authority rest) (h : parse? s = some u) :
    u.scheme = some scheme ∧ u.authority = authority ∧
      u.path = rest.takeWhile fun c => !endsPath c := by
  rcases hcut.begins with ⟨start, hstart, htext⟩
  have hsplit : splitScheme? (start ++ (authority ++ rest))
      = some (some scheme, authority ++ rest) := splitScheme?_of_begins hstart
  have hfull := parseFull?_of_parse? h (.inl (htext ▸ hstart.head?))
  rw [htext] at hfull
  rcases parseFull?_sound hfull (.inl ⟨_, hsplit⟩) with
    ⟨after, rest', hafter, hscheme, hauthority, -, hpath⟩
  rw [hsplit] at hafter
  cases hafter
  rcases splitAuthority?_sound hauthority with ⟨hsame, hwithin, hends⟩
  rcases cut_unique hsame hcut.within hcut.ends hwithin hends with ⟨rfl, rfl⟩
  exact ⟨hscheme, rfl, hpath⟩

/-- An address of HTTP can be cut. -/
theorem exists_isCut {s : String} {u : Uri} {scheme : Scheme} (h : parse? s = some u)
    (hscheme : u.scheme = some scheme) (hhttp : scheme = .http ∨ scheme = .https) :
    ∃ rest, IsCut s.toList scheme u.authority rest := by
  have hfull := parseFull?_of_parse? h (.inr (by rw [hscheme]; exact Option.some_ne_none _))
  rcases parseFull?_sound hfull (.inr hscheme) with ⟨after, rest, hsplit, -, hauthority, hne, -⟩
  rcases begins_of_splitScheme? hsplit hhttp with ⟨start, hstart, htext⟩
  rcases splitAuthority?_sound hauthority with ⟨rfl, hwithin, hends⟩
  exact ⟨rest, ⟨start, hstart, htext⟩, hne, hwithin, hends⟩

/-! ## An address with a path behind it -/

/-- Slashes are taken off behind the authority, and a path is put there. -/
theorem IsCut.extend {text authority rest path : List Char} {scheme : Scheme}
    (h : IsCut text scheme authority rest) (hpath : path.head? = some '/') :
    IsCut (withoutSlashes text ++ path) scheme authority (withoutSlashes rest ++ path) := by
  rcases h.begins with ⟨start, hstart, rfl⟩
  refine ⟨⟨start, hstart, ?_⟩, h.authority_ne, h.within, fun c hc => ?_⟩
  · -- The last character of the authority is no slash.
    rcases List.eq_nil_or_concat' authority with rfl | ⟨before, last, rfl⟩
    · exact absurd rfl h.authority_ne
    have hlast : last ≠ '/' := by
      rintro rfl
      exact absurd (h.within '/' (by simp)) (by decide)
    have htext : start ++ (before ++ [last] ++ rest) = (start ++ before) ++ last :: rest := by
      simp only [List.append_assoc, List.singleton_append]
    rw [htext, withoutSlashes_append hlast]
    simp only [List.append_assoc, List.cons_append, List.nil_append]
  · cases hkept : withoutSlashes rest with
    | nil =>
        rw [hkept, List.nil_append, hpath] at hc
        cases hc
        rfl
    | cons d later =>
        rw [hkept] at hc
        cases hc
        have hprefix : withoutSlashes rest <+: rest := List.rdropWhile_prefix _ rest
        rcases hprefix with ⟨slashes, hrest⟩
        rw [hkept] at hrest
        exact h.ends c (by rw [← hrest]; rfl)

theorem takeWhile_of_all {text : List Char} (h : ∀ c ∈ text, endsPath c = false) :
    text.takeWhile (fun c => !endsPath c) = text :=
  List.takeWhile_eq_self_iff.mpr fun c hc => by rw [h c hc]; rfl

theorem takeWhile_mark {before : List Char} (h : ∀ c ∈ before, endsPath c = false) {mark : Char}
    (hmark : endsPath mark = true) (after : List Char) :
    (before ++ mark :: after).takeWhile (fun c => !endsPath c) = before := by
  refine takeWhile_exact (fun c hc => by rw [h c hc]; rfl) fun c hc => ?_
  rw [← Option.some.inj hc, hmark]
  rfl

theorem exists_first_mark {text : List Char} (h : ∃ c ∈ text, endsPath c = true) :
    ∃ before mark after, text = before ++ mark :: after ∧ endsPath mark = true ∧
      ∀ c ∈ before, endsPath c = false := by
  induction text with
  | nil =>
      rcases h with ⟨c, hc, -⟩
      exact absurd hc List.not_mem_nil
  | cons c text ih =>
      cases hc : endsPath c with
      | true => exact ⟨[], c, text, rfl, hc, fun d hd => absurd hd List.not_mem_nil⟩
      | false =>
          have hlater : ∃ d ∈ text, endsPath d = true := by
            rcases h with ⟨d, hd, hmark⟩
            rcases List.mem_cons.mp hd with rfl | hd
            · rw [hc] at hmark
              cases hmark
            · exact ⟨d, hd, hmark⟩
          rcases ih hlater with ⟨before, mark, after, rfl, hmark, hbefore⟩
          exact ⟨c :: before, mark, after, rfl, hmark, List.forall_mem_cons.mpr ⟨hc, hbefore⟩⟩

/-- Behind the end of the path nothing is added to it. -/
theorem takeWhile_extend {rest : List Char} (h : ∃ c ∈ rest, endsPath c = true)
    (path : List Char) : (withoutSlashes rest ++ path).takeWhile (fun c => !endsPath c)
      = rest.takeWhile fun c => !endsPath c := by
  rcases exists_first_mark h with ⟨before, mark, after, rfl, hmark, hbefore⟩
  have hslash : mark ≠ '/' := by
    rintro rfl
    exact absurd hmark (by decide)
  rw [withoutSlashes_append hslash, List.append_assoc, List.cons_append,
    takeWhile_mark hbefore hmark, takeWhile_mark hbefore hmark]

theorem endsAuthority_of_endsPath {c : Char} (h : endsPath c = true) : endsAuthority c = true := by
  rw [endsPath, Bool.or_eq_true, decide_eq_true_eq, decide_eq_true_eq] at h
  rcases h with rfl | rfl
  · rfl
  · rfl

theorem not_endsPath_of_begins {start : List Char} {scheme : Scheme} (h : Begins start scheme) :
    ∀ c ∈ start, endsPath c = false := by
  have hlower : (start.map Char.toLower).any endsPath = false := by
    cases h with
    | http h =>
        rw [h]
        decide
    | https h =>
        rw [h]
        decide
  intro c hc
  by_contra hmark
  rw [Bool.not_eq_false, endsPath, Bool.or_eq_true, decide_eq_true_eq, decide_eq_true_eq] at hmark
  refine List.any_eq_false.mp hlower _ (List.mem_map_of_mem hc) ?_
  rcases hmark with rfl | rfl
  · rfl
  · rfl

theorem IsCut.exists_endsPath_iff {text authority rest : List Char} {scheme : Scheme}
    (h : IsCut text scheme authority rest) :
    (∃ c ∈ rest, endsPath c = true) ↔ '?' ∈ text ∨ '#' ∈ text := by
  rcases h.begins with ⟨start, hstart, rfl⟩
  have hrest : ∀ mark, endsPath mark = true →
      (mark ∈ start ++ (authority ++ rest) ↔ mark ∈ rest) := by
    intro mark hmark
    rw [List.mem_append, List.mem_append]
    refine ⟨?_, fun hmem => .inr (.inr hmem)⟩
    rintro (hmem | hmem | hmem)
    · rw [not_endsPath_of_begins hstart mark hmem] at hmark
      cases hmark
    · have hends := h.within mark hmem
      rw [endsAuthority_of_endsPath hmark] at hends
      cases hends
    · exact hmem
  rw [hrest '?' rfl, hrest '#' rfl]
  constructor
  · rintro ⟨c, hc, hmark⟩
    rw [endsPath, Bool.or_eq_true, decide_eq_true_eq, decide_eq_true_eq] at hmark
    rcases hmark with rfl | rfl
    · exact .inl hc
    · exact .inr hc
  · rintro (hmem | hmem)
    · exact ⟨_, hmem, rfl⟩
    · exact ⟨_, hmem, rfl⟩

end Uri

namespace Review

open Uri (withoutSlashes)

theorem Settings.Usable.exists_scheme {s : Settings} (h : s.Usable) : ∃ u scheme,
    Uri.parse? s.url = some u ∧ u.scheme = some scheme ∧ (scheme = .http ∨ scheme = .https) := by
  rcases h.address with ⟨u, hu, hscheme | hscheme⟩
  · exact ⟨u, _, hu, hscheme, .inl rfl⟩
  · exact ⟨u, _, hu, hscheme, .inr rfl⟩

theorem toList_dropSlashes (url : String) :
    (Client.dropSlashes url).toList = withoutSlashes url.toList := by
  rw [Client.dropSlashes, String.toList_ofList]
  rfl

/-- The path of a question ends no path, and begins with a slash but is not made of slashes. -/
theorem endpoint_spec (q : Question) : q.endpoint.toList.head? = some '/' ∧
    (∀ c ∈ q.endpoint.toList, Uri.endsPath c = false) ∧ 'a' ∈ q.endpoint.toList := by
  have hspec : ∀ path ∈ [AccessQuery.path, TokenQuery.path], path.toList.head? = some '/' ∧
      path.toList.any Uri.endsPath = false ∧ 'a' ∈ path.toList := by decide +kernel
  have hpath : q.endpoint ∈ [AccessQuery.path, TokenQuery.path] := by
    cases q with
    | access q => exact List.mem_cons_self
    | token q => exact List.mem_cons_of_mem _ List.mem_cons_self
  rcases hspec q.endpoint hpath with ⟨hslash, hplain, hletter⟩
  exact ⟨hslash, fun c hc => eq_false_of_ne_true (List.any_eq_false.mp hplain c hc), hletter⟩

/-- A question is posted to the authority that is configured, and below its path exactly if nothing
    stands behind this path in the address. -/
theorem asked_below [Wording] {files : Files} {s : Settings} {c : Client}
    (h : Client.ofFiles files s = .ok c) : ∃ u, Uri.parse? s.url = some u ∧
      ∀ (q : Question) (r : Outgoing), c.ask? q = some r →
        r.uri.scheme = u.scheme ∧ r.uri.authority = u.authority ∧
        (r.uri.path = withoutSlashes u.path ++ q.endpoint.toList ↔
          '?' ∉ s.url.toList ∧ '#' ∉ s.url.toList) ∧
        ('?' ∈ s.url.toList ∨ '#' ∈ s.url.toList → r.uri.path = u.path) := by
  have hfollows := Client.ofFiles_eq_ok_iff.mp h
  have hbase := Client.dropSlashes_eq_iff.mpr hfollows.baseUrl
  rcases hfollows.usable.exists_scheme with ⟨u, scheme, hu, hscheme, hhttp⟩
  rcases Uri.exists_isCut hu hscheme hhttp with ⟨rest, hcut⟩
  refine ⟨u, hu, fun q r hr => ?_⟩
  rcases endpoint_spec q with ⟨hslash, hplain, hletter⟩
  have hextended := hcut.extend hslash
  have htarget := (ask?_eq_some_iff.mp hr).1
  rw [← toList_dropSlashes, hbase, ← String.toList_append] at hextended
  rcases Uri.parts_of_isCut hcut hu with ⟨-, -, hpath⟩
  rcases Uri.parts_of_isCut hextended htarget with ⟨hscheme', hauthority', hpath'⟩
  have hmarks := hcut.exists_endsPath_iff
  have hbehind : '?' ∈ s.url.toList ∨ '#' ∈ s.url.toList → r.uri.path = u.path := by
    intro hmark
    rw [hpath', hpath, Uri.takeWhile_extend (hmarks.mpr hmark)]
  refine ⟨hscheme'.trans hscheme.symm, hauthority', ⟨fun hbelow => ?_, ?_⟩, hbehind⟩
  · -- Were there anything behind the path, the path of the question would be made of slashes.
    have hnone : ¬ ('?' ∈ s.url.toList ∨ '#' ∈ s.url.toList) := by
      intro hmark
      rw [hbehind hmark] at hbelow
      have hslashes : u.path.rtakeWhile (· == '/') = q.endpoint.toList :=
        List.append_cancel_left (List.rdropWhile_append_rtakeWhile.trans hbelow)
      rw [← hslashes] at hletter
      exact absurd (List.mem_rtakeWhile_imp (p := (· == '/')) hletter) (by decide)
    exact not_or.mp hnone
  · intro hnone
    have hrest : ∀ c ∈ rest, Uri.endsPath c = false := fun c hc =>
      Bool.eq_false_iff.mpr fun hmark => not_or.mpr hnone (hmarks.mp ⟨c, hc, hmark⟩)
    have hall : ∀ c ∈ withoutSlashes rest ++ q.endpoint.toList, Uri.endsPath c = false := by
      intro c hc
      rcases List.mem_append.mp hc with hc | hc
      · exact hrest c ((List.rdropWhile_prefix _ rest).mem hc)
      · exact hplain c hc
    rw [hpath', hpath, Uri.takeWhile_of_all hrest, Uri.takeWhile_of_all hall]

/-- Slashes at the end of the path, a port, and letters of either case make no difference. -/
theorem asked_below_slashes : ∃ r : Outgoing,
    (Client.mk "HTTPS://authority:6443/k8s" none 1000 ⟨none, none⟩).ask? (.token ⟨"opaque"⟩)
        = some r ∧
      r.uri.scheme = some .https ∧ r.uri.authority = "authority:6443".toList ∧
      r.uri.path = "/k8s/apis/authentication.k8s.io/v1/tokenreviews".toList := by
  let _ : Wording := .own
  have hclient : Client.ofFiles (fun _ => .error .noSuchFile)
      ⟨"HTTPS://authority:6443/k8s//", 1000, none, none, none, none⟩
      = .ok ⟨"HTTPS://authority:6443/k8s", none, 1000, ⟨none, none⟩⟩ := rfl
  have hasked : (Client.mk "HTTPS://authority:6443/k8s" none 1000 ⟨none, none⟩).ask?
      (.token ⟨"opaque"⟩) = some {
        uri := ⟨some .https, "authority:6443".toList,
          "/k8s/apis/authentication.k8s.io/v1/tokenreviews".toList, none⟩
        authorization := none
        body := Json.encode (Question.meaning (.token ⟨"opaque"⟩)) } :=
    ask?_eq_some_iff.mpr ⟨by decide +kernel, rfl, rfl⟩
  have haddress : Uri.parse? "HTTPS://authority:6443/k8s//"
      = some ⟨some .https, "authority:6443".toList, "/k8s//".toList, none⟩ := by decide +kernel
  rcases asked_below hclient with ⟨u, hu, hall⟩
  rw [haddress] at hu
  cases hu
  rcases hall _ _ hasked with ⟨hscheme, hauthority, hpath, -⟩
  exact ⟨_, hasked, hscheme, hauthority, hpath.mpr ⟨by decide, by decide⟩⟩

/-- Not every address has the questions asked below its path. Behind a fragment they are posted to
    the path itself. -/
theorem not_asked_below_fragment :
    let _ : Wording := .own
    ¬ ∀ (files : Files) (s : Settings) (c : Client) (u : Uri) (q : Question) (r : Outgoing),
      Client.ofFiles files s = .ok c → Uri.parse? s.url = some u → c.ask? q = some r →
        r.uri.path = withoutSlashes u.path ++ q.endpoint.toList := by
  intro _ h
  have hpath := h (fun _ => .error .noSuchFile)
    ⟨"http://authority/k8s#main", 1000, none, none, none, none⟩
    ⟨"http://authority/k8s#main", none, 1000, ⟨none, none⟩⟩
    ⟨some .http, "authority".toList, "/k8s".toList, none⟩
    (.access (.impersonate "alice" [] .users "bob"))
    ⟨⟨some .http, "authority".toList, "/k8s".toList, none⟩, none,
      Json.encode (Question.meaning (.access (.impersonate "alice" [] .users "bob")))⟩
    rfl (by decide +kernel) (ask?_eq_some_iff.mpr ⟨by decide +kernel, rfl, rfl⟩)
  exact absurd hpath (by decide +kernel)

end Review

end ForwardAuth
