import ForwardAuth.Proofs.Addresses
import ForwardAuth.Proofs.Answer

/-!
# When a question can be posted

A client is set up without looking at the requests that it will send. It has read the address of the
authority, but not the address of a question, which is longer, and it has read the token that it
shows as a text, but not as a header. So there are clients that were set up and cannot ask anything,
and every question they are given ends in an error before a request exists.

How far this goes is decided here. The address of a question has the authority of the configured
one, and behind it slashes are taken off and a path is put. All of these are characters that may
stand in a path and in a query and that end neither of them (`isPlain`), so they make no difference
to whether the address can be read. What is left is its length. The token makes a header unless it
holds a control byte, as any other text does.

## Main definitions

* `Uri.isPlain`: The character may stand in a path and in a query.
* `Client.CanAsk`: The client can put together the request for a kind of questions.

## Theorems

* `splitQuery?_append_isSome`: Plain characters at the end do not decide whether a path is read.
* `isSome_parse?_of_isCut`: An address that is cut is read if its parts are.
* `isSome_parse?_below`: The address of a question is read unless it is too long.
* `writable_append`: A text is writable if both of its parts are.
* `isSome_ask?_iff`: A question can be posted exactly if the client can ask questions of its kind.
-/

namespace ForwardAuth

namespace Uri

/-- The character may stand in a path and in a query, and ends neither. -/
def isPlain (c : Char) : Bool :=
  isPathChar c && isQueryChar c && !endsPath c

/-! ## Reading a path and a query -/

/-- A fragment is not looked at. -/
theorem splitQuery?_fragment {sent : List Char} (h : '#' ∉ sent) (fragment : List Char) :
    splitQuery? (sent ++ '#' :: fragment) = splitQuery? sent := by
  have hmarked : (sent ++ '#' :: fragment).takeWhile (· ≠ '#') = sent :=
    takeWhile_exact (fun c hc => decide_eq_true (ne_of_mem_of_not_mem hc h))
      (by rintro c ⟨⟩; rfl)
  have hall : sent.takeWhile (· ≠ '#') = sent :=
    List.takeWhile_eq_self_iff.mpr fun c hc => decide_eq_true (ne_of_mem_of_not_mem hc h)
  simp only [splitQuery?, hmarked, hall]

theorem isSome_splitQuery?_path {path : List Char} (hfragment : '#' ∉ path) (hquery : '?' ∉ path) :
    (splitQuery? path).isSome = path.all isPathChar := by
  have hsent : path.takeWhile (· ≠ '#') = path :=
    List.takeWhile_eq_self_iff.mpr fun c hc => decide_eq_true (ne_of_mem_of_not_mem hc hfragment)
  have hpath : path.takeWhile (· ≠ '?') = path :=
    List.takeWhile_eq_self_iff.mpr fun c hc => decide_eq_true (ne_of_mem_of_not_mem hc hquery)
  simp only [splitQuery?, hsent, hpath, List.drop_length]
  by_cases hall : path.all isPathChar = true
  · rw [if_pos hall, hall]
    rfl
  · rw [if_neg hall, Bool.eq_false_iff.mpr hall]
    rfl

theorem isSome_splitQuery?_query {path query : List Char} (hpath : '#' ∉ path)
    (hquery : '#' ∉ query) (hmark : '?' ∉ path) :
    (splitQuery? (path ++ '?' :: query)).isSome
      = (path.all isPathChar && query.all isQueryChar) := by
  have hnone : ∀ c ∈ path ++ '?' :: query, decide (c ≠ '#') = true := by
    intro c hc
    rcases List.mem_append.mp hc with hc | hc
    · exact decide_eq_true (ne_of_mem_of_not_mem hc hpath)
    · rcases List.mem_cons.mp hc with rfl | hc
      · decide
      · exact decide_eq_true (ne_of_mem_of_not_mem hc hquery)
  have hsent : (path ++ '?' :: query).takeWhile (· ≠ '#') = path ++ '?' :: query :=
    List.takeWhile_eq_self_iff.mpr hnone
  have hcut : (path ++ '?' :: query).takeWhile (· ≠ '?') = path :=
    takeWhile_exact (fun c hc => decide_eq_true (ne_of_mem_of_not_mem hc hmark))
      (by rintro c ⟨⟩; rfl)
  simp only [splitQuery?, hsent, hcut, List.drop_left]
  by_cases hall : path.all isPathChar = true
  · rw [if_pos hall, hall]
    by_cases hallquery : query.all isQueryChar = true
    · rw [if_pos hallquery, hallquery]
      rfl
    · rw [if_neg hallquery, Bool.eq_false_iff.mpr hallquery]
      rfl
  · rw [if_neg hall, Bool.eq_false_iff.mpr hall]
    rfl

/-- Plain characters at the end do not decide whether a path and a query are read. -/
theorem splitQuery?_append_isSome {added : List Char} (h : ∀ c ∈ added, isPlain c = true)
    (cs : List Char) : (splitQuery? (cs ++ added)).isSome = (splitQuery? cs).isSome := by
  have hallpath : added.all isPathChar = true := by
    refine List.all_eq_true.mpr fun c hc => ?_
    have hplain := h c hc
    rw [isPlain, Bool.and_eq_true, Bool.and_eq_true] at hplain
    exact hplain.1.1
  have hallquery : added.all isQueryChar = true := by
    refine List.all_eq_true.mpr fun c hc => ?_
    have hplain := h c hc
    rw [isPlain, Bool.and_eq_true, Bool.and_eq_true] at hplain
    exact hplain.1.2
  have hnomark : ∀ mark, endsPath mark = true → mark ∉ added := by
    intro mark hmark hmem
    have hplain := h mark hmem
    rw [isPlain, hmark, Bool.not_true, Bool.and_false] at hplain
    exact absurd hplain Bool.false_ne_true
  -- What is added belongs to the fragment, to the query or to the path, whichever comes last.
  by_cases hfragment : '#' ∈ cs
  · rcases List.eq_append_cons_of_mem hfragment with ⟨sent, fragment, rfl, hsent⟩
    rw [List.append_assoc, List.cons_append, splitQuery?_fragment hsent,
      splitQuery?_fragment hsent]
  by_cases hquery : '?' ∈ cs
  · rcases List.eq_append_cons_of_mem hquery with ⟨path, query, rfl, hpath⟩
    rw [List.mem_append, List.mem_cons, not_or, not_or] at hfragment
    rcases hfragment with ⟨hbefore, -, hbehind⟩
    have hextended : '#' ∉ query ++ added := by
      rw [List.mem_append, not_or]
      exact ⟨hbehind, hnomark '#' rfl⟩
    rw [List.append_assoc, List.cons_append, isSome_splitQuery?_query hbefore hextended hpath,
      isSome_splitQuery?_query hbefore hbehind hpath, List.all_append, hallquery, Bool.and_true]
  · have hfragment' : '#' ∉ cs ++ added := by
      rw [List.mem_append, not_or]
      exact ⟨hfragment, hnomark '#' rfl⟩
    have hquery' : '?' ∉ cs ++ added := by
      rw [List.mem_append, not_or]
      exact ⟨hquery, hnomark '?' rfl⟩
    rw [isSome_splitQuery?_path hfragment' hquery', isSome_splitQuery?_path hfragment hquery,
      List.all_append, hallpath, Bool.and_true]

/-! ## Reading an address with a path behind it -/

-- Neither the star nor a path alone begins like an address with a scheme.
theorem parse?_eq_parseFull? {s : String} (hne : s.toList ≠ [])
    (hfirst : ∀ c ∈ s.toList.head?, c ≠ '*' ∧ c ≠ '/') (hshort : s.utf8ByteSize ≤ maxLength) :
    parse? s = parseFull? s.toList := by
  rw [parse?, if_neg (by omega)]
  split
  · next hempty => exact absurd hempty hne
  · next hstar =>
    rw [hstar] at hfirst
    exact absurd rfl (hfirst '*' rfl).1
  · next hslash =>
    rw [hslash] at hfirst
    exact absurd rfl (hfirst '/' rfl).2
  · rfl

theorem isSome_parseFull?_of_isCut {text : List Char} {scheme : Scheme}
    {authority rest : List Char} (h : IsCut text scheme authority rest) :
    (parseFull? text).isSome = true ↔
      isAuthority authority = true ∧ (splitQuery? rest).isSome = true := by
  rcases h.begins with ⟨start, hstart, rfl⟩
  have htake : (authority ++ rest).takeWhile (fun c => !endsAuthority c) = authority :=
    takeWhile_exact (fun c hc => by rw [h.within c hc]; rfl) fun c hc => by rw [h.ends c hc]; rfl
  have hdrop : (authority ++ rest).dropWhile (fun c => !endsAuthority c) = rest := by
    have hwhole := List.takeWhile_append_dropWhile (p := fun c => !endsAuthority c)
      (l := authority ++ rest)
    rw [htake] at hwhole
    exact List.append_cancel_left hwhole
  have hne : (!authority.isEmpty) = true := by
    rw [Bool.not_eq_true', List.isEmpty_eq_false_iff]
    exact h.authority_ne
  have hsplit : splitAuthority? (authority ++ rest)
      = if isAuthority authority = true then some (authority, rest) else none := by
    simp only [splitAuthority?, htake, hdrop]
  simp only [parseFull?, splitScheme?_of_begins hstart, hsplit, Option.bind_eq_bind,
    Option.bind_some]
  by_cases hauthority : isAuthority authority = true
  · simp only [hauthority, if_true, Option.bind_some, (Option.guard_eq_some' ()).mpr hne, true_and]
    cases splitQuery? rest with
    | none => exact Iff.rfl
    | some parts => exact Iff.rfl
  · rw [if_neg hauthority]
    exact ⟨fun hsome => absurd hsome Bool.false_ne_true, fun hparts => absurd hparts.1 hauthority⟩

/-- An address that is cut is read if its parts are and it is not too long. -/
theorem isSome_parse?_of_isCut {s : String} {scheme : Scheme} {authority rest : List Char}
    (h : IsCut s.toList scheme authority rest) : (parse? s).isSome = true ↔
      s.utf8ByteSize ≤ maxLength ∧ isAuthority authority = true ∧
        (splitQuery? rest).isSome = true := by
  rcases h.begins with ⟨start, hstart, htext⟩
  have hfirst : ∀ c ∈ s.toList.head?, c ≠ '*' ∧ c ≠ '/' := htext ▸ hstart.head?
  have hne : s.toList ≠ [] := by
    intro hempty
    rw [htext] at hempty
    exact h.authority_ne (List.append_eq_nil_iff.mp (List.append_eq_nil_iff.mp hempty).2).1
  by_cases hshort : s.utf8ByteSize ≤ maxLength
  · rw [parse?_eq_parseFull? hne hfirst hshort, isSome_parseFull?_of_isCut h]
    exact ⟨fun hparts => ⟨hshort, hparts⟩, fun hparts => hparts.2⟩
  · rw [parse?, if_pos (by omega)]
    exact ⟨fun hsome => absurd hsome Bool.false_ne_true, fun hparts => absurd hparts.1 hshort⟩

/-- Slashes are taken off an address and a path is put behind it. It is read unless it is too
    long. -/
theorem isSome_parse?_below {url extended : String} {u : Uri} {scheme : Scheme} {path : List Char}
    (h : parse? url = some u) (hscheme : u.scheme = some scheme)
    (hhttp : scheme = .http ∨ scheme = .https) (hslash : path.head? = some '/')
    (hplain : ∀ c ∈ path, isPlain c = true)
    (hextended : extended.toList = withoutSlashes url.toList ++ path) :
    (parse? extended).isSome = true ↔ extended.utf8ByteSize ≤ maxLength := by
  rcases exists_isCut h hscheme hhttp with ⟨rest, hcut⟩
  have hread := (isSome_parse?_of_isCut hcut).mp (by rw [h]; rfl)
  have hlonger := hcut.extend hslash
  rw [← hextended] at hlonger
  rw [isSome_parse?_of_isCut hlonger]
  refine ⟨fun hparts => hparts.1, fun hshort => ⟨hshort, hread.2.1, ?_⟩⟩
  -- The slashes that were taken off are plain, and so is the path.
  have hslashes : ∀ c ∈ rest.rtakeWhile (· == '/'), isPlain c = true := by
    intro c hc
    have hc' : (c == '/') = true := List.mem_rtakeWhile_imp (p := (· == '/')) hc
    rw [beq_iff_eq.mp hc']
    decide
  have hrest : (splitQuery? (withoutSlashes rest ++ rest.rtakeWhile (· == '/'))).isSome = true := by
    rw [withoutSlashes, List.rdropWhile_append_rtakeWhile]
    exact hread.2.2
  rw [splitQuery?_append_isSome hslashes] at hrest
  rw [splitQuery?_append_isSome hplain]
  exact hrest

end Uri

/-! ## The token -/

theorem writable_append (before after : String) :
    Writable (before ++ after) ↔ Writable before ∧ Writable after := by
  simp only [Writable, toList_toUTF8, String.toList_append, List.flatMap_append, List.mem_append]
  exact ⟨fun h => ⟨fun b hb => h b (.inl hb), fun b hb => h b (.inr hb)⟩,
    fun h b hb => hb.elim (h.1 b) (h.2 b)⟩

namespace Review

open Uri (withoutSlashes)
open Metrics (ReviewKind)

theorem isSome_authorization?_iff (token : String) :
    (Client.authorization? token).isSome = true ↔ Writable token := by
  have hword : Writable "Bearer " := by
    unfold Writable
    decide +kernel
  rw [Client.authorization?, Option.isSome_iff_exists, Http.HeaderValue.exists_ofString?_iff,
    writable_append]
  exact ⟨fun h => h.2, fun h => ⟨hword, h⟩⟩

/-! ## The request -/

/-- The kind of a question. -/
def Question.kind : Question → ReviewKind
  | .access _ => .access
  | .token _ => .token

/-- The path of the questions of a kind. -/
def pathOf : ReviewKind → String
  | .access => AccessQuery.path
  | .token => TokenQuery.path

theorem pathOf_kind (q : Question) : pathOf q.kind = q.endpoint := by
  cases q with
  | access q => rfl
  | token q => rfl

/-- The client can put together the request for a question of a kind: its address is short enough,
    and the token makes a header. -/
structure Client.CanAsk (c : Client) (kind : ReviewKind) : Prop where
  short : (c.baseUrl ++ pathOf kind).utf8ByteSize ≤ Uri.maxLength
  writable : ∀ token ∈ c.bearerToken, Writable token

/-- A question can be posted exactly if the client can ask questions of its kind. -/
theorem isSome_ask?_iff [Wording] {files : Files} {s : Settings} {c : Client}
    (h : Client.ofFiles files s = .ok c) (q : Question) :
    (c.ask? q).isSome = true ↔ c.CanAsk q.kind := by
  have hfollows := Client.ofFiles_eq_ok_iff.mp h
  rcases hfollows.usable.exists_scheme with ⟨u, scheme, hu, hscheme, hhttp⟩
  have hplain : ∀ c ∈ q.endpoint.toList, Uri.isPlain c = true := by
    have hboth : ∀ kind : ReviewKind, (pathOf kind).toList.all Uri.isPlain = true := by
      rintro (_ | _)
      · decide +kernel
      · decide +kernel
    rw [← pathOf_kind]
    exact List.all_eq_true.mp (hboth q.kind)
  have haddress : (Uri.parse? (c.baseUrl ++ q.endpoint)).isSome = true ↔
      (c.baseUrl ++ q.endpoint).utf8ByteSize ≤ Uri.maxLength := by
    refine Uri.isSome_parse?_below hu hscheme hhttp (endpoint_spec q).1 hplain ?_
    rw [String.toList_append, ← Client.dropSlashes_eq_iff.mpr hfollows.baseUrl, toList_dropSlashes]
  have htoken : (c.bearerToken.mapM Client.authorization?).isSome = true ↔
      ∀ token ∈ c.bearerToken, Writable token := by
    cases c.bearerToken with
    | none => exact ⟨fun _ token hmem => absurd hmem (Option.not_mem_none _), fun _ => rfl⟩
    | some token =>
        have hone : ((some token).mapM Client.authorization?).isSome
            = (Client.authorization? token).isSome := by
          change ((Client.authorization? token).map some).isSome = _
          exact Option.isSome_map
        rw [hone, isSome_authorization?_iff]
        exact ⟨fun hwritable t ht => Option.mem_some_iff.mp ht ▸ hwritable,
          fun hall => hall token rfl⟩
  rw [Option.isSome_iff_exists]
  constructor
  · rintro ⟨r, hr⟩
    rcases ask?_eq_some_iff.mp hr with ⟨huri, hauthorization, -⟩
    refine ⟨?_, htoken.mp (Option.isSome_iff_exists.mpr ⟨_, hauthorization⟩)⟩
    rw [pathOf_kind]
    exact haddress.mp (Option.isSome_iff_exists.mpr ⟨_, huri⟩)
  · rintro ⟨hshort, hwritable⟩
    rw [pathOf_kind] at hshort
    rcases Option.isSome_iff_exists.mp (haddress.mpr hshort) with ⟨uri, huri⟩
    rcases Option.isSome_iff_exists.mp (htoken.mpr hwritable) with ⟨authorization, hauthorization⟩
    exact ⟨⟨uri, authorization, Json.encode q.meaning⟩,
      ask?_eq_some_iff.mpr ⟨huri, hauthorization, rfl⟩⟩

end Review

end ForwardAuth
