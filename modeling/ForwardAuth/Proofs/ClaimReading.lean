import ForwardAuth.Proofs.Partwise
import ForwardAuth.Token.Claims

/-!
# Claims are read in one order

What the claims of a token say is decided by at most three of them, which are looked at in a fixed
order: first the issuer, and then either the subject and the namespace, or the claim that names the
user and the groups. The first that is not as it should be is the one that is reported, so callers
can tell from an error what was found in order before it.

`Reading` states this without the order of a computation: each of its rules says all that holds of
the claims when something comes of them. Since the claim that names the user is chosen by the
configuration, it may be any of the others, and no rule asks for it to be a different one.

## Main definitions

* `Says`: A claim that is a string.
* `IsSilent`: A claim that is left out or is no string.
* `IsNoList`: A value that is no list of strings.
* `Reading`: What comes of claims.

## Theorems

* `string?_eq_some_iff`, `string?_eq_none_iff`: When a claim is taken for a string.
* `mapM_string?_eq_some_iff`: When items are taken for strings.
* `requireString_eq_ok`, `requireGroups_of_strings`: What is read of claims that are in order.
* `decode_of_reading`: What a rule says comes of claims is read of them.
* `reading_decode`: There is a rule for all claims.
* `decode_in_order`: Claims are read in one order, and nothing else is read of them.
-/

namespace ForwardAuth.Token.Claims

/-- The claim with a name is this string. -/
def Says (claims : Json.Members) (name value : String) : Prop :=
  claims.get? name = some (.string value)

/-- The claim with a name is left out, or is no string. -/
def IsSilent (claims : Json.Members) (name : String) : Prop :=
  ∀ value, ¬ Says claims name value

/-- The value is no list of strings: it is no array, or an item of it is no string. -/
def IsNoList (value : Json) : Prop :=
  (∀ items, value ≠ .array items) ∨
    ∃ items, value = .array items ∧ ∃ item ∈ items, ∀ text, item ≠ .string text

/-- What comes of claims if the user is named by the claim `usernameClaim`: what they say of the
    bearer, or the first thing in them that is not as it should be. -/
inductive Reading (claims : Json.Members) (usernameClaim : String) : Except Refusal Claims → Prop
    where
  | serviceAccount {subject space : String}
    (hissuer : Says claims "iss" "kubernetes/serviceaccount") (hsubject : Says claims "sub" subject)
    (hspace : Says claims "kubernetes.io/serviceaccount/namespace" space) :
    Reading claims usernameClaim (.ok (.serviceAccount subject space))
  | noSubject (hissuer : Says claims "iss" "kubernetes/serviceaccount")
    (hsubject : IsSilent claims "sub") :
    Reading claims usernameClaim (.error (.claimType "sub"))
  | noSpace {subject : String} (hissuer : Says claims "iss" "kubernetes/serviceaccount")
    (hsubject : Says claims "sub" subject)
    (hspace : IsSilent claims "kubernetes.io/serviceaccount/namespace") :
    Reading claims usernameClaim (.error (.claimType "kubernetes.io/serviceaccount/namespace"))
  | noUsername (hissuer : ¬ Says claims "iss" "kubernetes/serviceaccount")
    (husername : IsSilent claims usernameClaim) :
    Reading claims usernameClaim (.error (.missingUsernameClaim usernameClaim))
  | noGroups {username : String} (hissuer : ¬ Says claims "iss" "kubernetes/serviceaccount")
    (husername : Says claims usernameClaim username) (hgroups : claims.get? "groups" = none) :
    Reading claims usernameClaim (.error .missingGroupsClaim)
  | noList {username : String} {value : Json}
    (hissuer : ¬ Says claims "iss" "kubernetes/serviceaccount")
    (husername : Says claims usernameClaim username) (hvalue : claims.get? "groups" = some value)
    (hgroups : IsNoList value) :
    Reading claims usernameClaim (.error (.claimType "groups"))
  | generic {username : String} {groups : List String}
    (hissuer : ¬ Says claims "iss" "kubernetes/serviceaccount")
    (husername : Says claims usernameClaim username)
    (hgroups : claims.get? "groups" = some (.array (groups.map .string))) :
    Reading claims usernameClaim (.ok (.generic username groups))

/-! ## Strings -/

theorem string?_eq_some_iff {claims : Json.Members} {name value : String} :
    string? claims name = some value ↔ Says claims name value := by
  rw [string?, Says]
  constructor
  · intro h
    rcases Option.bind_eq_some_iff.mp h with ⟨v, hv, hvalue⟩
    rw [hv, Json.string?_eq_some_iff.mp hvalue]
  · intro h
    rw [h]
    rfl

theorem string?_eq_none_iff {claims : Json.Members} {name : String} :
    string? claims name = none ↔ IsSilent claims name := by
  rw [Option.eq_none_iff_forall_ne_some]
  exact forall_congr' fun value => not_congr string?_eq_some_iff

theorem mapM_string?_eq_some_iff {items : List Json} {texts : List String} :
    items.mapM Json.string? = some texts ↔ items = texts.map .string := by
  rw [mapM_eq_some_iff_forall₂, forall₂_congr_of_mem fun item _ text => Json.string?_eq_some_iff,
    ← forall₂_eq_map_iff]
  exact ⟨List.Forall₂.flip, List.Forall₂.flip⟩

/-! ## The order -/

theorem requireString_eq_ok {claims : Json.Members} {name value : String}
    (h : Says claims name value) : requireString claims name = .ok value := by
  rw [requireString, string?_eq_some_iff.mpr h]
  rfl

theorem requireString_of_isSilent {claims : Json.Members} {name : String}
    (h : IsSilent claims name) : requireString claims name = .error (.claimType name) := by
  rw [requireString, string?_eq_none_iff.mpr h]
  rfl

theorem requireGroups_of_isNoList {claims : Json.Members} {value : Json}
    (hvalue : claims.get? "groups" = some value) (h : IsNoList value) :
    requireGroups claims = .error (.claimType "groups") := by
  rw [requireGroups, groupsClaim, hvalue]
  rcases h with hother | ⟨items, rfl, item, hitem, hodd⟩
  · cases value with
    | array items => exact absurd rfl (hother items)
    | _ => rfl
  · -- Were the items read, then this one would be a string.
    have hnone : items.mapM Json.string? = none := by
      rw [Option.eq_none_iff_forall_ne_some]
      intro texts htexts
      rw [mapM_string?_eq_some_iff.mp htexts] at hitem
      rcases List.mem_map.mp hitem with ⟨text, -, htext⟩
      exact hodd text htext.symm
    change (items.mapM Json.string?).elim _ _ = _
    rw [hnone]
    rfl

theorem requireGroups_of_strings {claims : Json.Members} {groups : List String}
    (h : claims.get? "groups" = some (.array (groups.map .string))) :
    requireGroups claims = .ok groups := by
  rw [requireGroups, groupsClaim, h]
  change ((groups.map Json.string).mapM Json.string?).elim _ _ = _
  rw [mapM_string?_eq_some_iff.mpr rfl]
  rfl

theorem strings_or_odd (items : List Json) :
    (∃ texts : List String, items = texts.map .string) ∨
      ∃ item ∈ items, ∀ text, item ≠ .string text := by
  induction items with
  | nil => exact Or.inl ⟨[], rfl⟩
  | cons item items ih =>
      rcases ih with ⟨texts, rfl⟩ | ⟨odd, hodd, htext⟩
      · cases item with
        | string text => exact Or.inl ⟨text :: texts, rfl⟩
        | _ => exact Or.inr ⟨_, List.mem_cons_self, by rintro text ⟨⟩⟩
      · exact Or.inr ⟨odd, List.mem_cons_of_mem _ hodd, htext⟩

theorem list_or_isNoList (value : Json) :
    (∃ groups : List String, value = .array (groups.map .string)) ∨ IsNoList value := by
  cases value with
  | array items =>
      rcases strings_or_odd items with ⟨groups, rfl⟩ | hodd
      · exact Or.inl ⟨groups, rfl⟩
      · exact Or.inr (Or.inr ⟨items, rfl, hodd⟩)
  | _ => exact Or.inr (Or.inl (by rintro items ⟨⟩))

theorem says_or_isSilent (claims : Json.Members) (name : String) :
    (∃ value, Says claims name value) ∨ IsSilent claims name := by
  cases h : string? claims name with
  | none => exact Or.inr (string?_eq_none_iff.mp h)
  | some value => exact Or.inl ⟨value, string?_eq_some_iff.mp h⟩

/-- What a rule says comes of claims is read of them. -/
theorem decode_of_reading {claims : Json.Members} {usernameClaim : String}
    {outcome : Except Refusal Claims} (h : Reading claims usernameClaim outcome) :
    decode claims usernameClaim = outcome := by
  have hissuer : string? claims "iss" = some serviceAccountIssuer ↔
      Says claims "iss" "kubernetes/serviceaccount" := string?_eq_some_iff
  unfold decode
  cases h with
  | serviceAccount hissued hsubject hspace =>
      rw [if_pos (hissuer.mpr hissued), requireString_eq_ok hsubject, namespaceClaim,
        requireString_eq_ok hspace]
      rfl
  | noSubject hissued hsubject =>
      rw [if_pos (hissuer.mpr hissued), requireString_of_isSilent hsubject]
      rfl
  | noSpace hissued hsubject hspace =>
      rw [if_pos (hissuer.mpr hissued), requireString_eq_ok hsubject, namespaceClaim,
        requireString_of_isSilent hspace]
      rfl
  | noUsername hissued husername =>
      rw [if_neg (mt hissuer.mp hissued), string?_eq_none_iff.mpr husername]
      rfl
  | noGroups hissued husername hgroups =>
      rw [if_neg (mt hissuer.mp hissued), string?_eq_some_iff.mpr husername, requireGroups,
        groupsClaim, hgroups]
      rfl
  | noList hissued husername hvalue hgroups =>
      rw [if_neg (mt hissuer.mp hissued), string?_eq_some_iff.mpr husername,
        requireGroups_of_isNoList hvalue hgroups]
      rfl
  | generic hissued husername hgroups =>
      rw [if_neg (mt hissuer.mp hissued), string?_eq_some_iff.mpr husername,
        requireGroups_of_strings hgroups]
      rfl

/-- There is a rule for all claims. -/
theorem reading_decode (claims : Json.Members) (usernameClaim : String) :
    Reading claims usernameClaim (decode claims usernameClaim) := by
  -- Whatever rule there is for the claims, it says what is read of them.
  have hsome : ∃ outcome, Reading claims usernameClaim outcome := by
    by_cases hissuer : Says claims "iss" "kubernetes/serviceaccount"
    · rcases says_or_isSilent claims "sub" with ⟨subject, hsubject⟩ | hsubject
      · rcases says_or_isSilent claims "kubernetes.io/serviceaccount/namespace" with
          ⟨space, hspace⟩ | hspace
        · exact ⟨_, .serviceAccount hissuer hsubject hspace⟩
        · exact ⟨_, .noSpace hissuer hsubject hspace⟩
      · exact ⟨_, .noSubject hissuer hsubject⟩
    · rcases says_or_isSilent claims usernameClaim with ⟨username, husername⟩ | husername
      · cases hvalue : claims.get? "groups" with
        | none => exact ⟨_, .noGroups hissuer husername hvalue⟩
        | some value =>
            rcases list_or_isNoList value with ⟨groups, rfl⟩ | hgroups
            · exact ⟨_, .generic hissuer husername hvalue⟩
            · exact ⟨_, .noList hissuer husername hvalue hgroups⟩
      · exact ⟨_, .noUsername hissuer husername⟩
  rcases hsome with ⟨outcome, houtcome⟩
  rw [decode_of_reading houtcome]
  exact houtcome

/-! ## What is read -/

theorem groups_ne (space : String) :
    "system:serviceaccounts" ≠ "system:serviceaccounts:" ++ space := by
  intro h
  have hlength := congrArg String.length h
  rw [String.length_append] at hlength
  have hshort : "system:serviceaccounts".length < "system:serviceaccounts:".length := by decide
  omega

theorem groups_identity_serviceAccount (subject space : String) :
    (identity (.serviceAccount subject space)).groups
      = ["system:serviceaccounts", "system:serviceaccounts:" ++ space] := by
  have hspace : serviceAccountsGroup ++ ":" ++ space = "system:serviceaccounts:" ++ space := rfl
  have hnodup : ["system:serviceaccounts", "system:serviceaccounts:" ++ space].Nodup := by
    rw [List.nodup_cons, List.mem_singleton]
    exact ⟨groups_ne space, List.pairwise_singleton _ _⟩
  rw [identity, hspace]
  exact firstOccurrences_of_nodup hnodup

theorem Reading.of_serviceAccount {claims claims' : Json.Members} {usernameClaim : String}
    {outcome : Except Refusal Claims} (h : Reading claims usernameClaim outcome)
    (hissuer : Says claims "iss" "kubernetes/serviceaccount")
    (hsame : claims'.get? "iss" = claims.get? "iss")
    (hsub : claims'.get? "sub" = claims.get? "sub")
    (hnamespace : claims'.get? "kubernetes.io/serviceaccount/namespace"
      = claims.get? "kubernetes.io/serviceaccount/namespace") (usernameClaim' : String) :
    Reading claims' usernameClaim' outcome := by
  have hissuer' : Says claims' "iss" "kubernetes/serviceaccount" := hsame.trans hissuer
  cases h with
  | serviceAccount _ hsubject hspace =>
      exact .serviceAccount hissuer' (hsub.trans hsubject) (hnamespace.trans hspace)
  | noSubject _ hsubject =>
      exact .noSubject hissuer' fun value hvalue => hsubject value (hsub.symm.trans hvalue)
  | noSpace _ hsubject hspace =>
      exact .noSpace hissuer' (hsub.trans hsubject) fun value hvalue =>
        hspace value (hnamespace.symm.trans hvalue)
  | noUsername hother _ => exact absurd hissuer hother
  | noGroups hother _ _ => exact absurd hissuer hother
  | noList hother _ _ _ => exact absurd hissuer hother
  | generic hother _ _ => exact absurd hissuer hother

theorem Reading.of_other {claims claims' : Json.Members} {usernameClaim : String}
    {outcome : Except Refusal Claims} (h : Reading claims usernameClaim outcome)
    (hother : ¬ Says claims "iss" "kubernetes/serviceaccount")
    (hother' : ¬ Says claims' "iss" "kubernetes/serviceaccount")
    (hnamed : claims'.get? usernameClaim = claims.get? usernameClaim)
    (hlisted : claims'.get? "groups" = claims.get? "groups") :
    Reading claims' usernameClaim outcome := by
  cases h with
  | serviceAccount hissuer _ _ => exact absurd hissuer hother
  | noSubject hissuer _ => exact absurd hissuer hother
  | noSpace hissuer _ _ => exact absurd hissuer hother
  | noUsername _ husername =>
      exact .noUsername hother' fun value hvalue => husername value (hnamed.symm.trans hvalue)
  | noGroups _ husername hgroups =>
      exact .noGroups hother' (hnamed.trans husername) (hlisted.trans hgroups)
  | noList _ husername hvalue hgroups =>
      exact .noList hother' (hnamed.trans husername) (hlisted.trans hvalue) hgroups
  | generic _ husername hgroups =>
      exact .generic hother' (hnamed.trans husername) (hlisted.trans hgroups)

/-- Claims are read in one order, and nothing else is read of them. What comes of them is what a
    rule of `Reading` says. The identity of a service account has its subject for a name and two
    groups, which are never the same, and any other identity has the user and the groups that are
    claimed, each group once. Other claims may change as they like: of a service account all but the
    issuer, the subject and the namespace, together with the name of the claim for the user, and of
    anyone else all but this claim and the groups, as long as the issuer does not become that of
    service accounts. -/
theorem decode_in_order (claims : Json.Members) (usernameClaim : String) :
    (∀ outcome, decode claims usernameClaim = outcome ↔ Reading claims usernameClaim outcome) ∧
    (∀ subject space, (identity (.serviceAccount subject space)).username = subject ∧
      (identity (.serviceAccount subject space)).groups
        = ["system:serviceaccounts", "system:serviceaccounts:" ++ space] ∧
      "system:serviceaccounts" ≠ "system:serviceaccounts:" ++ space) ∧
    (∀ username groups, (identity (.generic username groups)).username = username ∧
      (identity (.generic username groups)).groups = groups.eraseDups) ∧
    (Says claims "iss" "kubernetes/serviceaccount" → ∀ claims' : Json.Members,
      claims'.get? "iss" = claims.get? "iss" → claims'.get? "sub" = claims.get? "sub" →
      claims'.get? "kubernetes.io/serviceaccount/namespace"
        = claims.get? "kubernetes.io/serviceaccount/namespace" →
      ∀ usernameClaim', decode claims' usernameClaim' = decode claims usernameClaim) ∧
    (¬ Says claims "iss" "kubernetes/serviceaccount" → ∀ claims' : Json.Members,
      ¬ Says claims' "iss" "kubernetes/serviceaccount" →
      claims'.get? usernameClaim = claims.get? usernameClaim →
      claims'.get? "groups" = claims.get? "groups" →
      decode claims' usernameClaim = decode claims usernameClaim) := by
  refine ⟨fun outcome => ⟨?_, decode_of_reading⟩, ?_, ?_, ?_, ?_⟩
  · rintro rfl
    exact reading_decode claims usernameClaim
  · exact fun subject space =>
      ⟨rfl, groups_identity_serviceAccount subject space, groups_ne space⟩
  · exact fun username groups => ⟨rfl, firstOccurrences_eq_eraseDups groups⟩
  · intro hissuer claims' hsame hsub hnamespace usernameClaim'
    exact decode_of_reading ((reading_decode claims usernameClaim).of_serviceAccount hissuer hsame
      hsub hnamespace usernameClaim')
  · intro hother claims' hother' hnamed hlisted
    exact decode_of_reading ((reading_decode claims usernameClaim).of_other hother hother' hnamed
      hlisted)

/-- The issuer may name the user as well, and the groups are then looked at; and what a service
    account is called elsewhere makes no difference. -/
theorem decode_of_shared_claim :
    decode [("iss", .string "acme"), ("groups", .array [.string "a", .null])] "iss"
      = .error (.claimType "groups") ∧
    decode [("groups", .null), ("sub", .string "builder"),
        ("iss", .string "kubernetes/serviceaccount"), ("namespace", .string "ci")] "groups"
      = decode [("iss", .string "kubernetes/serviceaccount"), ("sub", .string "builder")]
        "email" := by
  constructor
  · have husername : Says [("iss", .string "acme"), ("groups", .array [.string "a", .null])] "iss"
        "acme" := rfl
    have hgroups : IsNoList (.array [.string "a", .null]) :=
      Or.inr ⟨_, rfl, .null, List.mem_cons_of_mem _ List.mem_cons_self, by rintro text ⟨⟩⟩
    refine ((decode_in_order _ "iss").1 _).mpr (.noList ?_ husername rfl hgroups)
    exact fun h => absurd (Json.string.inj (Option.some.inj h)) (by decide)
  · exact (decode_in_order [("iss", .string "kubernetes/serviceaccount"),
      ("sub", .string "builder")] "email").2.2.2.1 rfl _ rfl rfl rfl "groups"

end ForwardAuth.Token.Claims
