import AlfredProcessing.Api.AdminClient
import AlfredProcessing.Lib.Joined
import AlfredProcessing.Lib.PyRepr

namespace AlfredProcessing.Middleware.TenantKeys

open Lib.Json Lib.Joined Lib.PyRepr Extract.Changes Api.AdminClient

section Claims

inductive ClaimError where
  | missing (claims : List String)
  | emptySiteId
  deriving DecidableEq

/-- What `verify_jwt_token` returns. -/
structure Claims where
  user : Value
  roles : Value
  siteId : Value
  iat : Value
  exp : Value
  named : siteId.truthy = true

def requiredClaims : List String := ["user", "roles", "site_id"]

/-- `verify_jwt_token` from the payload of `jwt.decode` on, which has checked the signature
and asked for `exp`. -/
def verifyClaims (payload : Dict) : Except ClaimError Claims :=
  let missing := requiredClaims.filter fun c => !has payload c
  if missing ≠ [] then .error (.missing missing)
  else if h : (pyGet payload "site_id").truthy = true then
    .ok
      { user := pyGet payload "user"
        roles := pyGet payload "roles"
        siteId := pyGet payload "site_id"
        iat := (get (str "iat") payload).getD (.int 0)
        exp := pyGet payload "exp"
        named := h }
  else .error .emptySiteId

theorem verifyClaims_surjective (siteId user : Value) (h : siteId.truthy = true) :
    ∃ payload claims, verifyClaims payload = .ok claims ∧ claims.siteId = siteId ∧ claims.user = user := by
  have hsite : pyGet [(str "user", user), (str "roles", .list []), (str "site_id", siteId)] "site_id" =
      siteId := rfl
  have hfilter : requiredClaims.filter (fun c =>
      !has [(str "user", user), (str "roles", .list []), (str "site_id", siteId)] c) = [] := rfl
  refine ⟨[(str "user", user), (str "roles", .list []), (str "site_id", siteId)], ?_⟩
  simp only [verifyClaims, hfilter, hsite, h, ne_eq, not_true_eq_false, if_false, dite_true]
  exact ⟨_, rfl, rfl, rfl⟩

end Claims

section Keys

variable (texts : Texts)

def pyStr : Value → Str
  | .str s => s
  | v => (repr texts v).map Char.toNat

def ratelimit : Str := str ":ratelimit:"

def rateLimitKey (claims : Claims) : Str :=
  str "alfred:" ++ pyStr texts claims.siteId ++ ratelimit ++ pyStr texts claims.user

def planKey (claims : Claims) : Str := planCacheKey (pyStr texts claims.siteId)

/-- Two tokens share no key that is not of both their tenants. -/
structure Separate (t t' : Claims) : Prop where
  rate : (t.siteId, t.user) ≠ (t'.siteId, t'.user) → rateLimitKey texts t ≠ rateLimitKey texts t'
  plan : t.siteId ≠ t'.siteId → planKey texts t ≠ planKey texts t'
  kinds : rateLimitKey texts t ≠ planKey texts t'

/-- The second site goes on where the first user stands. -/
def Shifted (site user site' user' : Str) : Prop :=
  (∃ q, site' = site ++ ratelimit ++ q ∧ user = q ++ ratelimit ++ user') ∨
    (site' = site ++ str ":ratelimit" ∧ user = str "ratelimit:" ++ user')

/-- The first user makes the key of the second site's plan. -/
def Masks (site user site' : Str) : Prop :=
  (∃ q, site' = site ++ ratelimit ++ q ∧ user = q ++ str ":plan_cache") ∨
    (site' = site ++ str ":ratelimit" ∧ user = str "plan_cache")

/-- Different claims have different texts, and no text runs into another. -/
structure Unambiguous (t t' : Claims) : Prop where
  pair : pyStr texts t.siteId = pyStr texts t'.siteId → pyStr texts t.user = pyStr texts t'.user →
    (t.siteId, t.user) = (t'.siteId, t'.user)
  site : pyStr texts t.siteId = pyStr texts t'.siteId → t.siteId = t'.siteId
  shifted : ¬Shifted (pyStr texts t.siteId) (pyStr texts t.user) (pyStr texts t'.siteId) (pyStr texts t'.user)
  shifted' : ¬Shifted (pyStr texts t'.siteId) (pyStr texts t'.user) (pyStr texts t.siteId) (pyStr texts t.user)
  masks : ¬Masks (pyStr texts t.siteId) (pyStr texts t.user) (pyStr texts t'.siteId)

end Keys

section Texts

variable {site user site' user' : Str}

theorem ratelimit_border : ∀ i < ratelimit.length, 0 < i →
    ratelimit.drop i = ratelimit.take (ratelimit.length - i) → i = 10 := by decide

theorem reaches_iff : Reaches ratelimit site user site' user' ↔ Shifted site user site' user' := by
  constructor
  · rintro (h | ⟨p, r, q, hp, hr, hpr, hrq, rfl, rfl⟩)
    · exact .inl h
    · obtain ⟨rfl, -, rfl⟩ := border_eq ratelimit_border hp hr hpr hrq
      exact .inr ⟨rfl, rfl⟩
  · rintro (h | ⟨rfl, rfl⟩)
    · exact .inl h
    · exact .inr ⟨str ":ratelimit", str ":", str "ratelimit:", by decide, by decide, by decide,
        by decide, rfl, rfl⟩

theorem planCache_border : ∀ i < ratelimit.length,
    ratelimit.drop i = (str ":plan_cache").take (ratelimit.length - i) → i = 10 := by decide

/-- The separator ends in the colon that the ending begins with, and they share no more. -/
theorem joined_planCache_iff : site ++ ratelimit ++ user = site' ++ str ":plan_cache" ↔
    Masks site user site' := by
  rw [joined_eq_append_iff]
  constructor
  · rintro (h | ⟨p, r, hr, hm, hn, rfl⟩ | ⟨q, hq, -, hn⟩)
    · exact .inl h
    · have hlen := congrArg List.length hm
      have hpos := List.length_pos_of_ne_nil hr
      rw [List.length_append] at hlen
      have hdrop : ratelimit.drop p.length = r := by rw [hm, List.drop_left]
      have hrlen : ratelimit.length - p.length = r.length := by omega
      have htake : (str ":plan_cache").take (ratelimit.length - p.length) = r := by
        rw [hrlen, hn, List.take_left]
      have hten : p.length = 10 := planCache_border _ (by omega) (hdrop.trans htake.symm)
      have hp : p = ratelimit.take 10 := by rw [← hten, hm, List.take_left]
      have hr' : r = ratelimit.drop 10 := by rw [← hten, hdrop]
      subst hp hr'
      refine .inr ⟨rfl, ?_⟩
      have huser := congrArg (List.drop 1) hn
      exact huser.symm
    · have hlen := congrArg List.length hn
      have hpos := List.length_pos_of_ne_nil hq
      have hsep : ratelimit.length = 11 := rfl
      have hend : (str ":plan_cache").length = 11 := rfl
      simp only [List.length_append] at hlen
      omega
  · rintro (h | ⟨rfl, rfl⟩)
    · exact .inl h
    · exact .inr (.inl ⟨str ":ratelimit", str ":", by decide, by decide, by decide, rfl⟩)

end Texts

section Separation

variable {texts : Texts} {t t' : Claims}

theorem rateLimitKey_eq_iff : rateLimitKey texts t = rateLimitKey texts t' ↔
    (pyStr texts t.siteId = pyStr texts t'.siteId ∧ pyStr texts t.user = pyStr texts t'.user) ∨
      Shifted (pyStr texts t.siteId) (pyStr texts t.user) (pyStr texts t'.siteId) (pyStr texts t'.user) ∨
      Shifted (pyStr texts t'.siteId) (pyStr texts t'.user) (pyStr texts t.siteId) (pyStr texts t.user) := by
  rw [← reaches_iff, ← reaches_iff, ← joined_eq_iff, rateLimitKey, rateLimitKey]
  simp only [List.append_assoc, List.append_cancel_left_eq]

theorem planKey_eq_iff : planKey texts t = planKey texts t' ↔
    pyStr texts t.siteId = pyStr texts t'.siteId := by
  simp only [planKey, planCacheKey, List.append_assoc, List.append_cancel_left_eq,
    List.append_cancel_right_eq]

theorem rateLimitKey_eq_planKey_iff : rateLimitKey texts t = planKey texts t' ↔
    Masks (pyStr texts t.siteId) (pyStr texts t.user) (pyStr texts t'.siteId) := by
  rw [← joined_planCache_iff, rateLimitKey, planKey, planCacheKey]
  simp only [List.append_assoc, List.append_cancel_left_eq]

theorem shifted_irrefl {site user user' : Str} : ¬Shifted site user site user' := by
  rintro (⟨q, hsite, -⟩ | ⟨hsite, -⟩)
  · have hlen := congrArg List.length hsite
    have hsep : ratelimit.length = 11 := rfl
    simp only [List.length_append] at hlen
    omega
  · have hlen := congrArg List.length hsite
    have hsep : (str ":ratelimit").length = 10 := rfl
    simp only [List.length_append] at hlen
    omega

/-- Two tokens share no key exactly when their texts tell them apart. -/
theorem separate_iff (texts : Texts) (t t' : Claims) : Separate texts t t' ↔ Unambiguous texts t t' := by
  constructor
  · intro h
    have hpair (heq : rateLimitKey texts t = rateLimitKey texts t') :
        (t.siteId, t.user) = (t'.siteId, t'.user) := by
      by_contra hne
      exact h.rate hne heq
    have hsame (heq : rateLimitKey texts t = rateLimitKey texts t') : t.siteId = t'.siteId :=
      congrArg Prod.fst (hpair heq)
    refine ⟨fun hsite huser => hpair (rateLimitKey_eq_iff.mpr (.inl ⟨hsite, huser⟩)), fun hsite => ?_,
      fun hs => ?_, fun hs => ?_, fun hm => h.kinds (rateLimitKey_eq_planKey_iff.mpr hm)⟩
    · by_contra hne
      exact h.plan hne (planKey_eq_iff.mpr hsite)
    · have hsite := hsame (rateLimitKey_eq_iff.mpr (.inr (.inl hs)))
      rw [hsite] at hs
      exact shifted_irrefl hs
    · have hsite := hsame (rateLimitKey_eq_iff.mpr (.inr (.inr hs)))
      rw [hsite] at hs
      exact shifted_irrefl hs
  · intro h
    refine ⟨fun hne heq => ?_, fun hne heq => hne (h.site (planKey_eq_iff.mp heq)),
      fun heq => h.masks (rateLimitKey_eq_planKey_iff.mp heq)⟩
    obtain ⟨hsite, huser⟩ | hs | hs := rateLimitKey_eq_iff.mp heq
    · exact hne (h.pair hsite huser)
    · exact h.shifted hs
    · exact h.shifted' hs

theorem not_shifted_of_colon {site user site' user' : Str} (h : 58 ∉ site') :
    ¬Shifted site user site' user' := by
  rintro (⟨q, rfl, -⟩ | ⟨rfl, -⟩)
  · exact h (by simp [ratelimit, str])
  · exact h (by simp [str])

/-- Sites without a colon, which is what the store asks of its own ids, are kept apart. -/
theorem separate_of_colon {site user site' user' : Str} (hsite : t.siteId = .str site)
    (huser : t.user = .str user) (hsite' : t'.siteId = .str site') (huser' : t'.user = .str user')
    (h : 58 ∉ site) (h' : 58 ∉ site') : Separate texts t t' := by
  have hmasks : ¬Masks site user site' := by
    rintro (⟨q, rfl, -⟩ | ⟨rfl, -⟩)
    · exact h' (by simp [ratelimit, str])
    · exact h' (by simp [str])
  refine (separate_iff texts t t').mpr ⟨?_, ?_, ?_, ?_, ?_⟩
  all_goals simp only [hsite, huser, hsite', huser', pyStr]
  · rintro rfl rfl
    rfl
  · rintro rfl
    rfl
  · exact not_shifted_of_colon h'
  · exact not_shifted_of_colon h
  · exact hmasks

/-- The claims of a user, as `create_jwt_token` writes them. -/
def tokenFor (siteId user : String) (h : (Value.str (str siteId)).truthy = true) : Claims where
  user := .str (str user)
  roles := .list []
  siteId := .str (str siteId)
  iat := .int 0
  exp := .int 0
  named := h

/-- No claim of these tokens is printed otherwise than as its own text. -/
def stringTexts : Texts where
  printable _ := false
  float _ _ := []
  other _ _ := []

/-- Two users of two sites share a quota, and a third's calls write the entry of a site's
plan. -/
theorem keys_collide :
    rateLimitKey stringTexts (tokenFor "a" "b:ratelimit:c" rfl) =
        rateLimitKey stringTexts (tokenFor "a:ratelimit:b" "c" rfl) ∧
      (tokenFor "a" "b:ratelimit:c" rfl).siteId ≠ (tokenFor "a:ratelimit:b" "c" rfl).siteId ∧
      rateLimitKey stringTexts (tokenFor "a" "plan_cache" rfl) =
        planKey stringTexts (tokenFor "a:ratelimit" "anyone" rfl) := by
  refine ⟨rfl, fun h => ?_, rfl⟩
  have htext : str "a" = str "a:ratelimit:b" := Value.str.inj h
  exact absurd htext (by decide)

end Separation

end AlfredProcessing.Middleware.TenantKeys
