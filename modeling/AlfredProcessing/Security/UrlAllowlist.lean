import AlfredProcessing.Extract.Cleaning
import AlfredProcessing.Lib.Url

namespace AlfredProcessing.Security.UrlAllowlist

open Lib.Ip Lib.Url

abbrev Text := List Char

/-- What the process is given: the standard library's tables for Unicode, how it
quotes a text in a message, and two variables of the environment. -/
structure Platform where
  lower : Text → Text
  nfkc : Text → Text
  repr : Text → Text
  allowedHosts : Text
  debug : Text

inductive Reason where
  | badScheme
  | noHost
  | dnsFail
  | privateIp
  deriving DecidableEq

/-- An error of the policy, or another `ValueError` on the way. -/
inductive Rejection where
  | ssrfPolicy (message : Text) (reason : Reason)
  | valueError

/-- What `getaddrinfo` does for a host: an `OSError`, another error for a host that
has no encoding, or the addresses it found. -/
inductive Resolution where
  | osError (e : Text)
  | undecodable
  | found (addresses : List Text)

/-- `_BLOCKED_NETWORKS`. -/
def blockedNetworks : List Network :=
  [.v4 (.ofAddress 0x7f000000 8),
    .v4 (.ofAddress 0xa9fe0000 16),
    .v4 (.ofAddress 0x0a000000 8),
    .v4 (.ofAddress 0xac100000 12),
    .v4 (.ofAddress 0xc0a80000 16),
    .v4 (.ofAddress 0x00000000 8),
    .v4 (.ofAddress 0x64400000 10),
    .v4 (.ofAddress 0xe0000000 4),
    .v4 (.ofAddress 0xf0000000 4),
    .v6 (.ofAddress 0x1 128),
    .v6 (.ofAddress 0xfc000000000000000000000000000000 7),
    .v6 (.ofAddress 0xfe800000000000000000000000000000 10),
    .v6 (.ofAddress 0xff000000000000000000000000000000 8),
    .v6 (.ofAddress 0x0 128)]

def inBlocked (a : Address) : Bool := blockedNetworks.any (·.contains a)

section Policy

variable (p : Platform)

/-- `_allowed_hosts`. -/
def allowedHosts : List Text :=
  let raw := Extract.Cleaning.strip p.allowedHosts
  if raw.isEmpty then []
  else ((raw.splitOn ',').map Extract.Cleaning.strip).filter (!·.isEmpty) |>.map p.lower

/-- `_host_matches_allowlist`. -/
def hostMatchesAllowlist (host resolvedIp : Text) (allowed : List Text) : Bool :=
  if allowed.isEmpty then false
  else if allowed.contains (p.lower host) then true
  else
    match ipAddress resolvedIp with
    | none => false
    | some ip =>
      allowed.any fun entry =>
        if entry.contains '/' then
          match ipNetwork entry with
          | some n => n.contains ip
          | none => false
        else ipAddress entry = some ip

/-- `_debug_bypass_enabled`. -/
def debugBypassEnabled : Bool :=
  ["1".toList, "true".toList, "yes".toList].contains (p.lower (Extract.Cleaning.strip p.debug))

/-- `_resolve_host`: the first address. -/
def resolveHost (host : Text) : Resolution → Except (Option Text) Text
  | .osError e => .error (some e)
  | .undecodable => .error none
  | .found [] => .error (some ("getaddrinfo returned no results for ".toList ++ p.repr host))
  | .found (addr :: _) => .ok addr

/-- What the URL itself tells: the host it leads to. -/
def hostOf (url : Text) : Except Rejection Text :=
  if url.isEmpty then
    .error (.ssrfPolicy ("URL is empty or not a string: ".toList ++ p.repr url) .badScheme)
  else
    match urlsplit p.nfkc url with
    | none => .error .valueError
    | some parsed =>
      if !(["http".toList, "https".toList].contains (p.lower parsed.scheme)) then
        .error (.ssrfPolicy ("URL scheme ".toList ++ p.repr parsed.scheme ++
          " is not allowed (use http or https): ".toList ++ p.repr url) .badScheme)
      else if (hostname p.lower parsed).isEmpty then
        .error (.ssrfPolicy ("URL has no host: ".toList ++ p.repr url) .noHost)
      else .ok (hostname p.lower parsed)

def judgeAddress (url host ipStr : Text) : Except Rejection Unit :=
  match ipAddress ipStr with
  | none =>
    .error (.ssrfPolicy ("DNS returned non-IP result for ".toList ++ p.repr host ++ ": ".toList ++
      p.repr ipStr) .dnsFail)
  | some ip =>
    if !inBlocked ip then .ok ()
    else if hostMatchesAllowlist p host ipStr (allowedHosts p) then .ok ()
    else if debugBypassEnabled p then .ok ()
    else
      .error (.ssrfPolicy ("URL ".toList ++ p.repr url ++
        " resolves to private/loopback/metadata IP ".toList ++ ipStr ++ " (".toList ++ host ++
        "). Add the host to ALFRED_LLM_ALLOWED_HOSTS if this is a legitimate internal LLM endpoint, or set DEBUG=true for local development.".toList)
        .privateIp)

/-- `validate_llm_url`. -/
def validateLlmUrl (getaddrinfo : Text → Resolution) (url : Text) : Except Rejection Unit :=
  match hostOf p url with
  | .error e => .error e
  | .ok host =>
    match resolveHost p host (getaddrinfo host) with
    | .error (some e) =>
      .error (.ssrfPolicy ("DNS resolution failed for ".toList ++ p.repr host ++ ": ".toList ++ e)
        .dnsFail)
    | .error none => .error .valueError
    | .ok ipStr => judgeAddress p url host ipStr

end Policy

theorem inBlocked_of_ipv4Mapped {a : Address} {ip : BitVec 32} (h : a.ipv4Mapped = some ip) :
    inBlocked a = false := by
  have hfar : ∀ n ∈ blockedNetworks, n.meetsMapped = false := by decide
  rw [inBlocked, List.any_eq_false]
  intro n hn hc
  have hmeets := meetsMapped_of_contains hc h
  rw [hfar n hn] at hmeets
  cases hmeets

/-- An address is kept from clients, as itself or as the IPv4 address it stands for. -/
def Forbidden (s : Text) : Prop :=
  ∃ a, ipAddress s = some a ∧
    (inBlocked a ∨ ∃ ip, a.ipv4Mapped = some ip ∧ inBlocked (.v4 ip))

/-- The first address is no address or blocked as itself. -/
def FirstRefused (addrs : List Text) : Prop :=
  ∀ s ∈ addrs.head?, ∀ a, ipAddress s = some a → inBlocked a

/-- A later address is blocked, or one of all is the IPv4-mapped form of a blocked one. -/
def Unseen (addrs : List Text) : Prop :=
  (∃ s ∈ addrs.tail, ∃ a, ipAddress s = some a ∧ inBlocked a) ∨
    ∃ s ∈ addrs, ∃ a ip, ipAddress s = some a ∧ a.ipv4Mapped = some ip ∧ inBlocked (.v4 ip)

section Strict

variable {p : Platform} {url host : Text} {addrs : List Text}

theorem judgeAddress_ok (hallow : allowedHosts p = []) (hdebug : debugBypassEnabled p = false)
    (s : Text) :
    judgeAddress p url host s = .ok () ↔ ∃ a, ipAddress s = some a ∧ inBlocked a = false := by
  have hunlisted : hostMatchesAllowlist p host s [] = false := rfl
  unfold judgeAddress
  cases ipAddress s with
  | none =>
    refine iff_of_false (fun h => by cases h) ?_
    rintro ⟨_, h, -⟩
    cases h
  | some a =>
    dsimp only
    rw [hallow, hunlisted, hdebug, if_neg Bool.false_ne_true, if_neg Bool.false_ne_true]
    cases hblocked : inBlocked a with
    | false => exact iff_of_true rfl ⟨a, rfl, hblocked⟩
    | true =>
      refine iff_of_false (fun h => by cases h) ?_
      rintro ⟨b, hb, h⟩
      cases hb
      rw [hblocked] at h
      cases h

theorem validateLlmUrl_ok (hallow : allowedHosts p = []) (hdebug : debugBypassEnabled p = false)
    {getaddrinfo : Text → Resolution} (hne : addrs ≠ [])
    (hfound : ∀ host, hostOf p url = .ok host → getaddrinfo host = .found addrs) :
    validateLlmUrl p getaddrinfo url = .ok () ↔
      (∃ host, hostOf p url = .ok host) ∧ ¬ FirstRefused addrs := by
  obtain ⟨s, rest, rfl⟩ := List.exists_cons_of_ne_nil hne
  unfold validateLlmUrl
  cases hhost : hostOf p url with
  | error e => simp
  | ok host => simp [hfound host hhost, resolveHost, judgeAddress_ok hallow hdebug, FirstRefused]

theorem unseen_of_forbidden {s : Text} (hs : s ∈ addrs) (hf : Forbidden s)
    (hfirst : ¬ FirstRefused addrs) : Unseen addrs := by
  obtain ⟨a, ha, hblocked | ⟨ip, hip, hblocked⟩⟩ := hf
  · cases addrs with
    | nil => cases hs
    | cons first rest =>
      cases hs with
      | head =>
        refine absurd (fun t ht b hb => ?_) hfirst
        obtain rfl := Option.mem_some_iff.mp ht
        rw [ha] at hb
        obtain rfl := Option.some.inj hb
        exact hblocked
      | tail _ hs => exact .inl ⟨s, hs, a, ha, hblocked⟩
  · exact .inr ⟨s, hs, a, ip, ha, hip, hblocked⟩

theorem forbidden_of_unseen (h : Unseen addrs) : ∃ s ∈ addrs, Forbidden s := by
  obtain ⟨s, hs, a, ha, hblocked⟩ | ⟨s, hs, a, ip, ha, hip, hblocked⟩ := h
  · exact ⟨s, List.mem_of_mem_tail hs, a, ha, .inl hblocked⟩
  · exact ⟨s, hs, a, ha, .inr ⟨ip, hip, hblocked⟩⟩

theorem validateLlmUrl_of_ipv4Mapped {s : Text} {rest : List Text} {a : Address} {ip : BitVec 32}
    (hallow : allowedHosts p = []) (hdebug : debugBypassEnabled p = false)
    (hhost : hostOf p url = .ok host) (ha : ipAddress s = some a) (hmapped : a.ipv4Mapped = some ip) :
    validateLlmUrl p (fun _ => .found (s :: rest)) url = .ok () := by
  rw [validateLlmUrl_ok hallow hdebug (List.cons_ne_nil s rest) fun _ _ => rfl]
  refine ⟨⟨host, hhost⟩, fun hfirst => ?_⟩
  have hblocked := hfirst s rfl a ha
  rw [inBlocked_of_ipv4Mapped hmapped] at hblocked
  cases hblocked

end Strict

/-- Without the escapes, an accepted URL leads to no forbidden address exactly when
the first address is refused where there is something that the check does not see. -/
theorem validateLlmUrl_sound_iff (p : Platform) (hallow : allowedHosts p = [])
    (hdebug : debugBypassEnabled p = false) (getaddrinfo : Text → Resolution) (url : Text)
    (addrs : List Text) (hne : addrs ≠ [])
    (hfound : ∀ host, hostOf p url = .ok host → getaddrinfo host = .found addrs) :
    (validateLlmUrl p getaddrinfo url = .ok () → ∀ s ∈ addrs, ¬ Forbidden s) ↔
      ((∃ host, hostOf p url = .ok host) → Unseen addrs → FirstRefused addrs) := by
  rw [validateLlmUrl_ok hallow hdebug hne hfound]
  constructor
  · intro h hhost hunseen
    by_contra hfirst
    obtain ⟨s, hs, hf⟩ := forbidden_of_unseen hunseen
    exact h ⟨hhost, hfirst⟩ s hs hf
  · rintro h ⟨hhost, hfirst⟩ s hs hf
    exact hfirst (h hhost (unseen_of_forbidden hs hf hfirst))

/-- A platform for ASCII without the two variables. -/
def bare : Platform where
  lower := List.map Char.toLower
  nfkc := id
  repr s := "'".toList ++ s ++ "'".toList
  allowedHosts := []
  debug := []

theorem hostOf_bare :
    hostOf bare "http://[::ffff:127.0.0.1]:6379/".toList = .ok "::ffff:127.0.0.1".toList ∧
      hostOf bare "https://llm.example.com/v1".toList = .ok "llm.example.com".toList :=
  ⟨rfl, rfl⟩

theorem forbidden_loopback : Forbidden "127.0.0.1".toList :=
  ⟨.v4 0x7f000001, rfl, .inl (by decide)⟩

theorem forbidden_mappedLoopback : Forbidden "::ffff:127.0.0.1".toList :=
  ⟨.v6 0xffff7f000001 none, rfl, .inr ⟨0x7f000001, by decide, by decide⟩⟩

theorem validateLlmUrl_sound_iff_mapped :
    (validateLlmUrl bare (fun _ => .found ["::ffff:127.0.0.1".toList])
        "http://[::ffff:127.0.0.1]:6379/".toList = .ok () →
      ∀ s ∈ ["::ffff:127.0.0.1".toList], ¬ Forbidden s) ↔
      ((∃ host, hostOf bare "http://[::ffff:127.0.0.1]:6379/".toList = .ok host) →
        Unseen ["::ffff:127.0.0.1".toList] → FirstRefused ["::ffff:127.0.0.1".toList]) :=
  validateLlmUrl_sound_iff bare rfl rfl _ _ _ (List.cons_ne_nil _ _) fun _ _ => rfl

/-- Redis behind a mapped address, and a host with a loopback address behind a
public one, are accepted. -/
theorem validateLlmUrl_unsound :
    (validateLlmUrl bare (fun _ => .found ["::ffff:127.0.0.1".toList])
        "http://[::ffff:127.0.0.1]:6379/".toList = .ok () ∧
      Forbidden "::ffff:127.0.0.1".toList) ∧
    validateLlmUrl bare (fun _ => .found ["93.184.216.34".toList, "127.0.0.1".toList])
        "https://llm.example.com/v1".toList = .ok () ∧
      Forbidden "127.0.0.1".toList := by
  refine ⟨⟨validateLlmUrl_of_ipv4Mapped rfl rfl hostOf_bare.1 rfl
    (show (Address.v6 0xffff7f000001 none).ipv4Mapped = some 0x7f000001 by decide),
    forbidden_mappedLoopback⟩, ?_, forbidden_loopback⟩
  rw [validateLlmUrl_ok rfl rfl (List.cons_ne_nil _ _) fun _ _ => rfl]
  exact ⟨⟨_, hostOf_bare.2⟩, fun hfirst =>
    absurd (hfirst _ rfl (.v4 0x5db8d822) rfl) (by decide)⟩

end AlfredProcessing.Security.UrlAllowlist
