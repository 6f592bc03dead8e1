import AlfredProcessing.Lib.Cells
import AlfredProcessing.Lib.Keyed
import AlfredProcessing.Lib.Transition
import AlfredProcessing.Llm.Tiers
import Mathlib.Data.List.Dedup
import Mathlib.Data.List.ReduceOption

namespace AlfredProcessing.Pipeline.Warmup

open Lib.Cells Lib.Fallible Lib.Json Lib.Keyed Lib.Transition Extract.Changes Llm.Client Llm.Tiers Security.UrlAllowlist
open Pipeline.HandoffQuery (toChars)

section Model

/-- `(model, base_url)`. All base URLs that are no texts are one, since none of them is ever stamped. -/
structure Target where
  model : Str
  baseUrl : Option Str
  deriving DecidableEq

def urlKey : Value → Except Raised (Option Str)
  | .str s => .ok (some s)
  | .list _ => .error .typeError
  | .dict .. => .error .typeError
  | .other _ hashable => if hashable then .ok none else .error .typeError
  | _ => .ok none

def tiers : List String := ["triage", "reasoning", "agent"]

def tierTarget (w : World) (cfg : Dict) (tier : String) : Except Raised (Option Target) := do
  let (model, baseUrl, _) ← resolveOllamaConfigForTier w cfg (some (str tier))
  match model with
  | .str m =>
    if ollamaPrefix.isPrefixOf m then
      let url ← urlKey baseUrl
      return some ⟨m.drop ollamaPrefix.length, url⟩
    else return none
  | _ => .error .attributeError

/-- `all_models`. -/
def allModels (w : World) (cfg : Dict) : Except Raised (List Target) := do
  let targets ← tiers.mapM (tierTarget w cfg)
  return targets.reduceOption.dedup

/-- `_WARMUP_CACHE_TTL`, in milliseconds. -/
def warmupCacheTtl : Nat := 120000

def probeAttempts : Nat := 2

/-- How a request ends: an `OSError` or a `RuntimeError` is a failure, after which another request may be made. -/
inductive Outcome where
  | answered
  | failed
  | raised
  deriving DecidableEq

def outcomeOf : Except Raised (Except Fault Bytes) → Outcome
  | .ok _ => .answered
  | .error (.httpError ..) => .failed
  | .error (.urlError _) => .failed
  | .error .timeoutError => .failed
  | .error .osError => .failed
  | .error _ => .raised

/-- Whether an attempt sends a request, and how it ends. -/
structure Attempt where
  sends : Bool
  outcome : Outcome

/-- `_do_probe`. The addresses of the host are those of the moment. -/
def doProbe (w : World) (resolve : Text → Resolution) (baseUrl : Option Str) (exchange : Exchange) : Attempt :=
  match baseUrl with
  | none => ⟨false, .failed⟩
  | some url =>
    match validateLlmUrl w.platform resolve (toChars url) with
    | .error (.ssrfPolicy ..) => ⟨false, .failed⟩
    | .error .valueError => ⟨false, .raised⟩
    | .ok () => ⟨true, outcomeOf (urlopen exchange)⟩

/-- `_probe_one` on the way, and whether there was an answer once it has ended. -/
structure Probe where
  target : Target
  failures : Nat := 0
  result : Option Bool := none

def Probe.settle (outcome : Outcome) (p : Probe) : Probe :=
  match outcome with
  | .answered => { p with result := some true }
  | .failed =>
    { p with
      failures := p.failures + 1
      result := if p.failures + 1 < probeAttempts then none else some false }
  | .raised => { p with result := some false }

/-- `_phase_warmup` of a pipeline that waits for its probes. -/
structure Running where
  id : Nat
  startedAt : Nat
  targets : List Target
  probes : List Probe

/-- A warm-up that has ended, with the probes it made. -/
structure Verdict where
  id : Nat
  startedAt : Nat
  endedAt : Nat
  targets : List Target
  probed : List (Target × Bool)

def Verdict.failures (v : Verdict) : List Target := (v.probed.filter fun e => !e.2).map Prod.fst

/-- A request of a warm-up, answered or not, with the addresses that the check before it was given. -/
structure Sent where
  warmup : Nat
  target : Target
  resolve : Text → Resolution
  sentAt : Nat
  answered : Bool

/-- The clock, `_WARMUP_CACHE` and the warm-ups of a process. The requests and the ids in use are read by none. -/
structure State where
  now : Nat := 0
  cache : Target → Option Nat := fun _ => none
  running : List Running := []
  verdicts : List Verdict := []
  sent : List Sent := []
  started : List Nat := []

def State.answers (s : State) : List Sent := s.sent.filter Sent.answered

inductive Action where
  | tick (ms : Nat)
  | enter (id : Nat) (cfg : Dict)
  | attempt (id : Nat) (target : Target) (resolve : Text → Resolution) (exchange : Exchange)
  | finish (id : Nat)
  | cancel (id : Nat)

def State.fresh (s : State) (t : Target) : Bool := (s.cache t).any fun stamp => s.now < stamp + warmupCacheTtl

def record (now : Nat) (cache : Target → Option Nat) (p : Probe) : Target → Option Nat :=
  Function.update cache p.target (if p.result = some true then some now else none)

def Running.verdict (u : Running) (now : Nat) : Verdict :=
  ⟨u.id, u.startedAt, now, u.targets, u.probes.map fun p => (p.target, p.result = some true)⟩

def enter (w : World) (s : State) (id : Nat) (cfg : Dict) : State :=
  match allModels w cfg with
  | .error _ => { s with started := id :: s.started }
  | .ok targets =>
    let toProbe := targets.filter fun t => !s.fresh t
    let u : Running := ⟨id, s.now, targets, toProbe.map fun t => { target := t }⟩
    if toProbe.isEmpty then { s with verdicts := s.verdicts ++ [u.verdict s.now], started := id :: s.started }
    else { s with running := u :: s.running, started := id :: s.started }

def attempt (w : World) (s : State) (u : Running) (target : Target) (resolve : Text → Resolution)
    (exchange : Exchange) : State :=
  let made := doProbe w resolve target.baseUrl exchange
  let probes := modify Probe.target target (Probe.settle made.outcome) u.probes
  { s with
    running := modify Running.id u.id (fun u => { u with probes }) s.running
    sent := if made.sends then ⟨u.id, target, resolve, s.now, made.outcome = .answered⟩ :: s.sent else s.sent }

def finish (s : State) (u : Running) : State :=
  { s with
    cache := u.probes.foldl (record s.now) s.cache
    running := erase Running.id u.id s.running
    verdicts := s.verdicts ++ [u.verdict s.now] }

/-- The steps of any number of pipelines that share the cache. -/
def step (w : World) (s : State) : Action → Option State
  | .tick ms => some { s with now := s.now + ms }
  | .enter id cfg => if id ∈ s.started then none else some (enter w s id cfg)
  | .attempt id target resolve exchange =>
    (lookup Running.id id s.running).bind fun u =>
      if u.probes.any fun p => p.target = target && p.result.isNone then some (attempt w s u target resolve exchange)
      else none
  | .finish id =>
    (lookup Running.id id s.running).bind fun u =>
      if u.probes.all fun p => p.result.isSome then some (finish s u) else none
  | .cancel id => some { s with running := erase Running.id id s.running }

/-- A target has answered a warm-up, while it ran. -/
def Got (s : State) (v : Verdict) (t : Target) : Prop :=
  ∃ a ∈ s.answers, a.warmup = v.id ∧ a.target = t ∧ v.startedAt ≤ a.sentAt ∧ a.sentAt ≤ v.endedAt

/-- A target has answered a warm-up that ended before this moment, by less than the time to live. -/
def Remembered (s : State) (now : Nat) (t : Target) : Prop :=
  ∃ u ∈ s.verdicts, Got s u t ∧ u.endedAt ≤ now ∧ now < u.endedAt + warmupCacheTtl

/-- A target has answered this warm-up, or was remembered when it began. -/
def Vouched (s : State) (v : Verdict) (t : Target) : Prop := Got s v t ∨ Remembered s v.startedAt t

/-- What a warm-up leaves for a target in the cache, if it has probed it. -/
def Verdict.leaves (v : Verdict) (t : Target) : Option (Option Nat) :=
  (lookup Prod.fst t v.probed).map fun e => if e.2 then some v.endedAt else none

/-- A pipeline goes on only with models that have answered, and those it is stopped for have not answered it. The
cache is what the last probe of each model has left, and every request went to a URL that had just passed the
check. -/
structure Sound (w : World) (s : State) : Prop where
  vouched : ∀ v ∈ s.verdicts, ∀ t ∈ v.targets, t ∉ v.failures → Vouched s v t
  stopped : ∀ v ∈ s.verdicts, ∀ t ∈ v.failures, t ∈ v.targets ∧ ∀ a ∈ s.answers, ¬(a.warmup = v.id ∧ a.target = t)
  latest : ∀ t, s.cache t = lastWrite (·.leaves t) s.verdicts
  approved : ∀ r ∈ s.sent, ∃ url, r.target.baseUrl = some url ∧
    validateLlmUrl w.platform r.resolve (toChars url) = .ok ()

/-- Whatever is asked of Ollama for a tier behind a warm-up, where the tier has one of its models, goes to a model and
a server that are vouched for. The agents of a crew ask `liteLlmBase` where they are given no URL. -/
structure Warm (w : World) (liteLlmBase : Str) (s : State) (v : Verdict) (cfg : Dict) : Prop where
  chat : ∀ call tier m baseUrl numCtx request model, call.siteConfig = cfg → tier ∈ tiers →
    call.tier = some (str tier) →
    resolveOllamaConfigForTier w cfg call.tier = .ok (.str (ollamaPrefix ++ m), baseUrl, numCtx) →
    w.chatRequest call = .ok (request, model) → model = m ∧
      ∃ url, request.url = url.rdropWhile (· = '/'.toNat) ++ str "/api/chat" ∧ Vouched s v ⟨m, some url⟩
  crew : ∀ tier llm m, tier ∈ tiers → resolveLlmForTier w cfg (some (str tier)) = .ok llm →
    llm.model = .str (ollamaPrefix ++ m) →
      ∃ url, llm.baseUrl.getD (.str liteLlmBase) = .str url ∧ Vouched s v ⟨m, some url⟩

def LetThrough (w : World) (liteLlmBase : Str) (s : State) : Prop :=
  ∀ v ∈ s.verdicts, v.failures = [] → ∀ cfg, allModels w cfg = .ok v.targets → Warm w liteLlmBase s v cfg

/-- The inductive strengthening of `Sound`: a running warm-up trusts what it does not probe, and knows of its
probes whether they were answered. -/
structure Inv (w : World) (s : State) : Prop where
  ids : (s.running.map Running.id).Nodup
  runningIds : ∀ u ∈ s.running, u.id ∈ s.started
  verdictIds : ∀ v ∈ s.verdicts, v.id ∈ s.started ∧ ∀ u ∈ s.running, u.id ≠ v.id
  sentIds : ∀ r ∈ s.sent, r.warmup ∈ s.started
  startedAt : ∀ u ∈ s.running, u.startedAt ≤ s.now
  endedAt : ∀ v ∈ s.verdicts, v.endedAt ≤ s.now
  sentAt : ∀ r ∈ s.sent, r.sentAt ≤ s.now
  targets : ∀ u ∈ s.running, (u.probes.map Probe.target).Nodup ∧ ∀ p ∈ u.probes, p.target ∈ u.targets
  probes : ∀ u ∈ s.running, ∀ p ∈ u.probes, if p.result = some true then
    ∃ a ∈ s.answers, a.warmup = u.id ∧ a.target = p.target ∧ u.startedAt ≤ a.sentAt
    else ∀ a ∈ s.answers, ¬(a.warmup = u.id ∧ a.target = p.target)
  trusted : ∀ u ∈ s.running, ∀ t ∈ u.targets, (∃ p ∈ u.probes, p.target = t) ∨ Remembered s u.startedAt t
  outcomes : ∀ v ∈ s.verdicts, ∀ t answered, (t, answered) ∈ v.probed → t ∈ v.targets ∧
    if answered then Got s v t else ∀ a ∈ s.answers, ¬(a.warmup = v.id ∧ a.target = t)
  vouched : ∀ v ∈ s.verdicts, ∀ t ∈ v.targets, t ∉ v.failures → Vouched s v t
  latest : ∀ t, s.cache t = lastWrite (·.leaves t) s.verdicts
  approved : ∀ r ∈ s.sent, ∃ url, r.target.baseUrl = some url ∧
    validateLlmUrl w.platform r.resolve (toChars url) = .ok ()

end Model

section Cache

variable {s : State} {v : Verdict} {t : Target} {c : Nat}

theorem mem_failures : t ∈ v.failures ↔ (t, false) ∈ v.probed := by
  simp [Verdict.failures]

theorem leaves_stamp (h : v.leaves t = some (some c)) : (t, true) ∈ v.probed ∧ v.endedAt = c := by
  obtain ⟨⟨t', answered⟩, he, hc⟩ := Option.map_eq_some_iff.mp h
  obtain ⟨hmem, rfl⟩ := lookup_some he
  cases answered with
  | true => exact ⟨hmem, Option.some.inj hc⟩
  | false => cases hc

theorem foldl_record {probes : List Probe} (h : (probes.map Probe.target).Nodup) (now : Nat)
    (cache : Target → Option Nat) (t : Target) : probes.foldl (record now) cache t =
      ((lookup Probe.target t probes).map fun p => if p.result = some true then some now else none).getD (cache t) := by
  induction probes generalizing cache with
  | nil => rfl
  | cons p probes ih =>
    obtain ⟨hp, hrest⟩ := List.nodup_cons.mp h
    rw [List.foldl_cons, ih hrest]
    by_cases ht : p.target = t
    · subst ht
      have hnone : lookup Probe.target p.target probes = none :=
        lookup_none.mpr fun q hq hqt => hp (hqt ▸ List.mem_map_of_mem hq)
      rw [hnone, Option.map_none, Option.getD_none, record, Function.update_self]
      simp [lookup]
    · rw [record, Function.update_of_ne (Ne.symm ht)]
      simp [lookup, ht]

theorem leaves_verdict (u : Running) (now : Nat) (t : Target) : (u.verdict now).leaves t =
    (lookup Probe.target t u.probes).map fun p => if p.result = some true then some now else none := by
  rw [Verdict.leaves, Running.verdict, lookup, lookup, List.find?_map, Option.map_map]
  refine Option.map_congr fun p _ => ?_
  simp

theorem latest_finish {u : Running} (h : ∀ t, s.cache t = lastWrite (·.leaves t) s.verdicts)
    (hn : (u.probes.map Probe.target).Nodup) (t : Target) :
    (finish s u).cache t = lastWrite (·.leaves t) (finish s u).verdicts := by
  rw [finish]
  dsimp only
  rw [foldl_record hn, lastWrite_concat, leaves_verdict, h t]

end Cache

section Steps

variable {w : World} {s : State} {u : Running} {v : Verdict} {t : Target} {id : Nat}

theorem Inv.stamped (h : Inv w s) {c : Nat} (hc : s.cache t = some c) : ∃ v ∈ s.verdicts, Got s v t ∧ v.endedAt = c := by
  obtain ⟨v, hv, hleaves⟩ := exists_of_lastWrite ((h.latest t).symm.trans hc)
  obtain ⟨hmem, hended⟩ := leaves_stamp hleaves
  exact ⟨v, hv, (h.outcomes v hv t true hmem).2, hended⟩

theorem Inv.of_fresh (h : Inv w s) (hf : s.fresh t = true) : Remembered s s.now t := by
  obtain ⟨c, hc, hlt⟩ := (Option.any_eq_true _ _).mp hf
  obtain ⟨v, hv, hgot, hended⟩ := h.stamped hc
  exact ⟨v, hv, hgot, h.endedAt v hv, by rw [hended]; exact of_decide_eq_true hlt⟩

theorem Remembered.mono {s' : State} {now : Nat} (h : Remembered s now t) (hv : ∀ v ∈ s.verdicts, v ∈ s'.verdicts)
    (hgot : ∀ v, Got s v t → Got s' v t) : Remembered s' now t := by
  obtain ⟨v, hmem, hgot', hrest⟩ := h
  exact ⟨v, hv v hmem, hgot v hgot', hrest⟩

theorem inv_init : Inv w {} where
  ids := List.nodup_nil
  runningIds := List.forall_mem_nil _
  verdictIds := List.forall_mem_nil _
  sentIds := List.forall_mem_nil _
  startedAt := List.forall_mem_nil _
  endedAt := List.forall_mem_nil _
  sentAt := List.forall_mem_nil _
  targets := List.forall_mem_nil _
  probes := List.forall_mem_nil _
  trusted := List.forall_mem_nil _
  outcomes := List.forall_mem_nil _
  vouched := List.forall_mem_nil _
  latest _ := rfl
  approved := List.forall_mem_nil _

theorem Inv.tick (h : Inv w s) (ms : Nat) : Inv w { s with now := s.now + ms } :=
  { h with
    startedAt := fun u hu => Nat.le_add_right_of_le (h.startedAt u hu)
    endedAt := fun v hv => Nat.le_add_right_of_le (h.endedAt v hv)
    sentAt := fun r hr => Nat.le_add_right_of_le (h.sentAt r hr) }

theorem Inv.erase (h : Inv w s) (id : Nat) : Inv w { s with running := Lib.Keyed.erase Running.id id s.running } :=
  have hsub : ∀ u ∈ Lib.Keyed.erase Running.id id s.running, u ∈ s.running := fun _ hu => (mem_erase.mp hu).1
  { h with
    ids := h.ids.sublist (List.filter_sublist.map _)
    runningIds := fun u hu => h.runningIds u (hsub u hu)
    verdictIds := fun v hv => ⟨(h.verdictIds v hv).1, fun u hu => (h.verdictIds v hv).2 u (hsub u hu)⟩
    startedAt := fun u hu => h.startedAt u (hsub u hu)
    targets := fun u hu => h.targets u (hsub u hu)
    probes := fun u hu => h.probes u (hsub u hu)
    trusted := fun u hu => h.trusted u (hsub u hu) }

theorem Inv.start (h : Inv w s) (id : Nat) : Inv w { s with started := id :: s.started } :=
  { h with
    runningIds := fun u hu => List.mem_cons_of_mem _ (h.runningIds u hu)
    verdictIds := fun v hv => ⟨List.mem_cons_of_mem _ (h.verdictIds v hv).1, (h.verdictIds v hv).2⟩
    sentIds := fun r hr => List.mem_cons_of_mem _ (h.sentIds r hr) }

theorem Inv.conclude (h : Inv w s) (cache : Target → Option Nat) (hid : v.id ∈ s.started)
    (hgone : ∀ u ∈ s.running, u.id ≠ v.id) (hended : v.endedAt = s.now)
    (houtcomes : ∀ t answered, (t, answered) ∈ v.probed → t ∈ v.targets ∧
      if answered then Got s v t else ∀ a ∈ s.answers, ¬(a.warmup = v.id ∧ a.target = t))
    (hvouched : ∀ t ∈ v.targets, t ∉ v.failures → Vouched s v t)
    (hlatest : ∀ t, cache t = lastWrite (·.leaves t) (s.verdicts ++ [v])) :
    Inv w { s with cache, verdicts := s.verdicts ++ [v] } := by
  have hmem {u : Verdict} : u ∈ s.verdicts ++ [v] ↔ u ∈ s.verdicts ∨ u = v := by simp
  have hkept {now : Nat} {t : Target} (h : Remembered s now t) :
      Remembered { s with cache, verdicts := s.verdicts ++ [v] } now t :=
    h.mono (fun _ => List.mem_append_left _) fun _ => id
  refine { h with
    verdictIds := fun u hu => ?_
    endedAt := fun u hu => ?_
    trusted := fun u hu t ht => ?_
    outcomes := fun u hu => ?_
    vouched := fun u hu t ht hf => ?_
    latest := hlatest }
  · obtain hu | rfl := hmem.mp hu
    · exact h.verdictIds u hu
    · exact ⟨hid, hgone⟩
  · obtain hu | rfl := hmem.mp hu
    · exact h.endedAt u hu
    · exact hended.le
  · exact (h.trusted u hu t ht).imp_right hkept
  · obtain hu | rfl := hmem.mp hu
    · exact h.outcomes u hu
    · exact houtcomes
  · obtain hu | rfl := hmem.mp hu
    · exact (h.vouched u hu t ht hf).imp_right hkept
    · exact (hvouched t ht hf).imp_right hkept

theorem nodup_allModels {cfg : Dict} {targets : List Target} (h : allModels w cfg = .ok targets) : targets.Nodup := by
  obtain ⟨all, -, hall⟩ := bind_eq_ok.mp h
  cases hall
  exact List.nodup_dedup _

theorem Inv.enter (h : Inv w s) {cfg : Dict} (hid : id ∉ s.started) : Inv w (enter w s id cfg) := by
  have hfree : ∀ u ∈ s.running, u.id ≠ id := fun u hu he => hid (he ▸ h.runningIds u hu)
  have hquiet : ∀ a ∈ s.answers, a.warmup ≠ id := fun a ha he => hid (he ▸ h.sentIds a (List.mem_of_mem_filter ha))
  rw [Warmup.enter]
  cases hall : allModels w cfg with
  | error e => exact h.start id
  | ok targets =>
    have hfresh : ∀ t ∈ targets, t ∉ targets.filter (fun t => !s.fresh t) → Remembered s s.now t := by
      intro t ht hn
      refine h.of_fresh ?_
      by_contra hstale
      exact hn (List.mem_filter.mpr ⟨ht, by simpa using hstale⟩)
    dsimp only
    split_ifs with hempty
    · rw [List.isEmpty_iff] at hempty
      refine (h.start id).conclude s.cache List.mem_cons_self hfree rfl ?_ ?_ ?_
      · intro t answered hmem
        simp [Running.verdict, hempty] at hmem
      · intro t ht _
        exact .inr (hfresh t ht (by rw [hempty]; exact List.not_mem_nil))
      · intro t
        rw [lastWrite_concat, leaves_verdict, hempty]
        exact h.latest t
    · have hstart := h.start id
      refine { hstart with
        ids := List.nodup_cons.mpr ⟨fun hmem => ?_, h.ids⟩
        runningIds := List.forall_mem_cons.mpr ⟨List.mem_cons_self, hstart.runningIds⟩
        verdictIds := fun v hv => ⟨(hstart.verdictIds v hv).1, List.forall_mem_cons.mpr
          ⟨fun he => hid (by rw [show id = v.id from he]; exact (h.verdictIds v hv).1), (h.verdictIds v hv).2⟩⟩
        startedAt := List.forall_mem_cons.mpr ⟨le_rfl, h.startedAt⟩
        targets := List.forall_mem_cons.mpr ⟨⟨?_, ?_⟩, h.targets⟩
        probes := List.forall_mem_cons.mpr ⟨?_, h.probes⟩
        trusted := List.forall_mem_cons.mpr ⟨fun t ht => ?_, h.trusted⟩ }
      · obtain ⟨u, hu, he⟩ := List.mem_map.mp hmem
        exact hfree u hu he
      · simpa [Function.comp_def] using (nodup_allModels hall).filter _
      · intro p hp
        obtain ⟨t, ht, rfl⟩ := List.mem_map.mp hp
        exact (List.mem_filter.mp ht).1
      · intro p hp
        obtain ⟨t, ht, rfl⟩ := List.mem_map.mp hp
        exact fun a ha hat => hquiet a ha hat.1
      · by_cases hprobe : t ∈ targets.filter fun t => !s.fresh t
        · exact .inl ⟨_, List.mem_map_of_mem hprobe, rfl⟩
        · exact .inr (hfresh t ht hprobe)

theorem Inv.finish (h : Inv w s) (hu : u ∈ s.running) : Inv w (finish s u) := by
  have hgone : ∀ u' ∈ Lib.Keyed.erase Running.id u.id s.running, u'.id ≠ u.id := fun _ hu' => (mem_erase.mp hu').2
  have hgot {p : Probe} (hp : p ∈ u.probes) (hr : p.result = some true) : Got s (u.verdict s.now) p.target := by
    have hprobe := h.probes u hu p hp
    rw [if_pos hr] at hprobe
    obtain ⟨a, ha, hwarmup, htarget, hafter⟩ := hprobe
    exact ⟨a, ha, hwarmup, htarget, hafter, h.sentAt a (List.mem_of_mem_filter ha)⟩
  refine (h.erase u.id).conclude _ (h.runningIds u hu) hgone rfl ?_ ?_
    (latest_finish h.latest (h.targets u hu).1)
  · intro t answered hmem
    obtain ⟨p, hp, he⟩ := List.mem_map.mp hmem
    cases he
    refine ⟨(h.targets u hu).2 p hp, ?_⟩
    by_cases hr : p.result = some true
    · rw [if_pos (decide_eq_true hr)]
      exact hgot hp hr
    · rw [if_neg (by simpa using hr)]
      have hprobe := h.probes u hu p hp
      rwa [if_neg hr] at hprobe
  · intro t ht hf
    obtain ⟨p, hp, rfl⟩ | hremembered := h.trusted u hu t ht
    · refine .inl (hgot hp ?_)
      by_contra hr
      exact hf (mem_failures.mpr (List.mem_map.mpr ⟨p, hp, by rw [decide_eq_false hr]⟩))
    · exact .inr hremembered

theorem Probe.settle_target (outcome : Outcome) (p : Probe) : (p.settle outcome).target = p.target := by
  cases outcome <;> rfl

theorem Probe.settle_answered (outcome : Outcome) (p : Probe) :
    (p.settle outcome).result = some true ↔ outcome = .answered := by
  cases outcome with
  | answered => exact iff_of_true rfl rfl
  | failed =>
    refine iff_of_false (fun hr => ?_) (by decide)
    dsimp only [settle] at hr
    split_ifs at hr
    cases hr
  | raised => exact iff_of_false (by simp [settle]) (by decide)

theorem doProbe_sends {resolve : Text → Resolution} {baseUrl : Option Str} {exchange : Exchange} :
    ((doProbe w resolve baseUrl exchange).sends = true ↔ ∃ url, baseUrl = some url ∧
      validateLlmUrl w.platform resolve (toChars url) = .ok ()) ∧
    ((doProbe w resolve baseUrl exchange).outcome = .answered → (doProbe w resolve baseUrl exchange).sends = true) := by
  unfold doProbe
  cases baseUrl with
  | none => exact ⟨by simp, by simp⟩
  | some url =>
    dsimp only
    cases hchecked : validateLlmUrl w.platform resolve (toChars url) with
    | error e => cases e <;> exact ⟨by simp [hchecked], by simp⟩
    | ok _ => exact ⟨iff_of_true rfl ⟨url, rfl, hchecked⟩, fun _ => rfl⟩

/-- The warm-up behind an attempt of one of its probes. -/
def Running.attempted (w : World) (u : Running) (t : Target) (resolve : Text → Resolution) (exchange : Exchange) :
    Running :=
  { u with probes := modify Probe.target t (Probe.settle (doProbe w resolve t.baseUrl exchange).outcome) u.probes }

section Attempt

variable {resolve : Text → Resolution} {exchange : Exchange}

theorem mem_attempt_sent {r : Sent} : r ∈ (attempt w s u t resolve exchange).sent ↔
    r ∈ s.sent ∨ (doProbe w resolve t.baseUrl exchange).sends = true ∧
      r = ⟨u.id, t, resolve, s.now, (doProbe w resolve t.baseUrl exchange).outcome = .answered⟩ := by
  rw [attempt]
  dsimp only
  split_ifs with hsends
  · rw [List.mem_cons, and_iff_right hsends, or_comm]
  · exact ⟨.inl, fun h => h.elim id fun h => absurd h.1 hsends⟩

theorem mem_attempt_answers {a : Sent} : a ∈ (attempt w s u t resolve exchange).answers ↔
    a ∈ s.answers ∨ (doProbe w resolve t.baseUrl exchange).outcome = .answered ∧ a = ⟨u.id, t, resolve, s.now, true⟩ := by
  rw [State.answers, State.answers, List.mem_filter, List.mem_filter, mem_attempt_sent, or_and_right]
  refine or_congr_right ⟨?_, ?_⟩
  · rintro ⟨⟨-, rfl⟩, hyes⟩
    have hanswered := of_decide_eq_true hyes
    exact ⟨hanswered, by rw [decide_eq_true hanswered]⟩
  · rintro ⟨hyes, rfl⟩
    exact ⟨⟨doProbe_sends.2 hyes, by rw [decide_eq_true hyes]⟩, rfl⟩

theorem mem_attempt_running (hids : (s.running.map Running.id).Nodup) (hu : u ∈ s.running) {u' : Running}
    (hu' : u' ∈ (attempt w s u t resolve exchange).running) :
    u' = u.attempted w t resolve exchange ∨ u' ∈ s.running ∧ u'.id ≠ u.id := by
  obtain ⟨x, hx, hid, rfl⟩ | hother := mem_modify.mp hu'
  · have hself := lookup_mem hids hx
    rw [hid, lookup_mem hids hu] at hself
    exact .inl (by rw [Option.some.inj hself]; rfl)
  · exact .inr hother

theorem attempted_targets (w : World) (u : Running) (t : Target) (resolve : Text → Resolution) (exchange : Exchange) :
    (u.attempted w t resolve exchange).probes.map Probe.target = u.probes.map Probe.target :=
  keys_modify (Probe.settle_target _) u.probes

theorem Got.attempt {t' : Target} (h : Got s v t') : Got (attempt w s u t resolve exchange) v t' := by
  obtain ⟨a, ha, hrest⟩ := h
  exact ⟨a, mem_attempt_answers.mpr (.inl ha), hrest⟩

theorem silent_attempt {id : Nat} {t' : Target} (hne : ¬(u.id = id ∧ t = t'))
    (h : ∀ a ∈ s.answers, ¬(a.warmup = id ∧ a.target = t')) :
    ∀ a ∈ (attempt w s u t resolve exchange).answers, ¬(a.warmup = id ∧ a.target = t') := by
  intro a ha
  obtain ha | ⟨-, rfl⟩ := mem_attempt_answers.mp ha
  · exact h a ha
  · exact hne

theorem known_attempt {u' : Running} {p : Probe} (hne : ¬(u.id = u'.id ∧ t = p.target))
    (h : if p.result = some true then
      ∃ a ∈ s.answers, a.warmup = u'.id ∧ a.target = p.target ∧ u'.startedAt ≤ a.sentAt
      else ∀ a ∈ s.answers, ¬(a.warmup = u'.id ∧ a.target = p.target)) :
    if p.result = some true then ∃ a ∈ (attempt w s u t resolve exchange).answers,
      a.warmup = u'.id ∧ a.target = p.target ∧ u'.startedAt ≤ a.sentAt
      else ∀ a ∈ (attempt w s u t resolve exchange).answers, ¬(a.warmup = u'.id ∧ a.target = p.target) := by
  split_ifs at h ⊢
  · obtain ⟨a, ha, hrest⟩ := h
    exact ⟨a, mem_attempt_answers.mpr (.inl ha), hrest⟩
  · exact silent_attempt hne h

theorem Inv.attempted (h : Inv w s) (hu : u ∈ s.running) (hopen : ∃ p ∈ u.probes, p.target = t ∧ p.result = none) :
    ∀ p ∈ (u.attempted w t resolve exchange).probes, if p.result = some true then
      ∃ a ∈ (attempt w s u t resolve exchange).answers,
        a.warmup = u.id ∧ a.target = p.target ∧ u.startedAt ≤ a.sentAt
      else ∀ a ∈ (attempt w s u t resolve exchange).answers, ¬(a.warmup = u.id ∧ a.target = p.target) := by
  obtain ⟨p₀, hp₀, rfl, hnone⟩ := hopen
  intro p hp
  obtain ⟨q, hq, hqt, rfl⟩ | ⟨hp, hpt⟩ := mem_modify.mp hp
  · have hnodup := (h.targets u hu).1
    have hself := lookup_mem hnodup hq
    rw [hqt, lookup_mem hnodup hp₀] at hself
    obtain rfl := Option.some.inj hself
    rw [Probe.settle_target]
    by_cases hyes : (doProbe w resolve p₀.target.baseUrl exchange).outcome = .answered
    · rw [if_pos ((Probe.settle_answered _ _).mpr hyes)]
      exact ⟨_, mem_attempt_answers.mpr (.inr ⟨hyes, rfl⟩), rfl, rfl, h.startedAt u hu⟩
    · have hold := h.probes u hu p₀ hp₀
      rw [if_neg (by rw [hnone]; decide)] at hold
      rw [if_neg fun hr => hyes ((Probe.settle_answered _ _).mp hr)]
      intro a ha
      obtain ha | ⟨hyes', -⟩ := mem_attempt_answers.mp ha
      · exact hold a ha
      · exact absurd hyes' hyes
  · exact known_attempt (fun he => hpt he.2.symm) (h.probes u hu p hp)

theorem Inv.attempt (h : Inv w s) (hu : u ∈ s.running) (hopen : ∃ p ∈ u.probes, p.target = t ∧ p.result = none) :
    Inv w (attempt w s u t resolve exchange) := by
  have hrunning {u' : Running} (hu' : u' ∈ (Warmup.attempt w s u t resolve exchange).running) :=
    mem_attempt_running h.ids hu hu'
  have hkeys := attempted_targets w u t resolve exchange
  have hkept {now : Nat} {t' : Target} (h : Remembered s now t') :
      Remembered (Warmup.attempt w s u t resolve exchange) now t' := h.mono (fun _ => id) fun _ => Got.attempt
  refine
    { ids := by
        have hids : (Warmup.attempt w s u t resolve exchange).running.map Running.id = s.running.map Running.id := by
          apply keys_modify
          exact fun _ => rfl
        exact hids.symm ▸ h.ids
      runningIds := fun u' hu' => ?_
      verdictIds := fun v hv => ⟨(h.verdictIds v hv).1, fun u' hu' => ?_⟩
      sentIds := fun r hr => ?_
      startedAt := fun u' hu' => ?_
      endedAt := h.endedAt
      sentAt := fun r hr => ?_
      targets := fun u' hu' => ?_
      probes := fun u' hu' => ?_
      trusted := fun u' hu' t' ht => ?_
      outcomes := fun v hv t' answered hmem => ?_
      vouched := fun v hv t' ht hf => ?_
      latest := h.latest
      approved := fun r hr => ?_ }
  · obtain rfl | ⟨hu', -⟩ := hrunning hu'
    · exact h.runningIds u hu
    · exact h.runningIds u' hu'
  · obtain rfl | ⟨hu', -⟩ := hrunning hu'
    · exact (h.verdictIds v hv).2 u hu
    · exact (h.verdictIds v hv).2 u' hu'
  · obtain hr | ⟨-, rfl⟩ := mem_attempt_sent.mp hr
    · exact h.sentIds r hr
    · exact h.runningIds u hu
  · obtain rfl | ⟨hu', -⟩ := hrunning hu'
    · exact h.startedAt u hu
    · exact h.startedAt u' hu'
  · obtain hr | ⟨-, rfl⟩ := mem_attempt_sent.mp hr
    · exact h.sentAt r hr
    · exact le_rfl
  · obtain rfl | ⟨hu', -⟩ := hrunning hu'
    · refine ⟨hkeys ▸ (h.targets u hu).1, fun p hp => ?_⟩
      have hmem : p.target ∈ u.probes.map Probe.target := hkeys ▸ List.mem_map_of_mem hp
      obtain ⟨q, hq, he⟩ := List.mem_map.mp hmem
      exact he ▸ (h.targets u hu).2 q hq
    · exact h.targets u' hu'
  · obtain rfl | ⟨hu', hid⟩ := hrunning hu'
    · exact h.attempted hu hopen
    · exact fun p hp => known_attempt (fun he => hid he.1.symm) (h.probes u' hu' p hp)
  · have hsame : (∃ p ∈ u'.probes, p.target = t') ∨ Remembered s u'.startedAt t' := by
      obtain rfl | ⟨hu', -⟩ := hrunning hu'
      · obtain hp | hv := h.trusted u hu t' ht
        · exact .inl (List.mem_map.mp (hkeys.symm ▸ List.mem_map.mpr hp))
        · exact .inr hv
      · exact h.trusted u' hu' t' ht
    exact hsame.imp_right hkept
  · obtain ⟨ht, hold⟩ := h.outcomes v hv t' answered hmem
    refine ⟨ht, ?_⟩
    split_ifs at hold ⊢
    · exact hold.attempt
    · exact silent_attempt (fun he => (h.verdictIds v hv).2 u hu he.1) hold
  · exact (h.vouched v hv t' ht hf).imp Got.attempt hkept
  · obtain hr | ⟨hsends, rfl⟩ := mem_attempt_sent.mp hr
    · exact h.approved r hr
    · exact doProbe_sends.1.mp hsends

end Attempt

theorem Inv.step (h : Inv w s) {a : Action} {s' : State} (hs : step w s a = some s') : Inv w s' := by
  cases a with
  | tick ms =>
    obtain rfl := Option.some.inj hs
    exact h.tick ms
  | enter id cfg =>
    rw [Warmup.step, Option.ite_none_left_eq_some] at hs
    obtain rfl := Option.some.inj hs.2
    exact h.enter hs.1
  | attempt id t resolve exchange =>
    obtain ⟨u, hu, hs⟩ := Option.bind_eq_some_iff.mp hs
    rw [Option.ite_none_right_eq_some] at hs
    obtain rfl := Option.some.inj hs.2
    obtain ⟨p, hp, hopen⟩ := List.any_eq_true.mp hs.1
    exact h.attempt (lookup_some hu).1 ⟨p, hp, by simpa using hopen⟩
  | finish id =>
    obtain ⟨u, hu, hs⟩ := Option.bind_eq_some_iff.mp hs
    rw [Option.ite_none_right_eq_some] at hs
    obtain rfl := Option.some.inj hs.2
    exact h.finish (lookup_some hu).1
  | cancel id =>
    obtain rfl := Option.some.inj hs
    exact h.erase id

theorem Inv.sound (h : Inv w s) : Sound w s where
  vouched := h.vouched
  stopped v hv t ht := h.outcomes v hv t false (mem_failures.mp ht)
  latest := h.latest
  approved := h.approved

/-- However many warm-ups run side by side, whatever becomes of their requests. -/
theorem warmups_sound (w : World) (as : List Action) : Always (step w) (Sound w) {} as :=
  (always_of_step (fun _ _ _ h hs => h.step hs) inv_init as).mono fun _ h => h.sound

end Steps

section Requests

variable {w : World} {s : State} {v : Verdict} {cfg : Dict} {targets : List Target} {tier : String} {m : Str}
  {baseUrl : Value} {numCtx : Int}

theorem removePrefix_append (m : Str) : removePrefix (.str (ollamaPrefix ++ m)) = .ok m := by
  rw [removePrefix, if_pos (List.isPrefixOf_iff_prefix.mpr (List.prefix_append _ _)), List.drop_left]

theorem mem_allModels (hall : allModels w cfg = .ok targets) (htier : tier ∈ tiers)
    (hr : resolveOllamaConfigForTier w cfg (some (str tier)) = .ok (.str (ollamaPrefix ++ m), baseUrl, numCtx)) :
    ∃ key, urlKey baseUrl = .ok key ∧ ⟨m, key⟩ ∈ targets := by
  obtain ⟨all, hmap, hall⟩ := bind_eq_ok.mp hall
  cases hall
  obtain ⟨target, hmem, htarget⟩ := mem_of_mapM_eq_ok hmap htier
  rw [tierTarget, hr] at htarget
  dsimp only [bind, Except.bind] at htarget
  rw [if_pos (List.isPrefixOf_iff_prefix.mpr (List.prefix_append _ _)), List.drop_left] at htarget
  cases hkey : urlKey baseUrl with
  | error e =>
    rw [hkey] at htarget
    cases htarget
  | ok key =>
    rw [hkey] at htarget
    cases htarget
    exact ⟨key, rfl, List.mem_dedup.mpr (List.reduceOption_mem_iff.mpr hmem)⟩

theorem urlKey_some {url : Str} (h : urlKey baseUrl = .ok (some url)) : baseUrl = .str url := by
  cases baseUrl with
  | str s =>
    cases h
    rfl
  | other t hashable =>
    cases hashable <;> cases h
  | _ => cases h

theorem Vouched.answered {t : Target} (h : Vouched s v t) : ∃ a ∈ s.answers, a.target = t := by
  obtain ⟨a, ha, -, htarget, -⟩ | ⟨-, -, ⟨a, ha, -, htarget, -⟩, -⟩ := h
  · exact ⟨a, ha, htarget⟩
  · exact ⟨a, ha, htarget⟩

theorem Sound.vouched_of_tier (h : Sound w s) (hv : v ∈ s.verdicts) (hpassed : v.failures = [])
    (hall : allModels w cfg = .ok v.targets) (htier : tier ∈ tiers)
    (hr : resolveOllamaConfigForTier w cfg (some (str tier)) = .ok (.str (ollamaPrefix ++ m), baseUrl, numCtx)) :
    ∃ url, baseUrl = .str url ∧ Vouched s v ⟨m, some url⟩ := by
  obtain ⟨key, hkey, hmem⟩ := mem_allModels hall htier hr
  have hvouched := h.vouched v hv _ hmem (by rw [hpassed]; exact List.not_mem_nil)
  obtain ⟨a, ha, htarget⟩ := hvouched.answered
  obtain ⟨url, hurl, -⟩ := h.approved a (List.mem_of_mem_filter ha)
  have hsome : key = some url := by rw [← hurl, htarget]
  subst hsome
  exact ⟨url, urlKey_some hkey, hvouched⟩

theorem Sound.warm (h : Sound w s) (hv : v ∈ s.verdicts) (hpassed : v.failures = [])
    (hall : allModels w cfg = .ok v.targets) : Warm w (str "http://localhost:11434") s v cfg where
  chat call tier m baseUrl numCtx request model hcfg htier hcall hr hrequest := by
    rw [hcall] at hr
    obtain ⟨url, rfl, hvouched⟩ := h.vouched_of_tier hv hpassed hall htier hr
    unfold World.chatRequest at hrequest
    rw [hcfg, hcall, hr] at hrequest
    obtain ⟨resolved, hresolved, hrequest⟩ := bind_eq_ok.mp hrequest
    cases hresolved
    obtain ⟨ollamaModel, hmodel, hrequest⟩ := bind_eq_ok.mp hrequest
    rw [removePrefix_append] at hmodel
    cases hmodel
    obtain ⟨-, -, hrequest⟩ := bind_eq_ok.mp hrequest
    cases hrequest
    exact ⟨rfl, url, rfl, hvouched⟩
  crew tier llm m htier hllm hmodel := by
    obtain ⟨numCtx, hr, -⟩ := resolveLlmForTier_agrees hllm
    rw [hmodel] at hr
    exact h.vouched_of_tier hv hpassed hall htier hr

/-- The clients and the crews that come behind a warm-up ask no model of Ollama's that it has no answer of, where
LiteLLM's own server is the one that is probed where a configuration has none. -/
theorem warmups_letThrough (w : World) (liteLlmBase : Str) (hdefault : liteLlmBase = str "http://localhost:11434")
    (as : List Action) : Always (step w) (LetThrough w liteLlmBase) {} as := by
  subst hdefault
  exact (always_of_step (fun _ _ _ h hs => h.step hs) inv_init as).mono
    fun _ (h : Inv w _) _ hv hpassed _ hall => h.sound.warm hv hpassed hall

end Requests

section Passing

def endpointTarget : Target := ⟨str "llama3.1", some (str "https://llm.example.com/v1")⟩

theorem allModels_greeting : allModels breaking greeting.siteConfig = .ok [endpointTarget] := by
  rfl

/-- A probe that fails and one that is answered after three seconds. -/
def retried : List Action :=
  [.enter 1 greeting.siteConfig,
   .attempt 1 endpointTarget breaking.getaddrinfo (.unsent []),
   .tick 3000,
   .attempt 1 endpointTarget breaking.getaddrinfo (.answered 200 (.ok [])),
   .finish 1]

theorem doProbe_endpoint (exchange : Exchange) :
    doProbe breaking breaking.getaddrinfo endpointTarget.baseUrl exchange = ⟨true, outcomeOf (urlopen exchange)⟩ := by
  have hchecked : validateLlmUrl breaking.platform breaking.getaddrinfo (toChars (str "https://llm.example.com/v1")) =
      .ok () := breaking_validate
  rw [endpointTarget, doProbe, hchecked]

theorem step_endpoint {s : State} {u : Running} (exchange : Exchange) (hu : lookup Running.id 1 s.running = some u)
    (hopen : (u.probes.any fun p => p.target = endpointTarget && p.result.isNone) = true) :
    step breaking s (.attempt 1 endpointTarget breaking.getaddrinfo exchange) = some
      { s with
        running := modify Running.id u.id (fun u' =>
          { u' with probes := modify Probe.target endpointTarget (Probe.settle (outcomeOf (urlopen exchange))) u.probes })
          s.running
        sent := ⟨u.id, endpointTarget, breaking.getaddrinfo, s.now, outcomeOf (urlopen exchange) = .answered⟩ :: s.sent } := by
  rw [step, hu, Option.bind_some, if_pos hopen, attempt, doProbe_endpoint]
  rfl

theorem retried_passes : ∃ s v, run (step breaking) {} retried = some s ∧ v ∈ s.verdicts ∧ v.failures = [] ∧
    Warm breaking (str "http://localhost:11434") s v greeting.siteConfig := by
  have henter : step breaking {} (.enter 1 greeting.siteConfig) =
      some { running := [⟨1, 0, [endpointTarget], [{ target := endpointTarget }]⟩], started := [1] } := by
    rw [step, if_neg List.not_mem_nil, enter, allModels_greeting]
    rfl
  have hrun : ∃ s, run (step breaking) {} retried = some s ∧
      s.verdicts = [⟨1, 0, 3000, [endpointTarget], [(endpointTarget, true)]⟩] := by
    rw [retried, run, henter, Option.bind_some, run, step_endpoint _ rfl (by decide), Option.bind_some, run, step,
      Option.bind_some, run, step_endpoint _ rfl (by decide), Option.bind_some]
    exact ⟨_, rfl, rfl⟩
  obtain ⟨s, hs, hv⟩ := hrun
  have hthrough := (warmups_letThrough breaking (str "http://localhost:11434") rfl retried).last hs
  have hmem := hv ▸ List.mem_singleton.mpr rfl
  exact ⟨s, _, hs, hmem, rfl, hthrough _ hmem rfl _ allModels_greeting⟩

end Passing

end AlfredProcessing.Pipeline.Warmup
