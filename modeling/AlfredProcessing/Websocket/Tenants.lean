import AlfredProcessing.Lib.Shadow
import AlfredProcessing.Websocket.Endpoint

namespace AlfredProcessing.Websocket.Tenants

open Lib.Transition Lib.Shadow State Endpoint

variable {C M : Type} {client : C → Client} {B : String} {s t : Server C M}

def ofSite (client : C → Client) (B : String) (a : Action C M) : Bool :=
  decide ((client a.actor).siteId = B)

/-- What a site's connections keep between two states: registry entries, open
sockets, running pipelines, pending questions and event streams. -/
structure Keeps (client : C → Client) (A : String) (s t : Server C M) : Prop where
  entry : ∀ c, (client c).siteId = A → ∀ k, s.connections k = some c ↔ t.connections k = some c
  socket : ∀ c, (client c).siteId = A → (s.conns c).socketOpen = (t.conns c).socketOpen
  pipeline : ∀ c, (client c).siteId = A →
    (s.conns c).session.activePipeline = (t.conns c).session.activePipeline ∧
      (s.conns c).pipelineCancelled = (t.conns c).pipelineCancelled
  questions : ∀ c, (client c).siteId = A →
    (s.conns c).session.pendingQuestions = (t.conns c).session.pendingQuestions
  stream : ∀ conversationId k, Store.eventsKey A conversationId = some k →
    s.streams k = t.streams k

def victim : Phase C → Option C
  | .pushing old | .closing old => some old
  | _ => none

/-- Two connections are both of site `B` or both not. -/
def akin (client : C → Client) (B : String) (c d : C) : Prop :=
  (client c).siteId = B ↔ (client d).siteId = B

/-- The simulation between a run and the same run without site `B`. -/
structure Apart (client : C → Client) (B : String) (s t : Server C M) : Prop where
  conns : ∀ c, (client c).siteId ≠ B → s.conns c = t.conns c
  entries : ∀ k c, (client c).siteId ≠ B → (s.connections k = some c ↔ t.connections k = some c)
  shadow : ∀ k c, t.connections k = some c → (client c).siteId ≠ B
  victims : ∀ c old, victim (s.conns c).phase = some old → akin client B old c
  streams : ∀ A conversationId k, A ≠ B → Store.eventsKey A conversationId = some k →
    s.streams k = t.streams k

/-- No handshake finds an entry across the border of site `B`, and `B`'s
installations and pops find no other site's entry. -/
def unshared (client : C → Client) (B : String) (s : Server C M) : Action C M → Prop
  | .authenticated c => ∀ d, s.connections (client c).conversationId = some d → akin client B d c
  | .oldClosed c | .loopEnded c => (client c).siteId = B →
    ∀ d, s.connections (client c).conversationId = some d → (client d).siteId = B
  | _ => True

theorem apart_init : Apart client B ({} : Server C M) {} where
  conns _ _ := rfl
  entries _ _ _ := Iff.rfl
  shadow k c hk := by cases hk
  victims c old hv := by cases hv
  streams _ _ _ _ _ := rfl

theorem Apart.shadow_entry (h : Apart client B s t) {k : String}
    (hk : ∀ d, s.connections k = some d → (client d).siteId = B) : t.connections k = none := by
  cases hd : t.connections k with
  | none => rfl
  | some d =>
    have hsite := h.shadow k d hd
    exact absurd (hk d ((h.entries k d hsite).mpr hd)) hsite

theorem Apart.pop (h : Apart client B s t) (k : String) : Apart client B (s.pop k) (t.pop k) := by
  refine ⟨h.conns, fun j c hc => ?_, fun j c hj => ?_, h.victims, h.streams⟩
  · by_cases hjk : j = k
    · simp [hjk]
    · simpa [hjk] using h.entries j c hc
  · by_cases hjk : j = k
    · simp [hjk] at hj
    · exact h.shadow j c (by simpa [hjk] using hj)

theorem Apart.pushEvent (h : Apart client B s t) (c : C) (e : Event M) (n : Nat) :
    Apart client B (pushEvent client c e n s) (pushEvent client c e n t) := by
  refine ⟨by simpa using h.conns, by simpa using h.entries, by simpa using h.shadow,
    by simpa using h.victims, fun A v k hA hk => ?_⟩
  unfold Endpoint.pushEvent
  split
  · next k' hk' =>
    by_cases hkk : k = k'
    · subst hkk
      simp [h.streams A v k hA hk]
    · simpa [hkk] using h.streams A v k hA hk
  · exact h.streams A v k hA hk

theorem akin_victim {c old : C} (h : akin client B old c) {p : Phase C} (hp : victim p = some old) :
    ∀ d, victim p = some d → akin client B d c := by
  intro d hd
  rw [hp] at hd
  exact Option.some.inj hd ▸ h

theorem cancelPipeline_phase (x : Conn C M) : (cancelPipeline x).phase = x.phase := by
  unfold cancelPipeline
  split <;> rfl

variable [DecidableEq C]

theorem Apart.update (h : Apart client B s t) (c : C) (f : Conn C M → Conn C M)
    (hv : ∀ old, victim (f (s.conns c)).phase = some old → akin client B old c) :
    Apart client B (s.update c f) (t.update c f) := by
  refine ⟨fun d hd => ?_, h.entries, h.shadow, fun d old hold => ?_, h.streams⟩
  · by_cases hdc : d = c
    · subst hdc
      simp [h.conns d hd]
    · simpa [hdc] using h.conns d hd
  · by_cases hdc : d = c
    · subst hdc
      exact hv old (by simpa using hold)
    · exact h.victims d old (by simpa [hdc] using hold)

theorem Apart.enter (h : Apart client B s t) (c : C) {p : Phase C}
    (hp : ∀ old, victim p = some old → akin client B old c) :
    Apart client B (s.enter c p) (t.enter c p) := h.update c _ hp

theorem Apart.closeOld (h : Apart client B s t) {c old : C} (hold : akin client B old c) :
    Apart client B (closeOld c old s) (closeOld c old t) := by
  have hcancel := h.update old cancelPipeline fun d hd =>
    h.victims old d (by rwa [cancelPipeline_phase] at hd)
  exact hcancel.enter c (akin_victim hold rfl)

theorem Apart.install (h : Apart client B s t) {c : C} (hc : (client c).siteId ≠ B) :
    Apart client B (install client c s) (install client c t) := by
  have hreg : Apart client B
      { s with connections := Function.update s.connections (client c).conversationId (some c) }
      { t with connections := Function.update t.connections (client c).conversationId (some c) } := by
    refine ⟨h.conns, fun k d hd => ?_, fun k d hk => ?_, h.victims, h.streams⟩
    · by_cases hkc : k = (client c).conversationId
      · simp [hkc]
      · simpa [hkc] using h.entries k d hd
    · by_cases hkc : k = (client c).conversationId
      · subst hkc
        have hcd : c = d := by simpa using hk
        exact hcd ▸ hc
      · exact h.shadow k d (by simpa [hkc] using hk)
  exact hreg.enter c (by simp [victim])

/-- A handshake of another site that finds no entry of `B`. -/
theorem Apart.authenticated (h : Apart client B s t) {c : C} (hc : (client c).siteId ≠ B)
    (hk : ∀ d, s.connections (client c).conversationId = some d → akin client B d c) :
    Apart client B (authenticated client c s) (authenticated client c t) := by
  unfold Endpoint.authenticated
  cases hs : s.connections (client c).conversationId with
  | none =>
    have ht : t.connections (client c).conversationId = none :=
      h.shadow_entry fun d hd => by rw [hs] at hd; cases hd
    rw [ht]
    exact h.install hc
  | some old =>
    have hold := hk old hs
    have ht : t.connections (client c).conversationId = some old :=
      (h.entries _ old fun hb => hc (hold.mp hb)).mp hs
    rw [ht]
    have hpop := (h.pop (client c).conversationId).update old
      (fun x => { x with evicted := true }) fun d hd => h.victims old d hd
    dsimp only
    split
    · exact hpop.enter c (akin_victim hold rfl)
    · exact hpop.closeOld hold

variable [DecidableEq M] {s' : Server C M}

theorem Apart.step (h : Apart client B s t) {a : Action C M} (ha : ofSite client B a = false)
    (hu : unshared client B s a) (hs : step client s a = some s') :
    ∃ t', step client t a = some t' ∧ Apart client B s' t' := by
  have hsite : (client a.actor).siteId ≠ B := by simpa [ofSite] using ha
  have hconn := h.conns a.actor hsite
  have htaken {t' : Server C M} (ht : Stretch client t a t') (hapart : Apart client B s' t') :
      ∃ t', Endpoint.step client t a = some t' ∧ Apart client B s' t' :=
    ⟨t', step_of_stretch client ht, hapart⟩
  cases stretch_of_step client hs with
  | authenticated hphase => exact htaken (.authenticated (hconn ▸ hphase)) (h.authenticated hsite hu)
  | @sentinelPushed c old delivered trimmed hphase =>
    have hold := h.victims c old (by rw [hphase]; rfl)
    refine htaken (.sentinelPushed (hconn ▸ hphase)) (Apart.closeOld ?_ hold)
    split
    · exact h.pushEvent old _ _
    · exact h
  | @oldClosed c old hphase =>
    refine htaken (.oldClosed (hconn ▸ hphase)) (Apart.install ?_ hsite)
    exact h.update old (fun x => { x with socketOpen := false }) fun d hd => h.victims old d hd
  | greeted hphase => exact htaken (.greeted (hconn ▸ hphase)) (h.enter _ (by simp [victim]))
  | greetingFailed hphase =>
    exact htaken (.greetingFailed (hconn ▸ hphase)) (h.enter _ (by simp [victim]))
  | aborted hphase => exact htaken (.aborted (hconn ▸ hphase)) (h.enter _ (by simp [victim]))
  | @session c b q hreached hsession =>
    exact htaken (.session (hconn ▸ hreached) (hconn ▸ hsession))
      (h.update c _ fun d hd => h.victims c d hd)
  | @pushed c m trimmed hreached hrecords =>
    exact htaken (.pushed (hconn ▸ hreached) hrecords) (h.pushEvent c _ _)
  | @pipelineUnwound c hcancelled =>
    exact htaken (.pipelineUnwound (hconn ▸ hcancelled)) (h.update c _ fun d hd => h.victims c d hd)
  | loopEnded hphase => exact htaken (.loopEnded (hconn ▸ hphase)) ((h.pop _).enter _ (by simp [victim]))
  | @heartbeatStopped c hphase =>
    have hcancel := h.update c cancelPipeline fun d hd =>
      h.victims c d (by rwa [cancelPipeline_phase] at hd)
    exact htaken (.heartbeatStopped (hconn ▸ hphase)) (hcancel.enter c (by simp [victim]))
  | @drained c hphase hidle =>
    have hclose := h.update c (fun x => { x with socketOpen := false }) fun d hd => h.victims c d hd
    exact htaken (.drained (hconn ▸ hphase) (hconn ▸ hidle)) (hclose.enter c (by simp [victim]))

end AlfredProcessing.Websocket.Tenants
