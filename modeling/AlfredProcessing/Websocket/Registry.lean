import AlfredProcessing.Websocket.Endpoint

namespace AlfredProcessing.Websocket.Registry

open Lib.Transition Endpoint

variable {C M : Type} {client : C → Client} {s t : Server C M}

/-- The phases from the installation of an entry to the end of the receive loop. -/
def installed : Phase C → Bool
  | .greeting | .serving | .stranded => true
  | _ => false

def uninstalled : Phase C → Bool
  | .connecting | .pushing _ | .closing _ => true
  | _ => false

/-- A connection is live from its installation until its receive loop ends or
a later handshake evicts it. -/
def live (s : Server C M) (c : C) : Prop :=
  installed (s.conns c).phase ∧ (s.conns c).evicted = false

/-- Each conversation has at most one live connection, and `_connections`
maps the conversation to it. -/
structure Exclusive (client : C → Client) (s : Server C M) : Prop where
  unique : ∀ c d, live s c → live s d →
    (client c).conversationId = (client d).conversationId → c = d
  registered : ∀ c, live s c → s.connections (client c).conversationId = some c

/-- The inductive strengthening of `Exclusive`: no stale entries. -/
structure Inv (client : C → Client) (s : Server C M) : Prop where
  registered : ∀ c, live s c → s.connections (client c).conversationId = some c
  entries : ∀ k c, s.connections k = some c → live s c ∧ (client c).conversationId = k
  fresh : ∀ c, uninstalled (s.conns c).phase → (s.conns c).evicted = false

/-- An installation finds no entry of a successor, and the pop at the end of a
receive loop removes no other connection's entry. -/
def undisturbed (client : C → Client) (s : Server C M) : Action C M → Prop
  | .oldClosed c => s.connections (client c).conversationId = none
  | .loopEnded c => ∀ d, s.connections (client c).conversationId = some d → d = c
  | _ => True

theorem Inv.exclusive (h : Inv client s) : Exclusive client s where
  unique c d hc hd hk := by
    have he := h.registered c hc
    rw [hk, h.registered d hd] at he
    exact (Option.some.inj he).symm
  registered := h.registered

theorem inv_init : Inv client ({} : Server C M) where
  registered c hc := absurd hc.1 (by simp [installed])
  entries k c hk := by cases hk
  fresh c _ := rfl

theorem Inv.congr (h : Inv client s) (hreg : t.connections = s.connections)
    (hin : ∀ c, installed (t.conns c).phase = installed (s.conns c).phase)
    (hev : ∀ c, (t.conns c).evicted = (s.conns c).evicted)
    (hun : ∀ c, uninstalled (t.conns c).phase → uninstalled (s.conns c).phase) : Inv client t := by
  have hlive (c : C) : live t c ↔ live s c := by rw [live, live, hin, hev]
  refine ⟨fun c hc => ?_, fun k c hk => ?_, fun c hc => ?_⟩
  · rw [hreg]
    exact h.registered c ((hlive c).mp hc)
  · rw [hreg] at hk
    obtain ⟨hc, he⟩ := h.entries k c hk
    exact ⟨(hlive c).mpr hc, he⟩
  · rw [hev]
    exact h.fresh c (hun c hc)

variable [DecidableEq C]

theorem Inv.update (h : Inv client s) (c : C) (f : Conn C M → Conn C M)
    (hin : installed (f (s.conns c)).phase = installed (s.conns c).phase)
    (hev : (f (s.conns c)).evicted = (s.conns c).evicted)
    (hun : uninstalled (f (s.conns c)).phase → uninstalled (s.conns c).phase) :
    Inv client (s.update c f) := by
  have hcases (d : C) : (s.update c f).conns d = s.conns d ∨
      d = c ∧ (s.update c f).conns d = f (s.conns c) := by
    by_cases hd : d = c
    · subst hd
      exact .inr ⟨rfl, by simp⟩
    · exact .inl (by simp [hd])
  refine h.congr rfl (fun d => ?_) (fun d => ?_) (fun d hd => ?_)
  · rcases hcases d with he | ⟨rfl, he⟩
    · rw [he]
    · rw [he, hin]
  · rcases hcases d with he | ⟨rfl, he⟩
    · rw [he]
    · rw [he, hev]
  · rcases hcases d with he | ⟨rfl, he⟩
    · rwa [he] at hd
    · exact hun (he ▸ hd)

theorem Inv.enter (h : Inv client s) (c : C) (p : Phase C)
    (hin : installed p = installed (s.conns c).phase)
    (hun : uninstalled p → uninstalled (s.conns c).phase) : Inv client (s.enter c p) :=
  h.update c _ hin rfl hun

theorem Inv.cancelPipeline (h : Inv client s) (c : C) : Inv client (s.update c cancelPipeline) := by
  have hph : (Endpoint.cancelPipeline (s.conns c)).phase = (s.conns c).phase := by
    unfold Endpoint.cancelPipeline
    split <;> rfl
  have hev : (Endpoint.cancelPipeline (s.conns c)).evicted = (s.conns c).evicted := by
    unfold Endpoint.cancelPipeline
    split <;> rfl
  exact h.update c _ (by rw [hph]) hev (by rw [hph]; exact id)

theorem Inv.install (h : Inv client s) {c : C}
    (hfree : s.connections (client c).conversationId = none)
    (hun : uninstalled (s.conns c).phase) : Inv client (install client c s) := by
  have hnot (d : C) (hd : live s d) : (client d).conversationId ≠ (client c).conversationId := by
    intro hk
    have he := h.registered d hd
    rw [hk, hfree] at he
    cases he
  have hother (d : C) (hd : d ≠ c) : (Endpoint.install client c s).conns d = s.conns d := by
    simp [Endpoint.install, hd]
  have hlive (d : C) (hd : d ≠ c) : live (Endpoint.install client c s) d ↔ live s d := by
    rw [live, live, hother d hd]
  have hc : live (Endpoint.install client c s) c :=
    ⟨by simp [Endpoint.install, installed], by simpa [Endpoint.install] using h.fresh c hun⟩
  refine ⟨fun d hd => ?_, fun k d hk => ?_, fun d hd => ?_⟩
  · by_cases hdc : d = c
    · subst hdc
      simp [Endpoint.install]
    · have hs := (hlive d hdc).mp hd
      simpa [Endpoint.install, hnot d hs] using h.registered d hs
  · by_cases hkc : k = (client c).conversationId
    · subst hkc
      have hdc : c = d := by simpa [Endpoint.install] using hk
      exact hdc ▸ ⟨hc, rfl⟩
    · have hk : s.connections k = some d := by simpa [Endpoint.install, hkc] using hk
      obtain ⟨hs, he⟩ := h.entries k d hk
      have hdc : d ≠ c := fun hdc => hkc (hdc ▸ he).symm
      exact ⟨(hlive d hdc).mpr hs, he⟩
  · by_cases hdc : d = c
    · subst hdc
      exact hc.2
    · rw [hother d hdc] at hd ⊢
      exact h.fresh d hd

theorem Inv.evict (h : Inv client s) {k : String} {old : C} (hold : s.connections k = some old) :
    Inv client ((s.pop k).update old fun x => { x with evicted := true }) := by
  obtain ⟨hlo, rfl⟩ := h.entries k old hold
  set t : Server C M :=
    (s.pop (client old).conversationId).update old fun x => { x with evicted := true } with ht
  have hother (d : C) (hd : d ≠ old) : t.conns d = s.conns d := by simp [ht, hd]
  have hdead : ¬ live t old := fun hl => by simpa [ht] using hl.2
  have hne (d : C) (hd : live s d) (hdo : d ≠ old) :
      (client d).conversationId ≠ (client old).conversationId := by
    intro hk
    have he := h.registered d hd
    rw [hk, hold] at he
    exact hdo (Option.some.inj he).symm
  refine ⟨fun d hd => ?_, fun k d hk => ?_, fun d hd => ?_⟩
  · have hdo : d ≠ old := fun hdo => hdead (hdo ▸ hd)
    have hs : live s d := by rwa [live, hother d hdo] at hd
    simpa [ht, hne d hs hdo] using h.registered d hs
  · by_cases hkc : k = (client old).conversationId
    · subst hkc
      simp [ht] at hk
    · have hk : s.connections k = some d := by simpa [ht, hkc] using hk
      obtain ⟨hs, he⟩ := h.entries k d hk
      have hdo : d ≠ old := fun hdo => hkc (hdo ▸ he).symm
      exact ⟨by rwa [live, hother d hdo], he⟩
  · by_cases hdo : d = old
    · subst hdo
      have hin := hlo.1
      have hun : uninstalled (s.conns d).phase := by simpa [ht] using hd
      cases hp : (s.conns d).phase <;> simp [hp, installed, uninstalled] at hin hun
    · rw [hother d hdo] at hd ⊢
      exact h.fresh d hd

theorem Inv.leave (h : Inv client s) {c : C} (hph : (s.conns c).phase = .serving)
    (hown : ∀ d, s.connections (client c).conversationId = some d → d = c) :
    Inv client ((s.pop (client c).conversationId).enter c .stopping) := by
  set t : Server C M := (s.pop (client c).conversationId).enter c .stopping with ht
  have hother (d : C) (hd : d ≠ c) : t.conns d = s.conns d := by simp [ht, hd]
  have hdead : ¬ live t c := fun hl => by simpa [ht, installed] using hl.1
  refine ⟨fun d hd => ?_, fun k d hk => ?_, fun d hd => ?_⟩
  · have hdc : d ≠ c := fun hdc => hdead (hdc ▸ hd)
    have hs : live s d := by rwa [live, hother d hdc] at hd
    have he := h.registered d hs
    have hk : (client d).conversationId ≠ (client c).conversationId := fun hk =>
      hdc (hown d (hk ▸ he))
    simpa [ht, hk] using he
  · by_cases hkc : k = (client c).conversationId
    · subst hkc
      simp [ht] at hk
    · have hk : s.connections k = some d := by simpa [ht, hkc] using hk
      obtain ⟨hs, he⟩ := h.entries k d hk
      have hdc : d ≠ c := fun hdc => hkc (hdc ▸ he).symm
      exact ⟨by rwa [live, hother d hdc], he⟩
  · by_cases hdc : d = c
    · subst hdc
      simp [ht, uninstalled] at hd
    · rw [hother d hdc] at hd ⊢
      exact h.fresh d hd

theorem Inv.closeOld (h : Inv client s) (c old : C) (hc : uninstalled (s.conns c).phase) :
    Inv client (closeOld c old s) := by
  have hph : ((s.update old Endpoint.cancelPipeline).conns c).phase = (s.conns c).phase := by
    by_cases hco : c = old
    · subst hco
      simp only [update_conns, Function.update_self, Endpoint.cancelPipeline]
      split <;> rfl
    · simp [hco]
  refine (h.cancelPipeline old).enter c _ ?_ fun _ => hph ▸ hc
  rw [hph]
  cases hp : (s.conns c).phase <;> simp [hp, installed, uninstalled] at hc ⊢

theorem Inv.authenticated (h : Inv client s) {c : C} (hc : (s.conns c).phase = .connecting) :
    Inv client (authenticated client c s) := by
  have hun : uninstalled (s.conns c).phase := by simp [hc, uninstalled]
  unfold Endpoint.authenticated
  split
  · next hfree => exact h.install hfree hun
  · next old hold =>
    have hev := h.evict hold
    have hlo := (h.entries _ old hold).1
    have hco : c ≠ old := by
      rintro rfl
      simp [live, hc, installed] at hlo
    have hc' : ((((s.pop (client c).conversationId).update old
        fun x => { x with evicted := true }).conns c).phase) = .connecting := by simp [hco, hc]
    dsimp only
    split
    · exact hev.enter c _ (by rw [hc']; rfl) fun _ => by rw [hc']; rfl
    · exact hev.closeOld c old (by rw [hc']; rfl)

variable [DecidableEq M]

theorem Inv.step (h : Inv client s) {a : Action C M} (hu : undisturbed client s a)
    (ht : step client s a = some t) : Inv client t := by
  cases stretch_of_step client ht with
  | authenticated hphase => exact h.authenticated hphase
  | @sentinelPushed c old delivered trimmed hphase =>
    have hpush : Inv client (if delivered = true then pushEvent client old
        (.runEvicted (client c).conversationId (client old).user (client old).siteId) trimmed s
        else s) := by
      split
      · exact h.congr (by simp) (by simp) (by simp) (by simp)
      · exact h
    refine hpush.closeOld c old ?_
    split <;> simp [hphase, uninstalled]
  | @oldClosed c old hphase =>
    have hclose := h.update old (fun x => { x with socketOpen := false }) rfl rfl id
    refine hclose.install hu ?_
    by_cases hco : c = old
    · subst hco
      simp [hphase, uninstalled]
    · simp [hco, hphase, uninstalled]
  | greeted hphase => exact h.enter _ _ (by rw [hphase]; rfl) (by simp [uninstalled])
  | greetingFailed hphase => exact h.enter _ _ (by rw [hphase]; rfl) (by simp [uninstalled])
  | aborted hphase =>
    obtain hphase | ⟨old, hphase | hphase⟩ := hphase <;>
      exact h.enter _ _ (by rw [hphase]; rfl) (by simp [uninstalled])
  | session => exact h.update _ _ rfl rfl id
  | pushed => exact h.congr (by simp) (by simp) (by simp) (by simp)
  | pipelineUnwound => exact h.update _ _ rfl rfl id
  | loopEnded hphase => exact h.leave hphase hu
  | @heartbeatStopped c hphase =>
    have hph : ((s.update c Endpoint.cancelPipeline).conns c).phase = .stopping := by
      simp only [update_conns, Function.update_self, Endpoint.cancelPipeline]
      split <;> exact hphase
    exact (h.cancelPipeline c).enter c _ (by rw [hph]; rfl) (by simp [uninstalled])
  | @drained c hphase _ =>
    refine (h.update c (fun x => { x with socketOpen := false }) rfl rfl id).enter c _ ?_ ?_
    · simp [hphase, installed]
    · simp [uninstalled]

/-- An installation over an entry, and the pop of a successor's entry, leave a
live connection that the registry does not know. -/
theorem undisturbed_of_exclusive (h : Inv client s) {a : Action C M}
    (ht : step client s a = some t) (hex : Exclusive client t) : undisturbed client s a := by
  cases stretch_of_step client ht with
  | @oldClosed c old hphase =>
    show s.connections (client c).conversationId = none
    cases hk : s.connections (client c).conversationId with
    | none => rfl
    | some d =>
      obtain ⟨hd, he⟩ := h.entries _ d hk
      have hdc : d ≠ c := by
        rintro rfl
        simp [live, hphase, installed] at hd
      have hlive : live (install client c (s.update old fun x => { x with socketOpen := false })) d := by
        by_cases hdo : d = old
        · subst hdo
          simpa [live, install, hdc] using hd
        · simpa [live, install, hdc, hdo] using hd
      have hreg := hex.registered d hlive
      rw [he] at hreg
      simp only [install, enter_connections, Function.update_self, Option.some.injEq] at hreg
      exact absurd hreg.symm hdc
  | @loopEnded c hphase =>
    intro d hk
    by_contra hdc
    obtain ⟨hd, he⟩ := h.entries _ d hk
    have hlive : live ((s.pop (client c).conversationId).enter c .stopping) d := by
      simpa [live, hdc] using hd
    have hreg := hex.registered d hlive
    simp [he] at hreg
  | _ => trivial

/-- The registry stays exact along a schedule exactly when no installation
overwrites an entry and no ending receive loop pops a successor's entry. -/
theorem exclusive_iff_undisturbed (client : C → Client) (as : List (Action C M)) :
    Always (step client) (Exclusive client) {} as ↔ Meets (step client) (undisturbed client) {} as :=
  always_iff_meets (J := Inv client) (fun _ h => h.exclusive) (fun _ _ _ h hu ht => h.step hu ht)
    (fun _ _ _ h ht hex => undisturbed_of_exclusive h ht hex) inv_init as

/-- A page reload: the second connection takes over, then the receive loop of
the first one ends. -/
def reload : List (Endpoint.Action Bool Nat) :=
  [.authenticated false, .greeted false, .authenticated true, .oldClosed true, .greeted true,
    .loopEnded false]

def tab : Bool → Client := fun _ => ⟨"site", "user", "conversation", false, Questions.plainSite⟩

theorem reload_unregisters_the_successor : ¬ Always (step tab) (Exclusive tab) {} reload := by
  intro h
  obtain ⟨t, ht⟩ : ∃ t, run (step tab) {} reload = some t := ⟨_, rfl⟩
  have hlast := h.last ht
  cases ht
  exact absurd (hlast.registered true ⟨rfl, rfl⟩) (by decide)

end AlfredProcessing.Websocket.Registry
