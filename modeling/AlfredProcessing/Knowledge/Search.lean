import AlfredProcessing.Knowledge.Loader
import AlfredProcessing.Lib.Transition

namespace AlfredProcessing.Knowledge.Search

open Lib.Json Lib.Keyed Lib.Ranking Lib.JsonDump Lib.Stamped Lib.Transition Extract.Changes Extract.Cleaning
  HybridSearch Loader

section Model

variable {Vec γ : Type} [LinearOrder γ]

/-- The embedding model: the vector of a text, their similarity, and how it is shown. -/
structure Encoder (Vec γ : Type) where
  embed : Str → Vec
  dot : Vec → Vec → γ
  rounded : γ → Value

/-- What of the embedding model works at a call. -/
structure Backend where
  loads : Bool
  encodesEntries : Bool
  encodesQuery : Bool

inductive ModelState where
  | unloaded
  | loaded
  | failed
  deriving DecidableEq

/-- The caches of the module. The rows are `_embeddings` under `_embedding_ids`. -/
structure Kb (Vec : Type) where
  mtimes : Mtimes := []
  entries : Entries := []
  model : ModelState := .unloaded
  embeddings : Option (List (Str × Vec)) := none
  stale : Bool := true

structure Call (γ : Type) where
  query : Str
  kind : Option Str
  k : Nat
  minScore : Nat
  minSimilarity : γ

variable (lower : Str → Str) (encoder : Encoder Vec γ) (disk : Disk) (b : Backend)

/-- `_load_entries`. -/
def load (kb : Kb Vec) : Except PyError Entries × Kb Vec :=
  if !anyChange kb.mtimes disk && !kb.entries.isEmpty then (.ok kb.entries, kb)
  else
    match readEntries disk with
    | .ok merged => (.ok merged, { kb with entries := merged, mtimes := newMtimes disk, stale := true })
    | .error e => (.error e, kb)

/-- `_get_model`: whether there is one. -/
def getModel (kb : Kb Vec) : Bool × Kb Vec :=
  match kb.model with
  | .loaded => (true, kb)
  | .failed => (false, kb)
  | .unloaded => if b.loads then (true, { kb with model := .loaded }) else (false, { kb with model := .failed })

def bodyText (entry : Dict) : Except PyError Value :=
  match pyOr (pyGet entry "body") (.str []) with
  | .str s => .ok (.str (s.take 500))
  | .list xs => .ok (.list (xs.take 500))
  | _ => .error .typeError

def keywordText (entry : Dict) : Except PyError Str :=
  match pyOr (pyGet entry "keywords") (.list []) with
  | .list words => joinWords words
  | _ => .error .typeError

/-- `_entry_text_for_embedding`. -/
def entryText (entry : Dict) : Except PyError Str := do
  let keywords ← keywordText entry
  let body ← bodyText entry
  let parts := [pyOr (pyGet entry "title") (.str []), pyOr (pyGet entry "summary") (.str []), .str keywords, body]
  let texts ← (parts.filter Value.truthy).mapM textOf
  return (str "\n").intercalate texts

def rowOf (entries : Entries) (id : Str) : Except PyError (Str × Vec) :=
  (entryText ((lookup Prod.fst id entries).elim [] Prod.snd)).map fun text => (id, encoder.embed text)

def rowsOf (entries : Entries) : Except PyError (List (Str × Vec)) :=
  ((entries.map Prod.fst).insertionSort fun i j => codeLe i j).mapM (rowOf encoder entries)

/-- `_ensure_embeddings`. -/
def ensureEmbeddings (kb : Kb Vec) : Except PyError Bool × Kb Vec :=
  if kb.embeddings.isSome && !kb.stale then (.ok true, kb)
  else
    let got := getModel b kb
    if !got.1 then (.ok false, got.2)
    else
      let loaded := load disk got.2
      match loaded.1 with
      | .error e => (.error e, loaded.2)
      | .ok entries =>
        if entries.isEmpty then (.ok false, { loaded.2 with embeddings := none, stale := false })
        else
          match rowsOf encoder entries with
          | .error e => (.error e, loaded.2)
          | .ok rows =>
            if b.encodesEntries then (.ok true, { loaded.2 with embeddings := some rows, stale := false })
            else (.ok false, { loaded.2 with embeddings := none, stale := false })

def scoreRow (call : Call γ) (entries : Entries) (row : Str × Vec) : Option (γ × Str × Dict) :=
  let sim := encoder.dot row.2 (encoder.embed call.query)
  if sim < call.minSimilarity then none
  else
    match lookup Prod.fst row.1 entries with
    | none => none
    | some e => if e.2.isEmpty || otherKind call.kind e.2 then none else some (sim, e)

def semanticHits (call : Call γ) (k : Nat) (rows : List (Str × Vec)) (entries : Entries) : List Hit :=
  (best better k (rows.filterMap (scoreRow encoder call entries))).map fun h =>
    hitOf .semantic (encoder.rounded h.1) h.2

def blank (query : Str) : Bool := (stripped query).isEmpty

def wordless (query : Str) : Bool := blank query || (termsOf lower query).isEmpty

/-- `search_keyword`. -/
def searchKeyword (call : Call γ) (k minScore : Nat) (kb : Kb Vec) : Except PyError (List Hit) × Kb Vec :=
  if wordless lower call.query then (.ok [], kb)
  else
    let loaded := load disk kb
    (loaded.1.bind (keywordHits lower (termsOf lower call.query) call.kind k minScore), loaded.2)

/-- `search_semantic`. -/
def searchSemantic (call : Call γ) (k : Nat) (kb : Kb Vec) : Except PyError (List Hit) × Kb Vec :=
  if blank call.query then (.ok [], kb)
  else
    let ensured := ensureEmbeddings encoder disk b kb
    match ensured.1 with
    | .error e => (.error e, ensured.2)
    | .ok false => (.ok [], ensured.2)
    | .ok true =>
      let got := getModel b ensured.2
      if !(got.1 && b.encodesQuery) then (.ok [], got.2)
      else
        let loaded := load disk got.2
        (loaded.1.map (semanticHits encoder call k (got.2.embeddings.getD [])), loaded.2)

def blend (kw sem : List Hit) (k : Nat) : List Hit :=
  (HybridSearch.searchHybrid kw sem k (max kw.length sem.length + 1)).getD []

/-- `search_hybrid`, with the rankings it fetches. -/
def searchHybrid (call : Call γ) (kb : Kb Vec) : Except PyError (List Hit) × Kb Vec :=
  let kw := searchKeyword lower disk call (max call.k 5) 3 kb
  match kw.1 with
  | .error e => (.error e, kw.2)
  | .ok hits =>
    let sem := searchSemantic encoder disk b call (max call.k 5) kw.2
    (sem.1.map fun found => blend hits found call.k, sem.2)

inductive Request (γ : Type) where
  | keyword (call : Call γ)
  | semantic (call : Call γ)
  | hybrid (call : Call γ)

def serve (kb : Kb Vec) : Request γ → Except PyError (List Hit) × Kb Vec
  | .keyword call => searchKeyword lower disk call call.k call.minScore kb
  | .semantic call => searchSemantic encoder disk b call call.k kb
  | .hybrid call => searchHybrid lower encoder disk b call kb

structure Answered (γ : Type) where
  request : Request γ
  backend : Backend
  result : Except PyError (List Hit)

/-- The files, the caches, and the search that was the last step if it was one. What the files have been is read
by none. -/
structure State (Vec γ : Type) where
  disk : Disk
  seen : List Disk
  kb : Kb Vec
  answered : Option (Answered γ)

inductive Action (γ : Type) where
  | write (disk : Disk)
  | clear
  | search (request : Request γ) (b : Backend)

def init (disk : Disk) : State Vec γ := ⟨disk, [disk], {}, none⟩

/-- The files change, `clear_cache` is called, or there is a search. -/
def step (s : State Vec γ) : Action γ → Option (State Vec γ)
  | .write disk => some { s with disk := disk, seen := disk :: s.seen, answered := none }
  | .clear => some { s with kb := {}, answered := none }
  | .search request b =>
    let served := serve lower encoder s.disk b s.kb request
    some { s with kb := served.2, answered := some ⟨request, b, served.1⟩ }

end Model

section Plain

variable {Vec γ : Type} [LinearOrder γ] (lower : Str → Str) (encoder : Encoder Vec γ)

def keywordPlain (call : Call γ) (k minScore : Nat) (reading : Except PyError Entries) : Except PyError (List Hit) :=
  if wordless lower call.query then .ok []
  else reading.bind (keywordHits lower (termsOf lower call.query) call.kind k minScore)

def semanticPlain (available : Bool) (call : Call γ) (k : Nat) (indexed reading : Except PyError Entries) :
    Except PyError (List Hit) :=
  if blank call.query || !available then .ok []
  else (indexed.bind (rowsOf encoder)).bind fun rows => reading.map (semanticHits encoder call k rows)

/-- What a search finds where nothing is kept from before: the files read as they are and, while the embedding model
is available, every entry embedded anew. -/
def plain (available : Bool) (indexed reading : Except PyError Entries) : Request γ → Except PyError (List Hit)
  | .keyword call => keywordPlain lower call call.k call.minScore reading
  | .semantic call => semanticPlain encoder available call call.k indexed reading
  | .hybrid call =>
    (keywordPlain lower call (max call.k 5) 3 reading).bind fun kw =>
      (semanticPlain encoder available call (max call.k 5) indexed reading).map fun sem => blend kw sem call.k

/-- The entries are looked at before their rows are. -/
def Request.readsFirst : Request γ → Bool
  | .keyword _ => true
  | .semantic _ => false
  | .hybrid call => !wordless lower call.query

/-- The answer is that of a plain search of files with the modification times of now. Rows may be those of an earlier
time only where the entries are not looked at before. The model is used whenever it is there and works. -/
def Served (s : State Vec γ) (a : Answered γ) : Prop :=
  ∃ now ∈ s.seen, ∃ indexed ∈ s.seen, newMtimes now = newMtimes s.disk ∧
    (a.request.readsFirst lower = true → indexed = now) ∧ ∃ available : Bool,
      (available = true → s.kb.model = .loaded) ∧
      (s.kb.model = .loaded → a.backend.encodesEntries = true → a.backend.encodesQuery = true → available = true) ∧
      a.result = plain lower encoder available (readEntries indexed) (readEntries now) a.request

end Plain

section Loading

variable {Vec γ : Type} {encoder : Encoder Vec γ} {seen : List Disk} {disk : Disk} {kb : Kb Vec}

def nonempty (entries : Entries) : Bool := !entries.isEmpty

/-- The entries with the modification times of the files that they were read of. -/
def Kb.kept (kb : Kb Vec) : Kept Mtimes Entries := ⟨kb.mtimes, kb.entries⟩

structure Inv (encoder : Encoder Vec γ) (seen : List Disk) (kb : Kb Vec) : Prop where
  stamped : ∃ d, kb.mtimes = newMtimes d
  vouched : Vouched newMtimes readEntries nonempty seen kb.kept
  loaded : kb.embeddings.isSome → kb.model = .loaded
  current : ∀ rows, kb.embeddings = some rows → kb.stale = false →
    kb.entries ≠ [] ∧ rowsOf encoder kb.entries = .ok rows

theorem load_eq_fetch (disk : Disk) (h : ∃ d, kb.mtimes = newMtimes d) :
    fetch newMtimes readEntries nonempty kb.kept disk = ((load disk kb).1, (load disk kb).2.kept) := by
  obtain ⟨d, hd⟩ := h
  have hsame : (!anyChange kb.mtimes disk && !kb.entries.isEmpty) = true ↔
      newMtimes disk = kb.kept.stamp ∧ nonempty kb.kept.value = true := by
    rw [Bool.and_eq_true, Bool.not_eq_true', hd, anyChange_newMtimes, Kb.kept, hd]
    exact Iff.rfl
  unfold load fetch
  by_cases hkept : newMtimes disk = kb.kept.stamp ∧ nonempty kb.kept.value = true
  · rw [if_pos hkept, if_pos (hsame.mpr hkept)]
    rfl
  · rw [if_neg hkept, if_neg (mt hsame.mp hkept)]
    cases readEntries disk with
    | ok merged => rfl
    | error e => rfl

theorem load_cases (disk : Disk) (kb : Kb Vec) : (load disk kb).2 = kb ∨ ∃ merged, (load disk kb).1 = .ok merged ∧
    (load disk kb).2 = { kb with entries := merged, mtimes := newMtimes disk, stale := true } := by
  unfold load
  split_ifs
  · exact .inl rfl
  · cases readEntries disk with
    | ok merged => exact .inr ⟨merged, rfl, rfl⟩
    | error e => exact .inl rfl

theorem Inv.load (h : Inv encoder seen kb) (hdisk : disk ∈ seen) : Inv encoder seen (load disk kb).2 := by
  have hkept : Vouched newMtimes readEntries nonempty seen (Search.load disk kb).2.kept := by
    have hfetch := h.vouched.fetch hdisk
    rwa [load_eq_fetch disk h.stamped] at hfetch
  obtain hsame | ⟨merged, -, hload⟩ := load_cases disk kb
  · rw [hsame]
    exact h
  · rw [hload] at hkept ⊢
    exact ⟨⟨disk, rfl⟩, hkept, h.loaded, fun _ _ hstale => nomatch hstale⟩

theorem Inv.exists_read (h : Inv encoder seen kb) (hdisk : disk ∈ seen) :
    ∃ now ∈ seen, newMtimes now = newMtimes disk ∧ readEntries now = (Search.load disk kb).1 := by
  have hfetch := h.vouched.exists_read hdisk
  rwa [load_eq_fetch disk h.stamped] at hfetch

theorem entries_load {entries : Entries} (h : (load disk kb).1 = .ok entries) : (load disk kb).2.entries = entries := by
  unfold load at h ⊢
  split_ifs at h ⊢
  · exact Except.ok.inj h
  · cases hread : readEntries disk with
    | ok merged =>
      rw [hread] at h
      exact Except.ok.inj h
    | error e =>
      rw [hread] at h
      cases h

theorem load_congr {kb' : Kb Vec} (hmtimes : kb'.mtimes = kb.mtimes) (hentries : kb'.entries = kb.entries) :
    (load disk kb').1 = (load disk kb).1 := by
  unfold load
  rw [hmtimes, hentries]
  split_ifs
  · rfl
  · cases readEntries disk with
    | ok merged => rfl
    | error e => rfl

theorem load_load (h : ∃ d, kb.mtimes = newMtimes d) : (load disk (load disk kb).2).1 = (load disk kb).1 := by
  have hfetch := load_eq_fetch disk h
  cases hload : (load disk kb).1 with
  | error e =>
    obtain hsame | ⟨merged, hmerged, -⟩ := load_cases disk kb
    · rw [hsame, hload]
    · cases hmerged.symm.trans hload
  | ok entries =>
    have hstamped : ∃ d, (load disk kb).2.mtimes = newMtimes d := by
      obtain hsame | ⟨merged, -, hmerged⟩ := load_cases disk kb
      · rwa [hsame]
      · rw [hmerged]
        exact ⟨disk, rfl⟩
    rw [hload] at hfetch
    have hagain := fetch_again hfetch
    rw [load_eq_fetch disk hstamped] at hagain
    exact congrArg Prod.fst hagain

theorem inv_empty (seen : List Disk) : Inv encoder seen {} :=
  ⟨⟨fun _ => none, rfl⟩, nofun, nofun, nofun⟩

theorem Inv.mono {seen' : List Disk} (h : Inv encoder seen kb) (hsub : seen ⊆ seen') : Inv encoder seen' kb :=
  ⟨h.stamped, h.vouched.mono hsub, h.loaded, h.current⟩

end Loading

section Answers

variable {Vec γ : Type} {lower : Str → Str} {encoder : Encoder Vec γ} {seen : List Disk} {disk : Disk}
  {b : Backend} {kb : Kb Vec}

theorem getModel_fst (kb : Kb Vec) : (getModel b kb).1 = true ↔ (getModel b kb).2.model = .loaded := by
  unfold getModel
  cases h : kb.model with
  | loaded => simp [h]
  | failed => simp [h]
  | unloaded => cases b.loads <;> simp

/-- Nothing but the state of the model is touched, and a model that is there stays. -/
theorem getModel_snd (b : Backend) (kb : Kb Vec) :
    ∃ m, (getModel b kb).2 = { kb with model := m } ∧ (kb.model = .loaded → m = .loaded) := by
  obtain ⟨mtimes, entries, model, embeddings, stale⟩ := kb
  cases model with
  | loaded => exact ⟨.loaded, rfl, fun _ => rfl⟩
  | failed => exact ⟨.failed, rfl, fun h => nomatch h⟩
  | unloaded =>
    unfold getModel
    cases b.loads
    · exact ⟨.failed, rfl, fun h => nomatch h⟩
    · exact ⟨.loaded, rfl, fun h => nomatch h⟩

theorem Inv.getModel (h : Inv encoder seen kb) (b : Backend) : Inv encoder seen (getModel b kb).2 := by
  obtain ⟨m, hm, hloaded⟩ := getModel_snd b kb
  rw [hm]
  exact ⟨h.stamped, h.vouched, fun hrows => hloaded (h.loaded hrows), h.current⟩

theorem load_getModel (kb : Kb Vec) : (load disk (getModel b kb).2).1 = (load disk kb).1 := by
  obtain ⟨m, hm, -⟩ := getModel_snd b kb
  rw [hm]
  exact load_congr rfl rfl

/-- The entries whose rows are kept: those of now, or those that were kept. -/
def Indexed (disk : Disk) (kb : Kb Vec) (indexed : Except PyError Entries) : Prop :=
  indexed = (load disk kb).1 ∨ kb.entries ≠ [] ∧ indexed = .ok kb.entries

theorem Inv.exists_indexed (h : Inv encoder seen kb) (hdisk : disk ∈ seen) {indexed : Except PyError Entries}
    (hindexed : Indexed disk kb indexed) : ∃ d ∈ seen, readEntries d = indexed := by
  obtain rfl | ⟨hne, rfl⟩ := hindexed
  · obtain ⟨now, hnow, -, hread⟩ := h.exists_read hdisk
    exact ⟨now, hnow, hread⟩
  · have husable : nonempty kb.kept.value = true := by
      rw [nonempty, Bool.not_eq_true']
      exact Bool.eq_false_iff.mpr (mt List.isEmpty_iff.mp hne)
    obtain ⟨d, hd, -, hread⟩ := h.vouched husable
    exact ⟨d, hd, hread⟩

/-- What comes of the embeddings: rows to search, none, or an error. -/
def Ensured (encoder : Encoder Vec γ) (disk : Disk) (b : Backend) (kb : Kb Vec) (r : Except PyError Bool × Kb Vec) :
    Prop :=
  (r.1 = .ok true ∧ ∃ rows indexed, r.2.embeddings = some rows ∧ Indexed disk kb indexed ∧
      indexed.bind (rowsOf encoder) = .ok rows) ∨
    (r.1 = .ok false ∧ (r.2.model = .loaded → b.encodesEntries = true → (load disk kb).1 = .ok [])) ∨
    ∃ e, r.1 = .error e ∧ r.2.model = .loaded ∧ (load disk kb).1.bind (rowsOf encoder) = .error e

theorem load_model (disk : Disk) (kb : Kb Vec) : (load disk kb).2.model = kb.model := by
  obtain hsame | ⟨merged, -, hload⟩ := load_cases disk kb
  · rw [hsame]
  · rw [hload]

theorem Inv.withoutRows (h : Inv encoder seen kb) : Inv encoder seen { kb with embeddings := none, stale := false } :=
  ⟨h.stamped, h.vouched, (fun hrows => nomatch hrows), fun _ hrows => nomatch hrows⟩

theorem Inv.withRows {rows : List (Str × Vec)} (h : Inv encoder seen kb) (hloaded : kb.model = .loaded)
    (hne : kb.entries ≠ []) (hrows : rowsOf encoder kb.entries = .ok rows) :
    Inv encoder seen { kb with embeddings := some rows, stale := false } := by
  refine ⟨h.stamped, h.vouched, fun _ => hloaded, ?_⟩
  intro rows' hrows' _
  obtain rfl := Option.some.inj hrows'
  exact ⟨hne, hrows⟩

theorem ensured_ensureEmbeddings (b : Backend) (h : Inv encoder seen kb) (hdisk : disk ∈ seen) :
    Inv encoder seen (ensureEmbeddings encoder disk b kb).2 ∧
      (load disk (ensureEmbeddings encoder disk b kb).2).1 = (load disk kb).1 ∧
      Ensured encoder disk b kb (ensureEmbeddings encoder disk b kb) := by
  unfold ensureEmbeddings
  by_cases hkept : (kb.embeddings.isSome && !kb.stale) = true
  · rw [if_pos hkept]
    obtain ⟨hrows, hfresh⟩ := Bool.and_eq_true_iff.mp hkept
    obtain ⟨rows, hrows⟩ := Option.isSome_iff_exists.mp hrows
    obtain ⟨hne, hcurrent⟩ := h.current rows hrows (by simpa using hfresh)
    exact ⟨h, rfl, .inl ⟨rfl, rows, .ok kb.entries, hrows, .inr ⟨hne, rfl⟩, hcurrent⟩⟩
  rw [if_neg hkept]
  dsimp only
  have hgot : Inv encoder seen (getModel b kb).2 := h.getModel b
  by_cases hmodel : (getModel b kb).1 = true
  swap
  · rw [if_pos (by simpa using hmodel)]
    exact ⟨hgot, load_getModel kb, .inr (.inl ⟨rfl, fun hloaded => absurd ((getModel_fst kb).mpr hloaded) hmodel⟩)⟩
  rw [if_neg (by simpa using hmodel)]
  have hinv : Inv encoder seen (load disk (getModel b kb).2).2 := hgot.load hdisk
  have hagain : (load disk (load disk (getModel b kb).2).2).1 = (load disk kb).1 :=
    (load_load hgot.stamped).trans (load_getModel kb)
  have hloaded : (load disk (getModel b kb).2).2.model = .loaded :=
    (load_model disk (getModel b kb).2).trans ((getModel_fst kb).mp hmodel)
  cases hload : (load disk (getModel b kb).2).1 with
  | error e =>
    refine ⟨hinv, hagain, .inr (.inr ⟨e, rfl, hloaded, ?_⟩)⟩
    rw [← load_getModel kb, hload]
    rfl
  | ok entries =>
    have hentries := entries_load hload
    have hreading : (load disk kb).1 = .ok entries := (load_getModel kb).symm.trans hload
    have hrest : ∀ rows, (load disk { (load disk (getModel b kb).2).2 with embeddings := rows, stale := false }).1 =
        (load disk kb).1 := fun _ => (load_congr (by rfl) (by rfl)).trans hagain
    dsimp only
    by_cases hempty : entries.isEmpty = true
    · rw [if_pos hempty]
      refine ⟨hinv.withoutRows, hrest none, .inr (.inl ⟨rfl, fun _ _ => ?_⟩)⟩
      rw [hreading, List.isEmpty_iff.mp hempty]
    rw [if_neg hempty]
    cases hrows : rowsOf encoder entries with
    | error e =>
      refine ⟨hinv, hagain, .inr (.inr ⟨e, rfl, hloaded, ?_⟩)⟩
      rw [hreading]
      exact hrows
    | ok rows =>
      dsimp only
      by_cases hencodes : b.encodesEntries = true
      · rw [if_pos hencodes]
        have hne : (load disk (getModel b kb).2).2.entries ≠ [] := hentries.symm ▸ mt List.isEmpty_iff.mpr hempty
        exact ⟨hinv.withRows hloaded hne (hentries.symm ▸ hrows), hrest (some rows), .inl ⟨rfl, rows,
          .ok entries, rfl, .inl hreading.symm, hrows⟩⟩
      · rw [if_neg hencodes]
        exact ⟨hinv.withoutRows, hrest none, .inr (.inl ⟨rfl, fun _ h => absurd h hencodes⟩)⟩

variable [LinearOrder γ]

/-- A search by meaning finds what a plain one finds that uses the rows of those entries. -/
def SemanticServed (encoder : Encoder Vec γ) (disk : Disk) (b : Backend) (kb : Kb Vec) (call : Call γ) (k : Nat)
    (r : Except PyError (List Hit) × Kb Vec) : Prop :=
  ∃ indexed, Indexed disk kb indexed ∧ ∃ available : Bool, (available = true → r.2.model = .loaded) ∧
    (r.2.model = .loaded → b.encodesEntries = true → b.encodesQuery = true → available = true) ∧
    r.1 = semanticPlain encoder available call k indexed (load disk kb).1

theorem semanticHits_nil (call : Call γ) (k : Nat) (entries : Entries) : semanticHits encoder call k [] entries = [] := by
  unfold semanticHits best
  rw [List.filterMap_nil, List.insertionSort_nil, List.take_nil, List.map_nil]

theorem semanticPlain_unavailable (call : Call γ) (k : Nat) (indexed reading : Except PyError Entries) :
    semanticPlain encoder false call k indexed reading = .ok [] := by
  rw [semanticPlain, Bool.not_false, Bool.or_true]
  rfl

theorem semanticPlain_available {call : Call γ} (hblank : ¬blank call.query = true) (k : Nat)
    (indexed reading : Except PyError Entries) : semanticPlain encoder true call k indexed reading =
      (indexed.bind (rowsOf encoder)).bind fun rows => reading.map (semanticHits encoder call k rows) := by
  rw [semanticPlain, Bool.eq_false_iff.mpr hblank]
  rfl

theorem semanticServed_searchSemantic (b : Backend) (h : Inv encoder seen kb) (hdisk : disk ∈ seen) (call : Call γ) (k : Nat) :
    Inv encoder seen (searchSemantic encoder disk b call k kb).2 ∧
      SemanticServed encoder disk b kb call k (searchSemantic encoder disk b call k kb) := by
  unfold searchSemantic
  by_cases hblank : blank call.query = true
  · rw [if_pos hblank]
    refine ⟨h, (load disk kb).1, .inl rfl, decide (kb.model = .loaded), of_decide_eq_true,
      fun hloaded _ _ => decide_eq_true hloaded, ?_⟩
    rw [semanticPlain, hblank]
    rfl
  rw [if_neg hblank]
  dsimp only
  obtain ⟨hinv, hload, hcases⟩ := ensured_ensureEmbeddings b h hdisk
  obtain ⟨htrue, rows, indexed, hrows, hindexed, hread⟩ | ⟨hfalse, hempty⟩ | ⟨e, herror, hloaded, hread⟩ := hcases
  · rw [htrue]
    dsimp only
    have hthere := hinv.loaded (hrows.symm ▸ rfl)
    have hgot : getModel b (ensureEmbeddings encoder disk b kb).2 = (true, (ensureEmbeddings encoder disk b kb).2) := by
      rw [getModel, hthere]
    rw [hgot]
    dsimp only
    by_cases hencodes : b.encodesQuery = true
    · have hgo : ¬(!(true && b.encodesQuery)) = true := by simp [hencodes]
      rw [if_neg hgo]
      refine ⟨hinv.load hdisk, indexed, hindexed, true, fun _ => (load_model disk _).trans hthere, fun _ _ _ => rfl, ?_⟩
      rw [semanticPlain_available hblank, hread, hload, hrows]
      rfl
    · have hstop : (!(true && b.encodesQuery)) = true := by simp [hencodes]
      rw [if_pos hstop]
      exact ⟨hinv, indexed, hindexed, false, nofun, fun _ _ h => absurd h hencodes,
        (semanticPlain_unavailable call k _ _).symm⟩
  · rw [hfalse]
    dsimp only
    by_cases hthere : (ensureEmbeddings encoder disk b kb).2.model = .loaded ∧ b.encodesEntries = true
    · have hnone := hempty hthere.1 hthere.2
      refine ⟨hinv, .ok [], .inl hnone.symm, true, fun _ => hthere.1, fun _ _ _ => rfl, ?_⟩
      rw [semanticPlain_available hblank, hnone]
      exact congrArg Except.ok (semanticHits_nil call k []).symm
    · exact ⟨hinv, (load disk kb).1, .inl rfl, false, nofun, fun hm he _ => absurd ⟨hm, he⟩ hthere,
        (semanticPlain_unavailable call k _ _).symm⟩
  · rw [herror]
    dsimp only
    refine ⟨hinv, (load disk kb).1, .inl rfl, true, fun _ => hloaded, fun _ _ _ => rfl, ?_⟩
    rw [semanticPlain_available hblank, hread]
    rfl

end Answers

section Runs

variable {Vec γ : Type} {lower : Str → Str} {encoder : Encoder Vec γ} {seen : List Disk} {disk : Disk}
  {b : Backend} {kb : Kb Vec}

theorem searchKeyword_eq (lower : Str → Str) (disk : Disk) (h : ∃ d, kb.mtimes = newMtimes d) (call : Call γ) (k minScore : Nat) :
    (searchKeyword lower disk call k minScore kb).1 = keywordPlain lower call k minScore (load disk kb).1 ∧
      (load disk (searchKeyword lower disk call k minScore kb).2).1 = (load disk kb).1 ∧
      ∀ hits, (searchKeyword lower disk call k minScore kb).1 = .ok hits → wordless lower call.query = false →
        ∃ entries, (load disk kb).1 = .ok entries ∧ (searchKeyword lower disk call k minScore kb).2.entries = entries := by
  unfold searchKeyword keywordPlain
  by_cases hwordless : wordless lower call.query = true
  · rw [if_pos hwordless, if_pos hwordless]
    exact ⟨rfl, rfl, fun _ _ hwords => absurd hwordless (Bool.eq_false_iff.mp hwords)⟩
  · rw [if_neg hwordless, if_neg hwordless]
    refine ⟨rfl, load_load h, fun hits hhits _ => ?_⟩
    dsimp only at hhits ⊢
    cases hload : (load disk kb).1 with
    | ok entries => exact ⟨entries, rfl, entries_load hload⟩
    | error e =>
      rw [hload] at hhits
      cases hhits

theorem Inv.searchKeyword (h : Inv encoder seen kb) (hdisk : disk ∈ seen) (call : Call γ) (k minScore : Nat) :
    Inv encoder seen (searchKeyword lower disk call k minScore kb).2 := by
  unfold Search.searchKeyword
  split_ifs
  · exact h
  · exact h.load hdisk

variable [LinearOrder γ]

/-- The answer is that of a plain search, with the rows of the entries of now where these are looked at first. -/
def HybridServed (lower : Str → Str) (encoder : Encoder Vec γ) (disk : Disk) (b : Backend) (kb : Kb Vec) (call : Call γ)
    (r : Except PyError (List Hit) × Kb Vec) : Prop :=
  ∃ indexed, Indexed disk kb indexed ∧ (wordless lower call.query = false → indexed = (load disk kb).1) ∧
    ∃ available : Bool, (available = true → r.2.model = .loaded) ∧
      (r.2.model = .loaded → b.encodesEntries = true → b.encodesQuery = true → available = true) ∧
      r.1 = plain lower encoder available indexed (load disk kb).1 (.hybrid call)

theorem hybridServed_searchHybrid (lower : Str → Str) (b : Backend) (h : Inv encoder seen kb) (hdisk : disk ∈ seen) (call : Call γ) :
    Inv encoder seen (searchHybrid lower encoder disk b call kb).2 ∧
      HybridServed lower encoder disk b kb call (searchHybrid lower encoder disk b call kb) := by
  unfold searchHybrid
  dsimp only
  obtain ⟨hkw, hload, hentries⟩ := searchKeyword_eq lower disk h.stamped call (max call.k 5) 3
  have hinv : Inv encoder seen (searchKeyword lower disk call (max call.k 5) 3 kb).2 := h.searchKeyword hdisk _ _ _
  cases hresult : (searchKeyword lower disk call (max call.k 5) 3 kb).1 with
  | error e =>
    refine ⟨hinv, (load disk kb).1, .inl rfl, fun _ => rfl,
      decide ((searchKeyword lower disk call (max call.k 5) 3 kb).2.model = .loaded), of_decide_eq_true,
      fun hloaded _ _ => decide_eq_true hloaded, ?_⟩
    rw [plain, ← hkw, hresult]
    rfl
  | ok hits =>
    dsimp only
    obtain ⟨hinv', indexed, hindexed, available, hmodel, hall, hsem⟩ :=
      semanticServed_searchSemantic b hinv hdisk call (max call.k 5)
    rw [hload] at hsem
    have hplain : ∀ indexed, plain lower encoder available indexed (load disk kb).1 (.hybrid call) =
        (semanticPlain encoder available call (max call.k 5) indexed (load disk kb).1).map fun sem =>
          blend hits sem call.k := by
      intro indexed
      rw [plain, ← hkw, hresult]
      rfl
    have hwords : wordless lower call.query = false → indexed = (load disk kb).1 := by
      intro hwords
      obtain ⟨entries, hreading, hsame⟩ := hentries hits hresult hwords
      obtain hindexed | ⟨-, hindexed⟩ := hindexed
      · rw [hindexed, hload]
      · rw [hindexed, hsame, hreading]
    refine ⟨hinv', indexed, ?_, hwords, available, hmodel, hall, ?_⟩
    · by_cases hwordless : wordless lower call.query = true
      · have hkept : (searchKeyword lower disk call (max call.k 5) 3 kb).2 = kb := by
          rw [searchKeyword, if_pos hwordless]
        rw [hkept] at hindexed
        exact hindexed
      · exact .inl (hwords (Bool.eq_false_iff.mpr hwordless))
    · rw [hplain, hsem]

variable {s t : State Vec γ}

structure Good (lower : Str → Str) (encoder : Encoder Vec γ) (s : State Vec γ) : Prop where
  here : s.disk ∈ s.seen
  inv : Inv encoder s.seen s.kb
  served : ∀ a, s.answered = some a → Served lower encoder s a

theorem Good.search (h : Good lower encoder s) (request : Request γ) (b : Backend) :
    Good lower encoder { s with
      kb := (serve lower encoder s.disk b s.kb request).2
      answered := some ⟨request, b, (serve lower encoder s.disk b s.kb request).1⟩ } := by
  obtain ⟨now, hnow, hmtimes, hread⟩ := h.inv.exists_read h.here
  cases request with
  | keyword call =>
    obtain ⟨hkw, -, -⟩ := searchKeyword_eq lower s.disk h.inv.stamped call call.k call.minScore
    refine ⟨h.here, h.inv.searchKeyword h.here _ _ _, fun a ha => ?_⟩
    obtain rfl := Option.some.inj ha
    refine ⟨now, hnow, now, hnow, hmtimes, fun _ => rfl, decide (_ = ModelState.loaded), of_decide_eq_true,
      fun hloaded _ _ => decide_eq_true hloaded, ?_⟩
    rw [hread]
    exact hkw
  | semantic call =>
    obtain ⟨hinv, indexed, hindexed, available, hmodel, hall, hsem⟩ :=
      semanticServed_searchSemantic b h.inv h.here call call.k
    refine ⟨h.here, hinv, fun a ha => ?_⟩
    obtain rfl := Option.some.inj ha
    obtain ⟨d, hd, hdread⟩ := h.inv.exists_indexed h.here hindexed
    refine ⟨now, hnow, d, hd, hmtimes, nofun, available, hmodel, hall, ?_⟩
    rw [hread, hdread]
    exact hsem
  | hybrid call =>
    obtain ⟨hinv, indexed, hindexed, hwords, available, hmodel, hall, hhybrid⟩ :=
      hybridServed_searchHybrid lower b h.inv h.here call
    refine ⟨h.here, hinv, fun a ha => ?_⟩
    obtain rfl := Option.some.inj ha
    by_cases hwordless : wordless lower call.query = true
    · obtain ⟨d, hd, hdread⟩ := h.inv.exists_indexed h.here hindexed
      refine ⟨now, hnow, d, hd, hmtimes, fun hfirst => ?_, available, hmodel, hall, ?_⟩
      · rw [Request.readsFirst, hwordless] at hfirst
        cases hfirst
      · rw [hread, hdread]
        exact hhybrid
    · have hsame := hwords (Bool.eq_false_iff.mpr hwordless)
      refine ⟨now, hnow, now, hnow, hmtimes, fun _ => rfl, available, hmodel, hall, ?_⟩
      rw [hread, ← hsame]
      rw [← hsame] at hhybrid
      exact hhybrid

theorem Good.step (h : Good lower encoder s) {a : Action γ} (hstep : step lower encoder s a = some t) :
    Good lower encoder t := by
  cases a with
  | write disk =>
    cases hstep
    exact ⟨List.mem_cons_self, h.inv.mono (List.subset_cons_self _ _), nofun⟩
  | clear =>
    cases hstep
    exact ⟨h.here, inv_empty _, nofun⟩
  | search request b =>
    cases hstep
    exact h.search request b

theorem good_init (disk : Disk) : Good lower encoder (init disk) := by
  refine ⟨List.mem_cons_self, inv_empty _, fun a ha => ?_⟩
  cases ha

end Runs

section Hits

variable {Vec γ : Type} (lower : Str → Str)

/-- The entry that a hit shows, of the kind that was asked for. -/
def Current (entries : Entries) (kind : Option Str) (hit : Hit) : Prop :=
  ∃ e ∈ entries, otherKind kind e.2 = false ∧ ∃ score, hit = hitOf hit.mode score e

/-- The entries of the kind that score high enough, each once, with their scores. -/
structure Scored (call : Call γ) (minScore : Nat) (entries : Entries) (scored : List (Nat × Str × Dict)) : Prop where
  once : (scored.map fun h => h.2.1).Nodup
  mem : ∀ score e, (score, e) ∈ scored ↔ e ∈ entries ∧ otherKind call.kind e.2 = false ∧
    scoreOf lower (termsOf lower call.query) e.2 = .ok score ∧ minScore ≤ score

/-- The hits are the best of all entries that score high enough. -/
def KeywordBest (call : Call γ) (k minScore : Nat) (entries : Entries) (hits : List Hit) : Prop :=
  ∃ scored chosen, Scored lower call minScore entries scored ∧ Best better scored k chosen ∧
    hits = chosen.map fun h => hitOf .keyword (.int h.1) h.2

variable (encoder : Encoder Vec γ)

/-- The entries of the kind with a row that is close enough, each once, with how close. The rows are those of the
entries `old`. -/
structure Near [LinearOrder γ] (call : Call γ) (old entries : Entries) (scored : List (γ × Str × Dict)) : Prop where
  once : (scored.map fun h => h.2.1).Nodup
  mem : ∀ sim e, (sim, e) ∈ scored ↔ e ∈ entries ∧ otherKind call.kind e.2 = false ∧
    ∃ d text, (e.1, d) ∈ old ∧ entryText d = .ok text ∧
      sim = encoder.dot (encoder.embed text) (encoder.embed call.query) ∧ call.minSimilarity ≤ sim

/-- The hits are the closest of all entries that are close enough. -/
def SemanticBest [LinearOrder γ] (call : Call γ) (k : Nat) (old entries : Entries) (hits : List Hit) : Prop :=
  ∃ scored chosen, Near encoder call old entries scored ∧ Best better scored k chosen ∧
    hits = chosen.map fun h => hitOf .semantic (encoder.rounded h.1) h.2

def ByKeyword (call : Call γ) (k minScore : Nat) (reading : Except PyError Entries) (hits : List Hit) : Prop :=
  if wordless lower call.query = true then hits = []
  else ∃ entries, reading = .ok entries ∧ KeywordBest lower call k minScore entries hits

/-- What is found by meaning, where the embedding model is available or not. -/
def ByMeaning [LinearOrder γ] (available : Bool) (call : Call γ) (k : Nat) (indexed reading : Except PyError Entries)
    (hits : List Hit) : Prop :=
  if blank call.query = true ∨ available = false then hits = []
  else ∃ old entries, indexed = .ok old ∧ reading = .ok entries ∧ SemanticBest encoder call k old entries hits

/-- What a search shows: the ranking by keyword, that by meaning, or the two blended. -/
def Ranked [LinearOrder γ] (available : Bool) (indexed reading : Except PyError Entries) (hits : List Hit) :
    Request γ → Prop
  | .keyword call => ByKeyword lower call call.k call.minScore reading hits
  | .semantic call => ByMeaning encoder available call call.k indexed reading hits
  | .hybrid call => ∃ kw sem, ByKeyword lower call (max call.k 5) 3 reading kw ∧
      ByMeaning encoder available call (max call.k 5) indexed reading sem ∧ Blended kw sem call.k hits

def Request.call : Request γ → Call γ
  | .keyword call => call
  | .semantic call => call
  | .hybrid call => call

/-- Different entries of the kind that was asked for, not more than there is room for. -/
structure Shown (reading : Except PyError Entries) (call : Call γ) (hits : List Hit) : Prop where
  distinct : (hits.map Hit.id).Nodup
  count : hits.length ≤ call.k
  current : ∀ hit ∈ hits, ∃ entries, reading = .ok entries ∧ Current entries call.kind hit

section Keyword

variable {lower : Str → Str} {entries : Entries} {terms : List Str} {kind : Option Str} {minScore : Nat}

instance [LinearOrder γ] : Std.Total (α := γ × Str × Dict) better := ⟨higher_total fun e e' => codeLe_total e.1 e'.1⟩

theorem ids_trans (e e' e'' : Str × Dict) (h : codeLe e.1 e'.1) (h' : codeLe e'.1 e''.1) : codeLe e.1 e''.1 :=
  codeLe_trans h h'

instance [LinearOrder γ] : IsTrans (γ × Str × Dict) better := ⟨fun _ _ _ => higher_trans ids_trans⟩

theorem scoreEntry_eq_some {e : Str × Dict} {h : Nat × Str × Dict} :
    scoreEntry lower terms kind minScore e = .ok (some h) ↔
      h.2 = e ∧ otherKind kind e.2 = false ∧ scoreOf lower terms e.2 = .ok h.1 ∧ minScore ≤ h.1 := by
  unfold scoreEntry
  cases hkind : otherKind kind e.2 with
  | true => simp
  | false =>
    cases hscore : scoreOf lower terms e.2 with
    | error e => simp [Except.map]
    | ok score =>
      by_cases hlow : score < minScore
      · simp only [Except.map, Bool.false_eq_true, if_false, if_pos hlow]
        constructor
        · intro h
          cases h
        · rintro ⟨-, -, heq, hle⟩
          obtain rfl := Except.ok.inj heq
          omega
      · simp only [Except.map, Bool.false_eq_true, if_false, if_neg hlow, Except.ok.injEq, Option.some.injEq]
        constructor
        · rintro rfl
          exact ⟨rfl, trivial, rfl, Nat.le_of_not_lt hlow⟩
        · rintro ⟨rfl, -, rfl, -⟩
          rfl

theorem ids_sublist {ys : List (Option (Nat × Str × Dict))}
    (h : List.Forall₂ (fun e y => scoreEntry lower terms kind minScore e = .ok y) entries ys) :
    ((ys.filterMap id).map fun h => h.2.1).Sublist (entries.map Prod.fst) := by
  induction h with
  | nil => exact .slnil
  | @cons e y entries ys hy _ ih =>
    cases y with
    | none => exact ih.cons e.1
    | some h =>
      obtain ⟨rfl, -⟩ := scoreEntry_eq_some.mp hy
      exact ih.cons_cons h.2.1

theorem keywordBest_keywordHits {call : Call γ} {k : Nat} {hits : List Hit} (hwell : WellFormed entries)
    (h : keywordHits lower (termsOf lower call.query) call.kind k minScore entries = .ok hits) :
    KeywordBest lower call k minScore entries hits := by
  unfold keywordHits at h
  cases hys : entries.mapM (scoreEntry lower (termsOf lower call.query) call.kind minScore) with
  | error e =>
    rw [hys] at h
    cases h
  | ok ys =>
    rw [hys] at h
    obtain rfl := Except.ok.inj h
    refine ⟨ys.filterMap id, best better k (ys.filterMap id), ?_, best_best _ _ _, rfl⟩
    constructor
    · exact hwell.distinct.sublist (ids_sublist (Lib.Fallible.forall₂_of_mapM_eq_ok hys))
    · intro score e
      rw [List.mem_filterMap]
      constructor
      · rintro ⟨y, hy, rfl⟩
        obtain ⟨e', he', hscore⟩ := Lib.Fallible.exists_of_mapM_eq_ok hys hy
        obtain ⟨rfl, hrest⟩ := scoreEntry_eq_some.mp hscore
        exact ⟨he', hrest⟩
      · rintro ⟨he, hrest⟩
        obtain ⟨y, hy, hscore⟩ := Lib.Fallible.mem_of_mapM_eq_ok hys he
        have hsome : scoreEntry lower (termsOf lower call.query) call.kind minScore e = .ok (some (score, e)) :=
          scoreEntry_eq_some.mpr ⟨rfl, hrest⟩
        exact ⟨y, hy, Except.ok.inj (hscore.symm.trans hsome)⟩

theorem current_of_keywordBest {call : Call γ} {k : Nat} {hits : List Hit} {hit : Hit}
    (h : KeywordBest lower call k minScore entries hits) (hhit : hit ∈ hits) : Current entries call.kind hit := by
  obtain ⟨scored, chosen, hscored, hbest, rfl⟩ := h
  obtain ⟨x, hx, rfl⟩ := List.mem_map.mp hhit
  obtain ⟨he, hkind, -⟩ := (hscored.mem x.1 x.2).mp (hbest.among.subset hx)
  exact ⟨x.2, he, hkind, .int x.1, rfl⟩

theorem distinct_of_keywordBest {call : Call γ} {k : Nat} {hits : List Hit}
    (h : KeywordBest lower call k minScore entries hits) : (hits.map Hit.id).Nodup ∧ hits.length ≤ k := by
  obtain ⟨scored, chosen, hscored, hbest, rfl⟩ := h
  constructor
  · rw [List.map_map]
    obtain ⟨xs, hperm, hsub⟩ := hbest.among
    exact ((hperm.map fun h => h.2.1).nodup_iff).mp (hscored.once.sublist (hsub.map _))
  · rw [List.length_map, hbest.count]
    exact Nat.min_le_left _ _

end Keyword

section Semantic

variable {encoder : Encoder Vec γ} {entries old : Entries} {call : Call γ} {k : Nat} {rows : List (Str × Vec)}

theorem rows_ids (h : rowsOf encoder old = .ok rows) :
    rows.map Prod.fst = (old.map Prod.fst).insertionSort fun i j => codeLe i j := by
  have hall := Lib.Fallible.forall₂_of_mapM_eq_ok h
  generalize (old.map Prod.fst).insertionSort (fun i j => codeLe i j) = ids at hall
  clear h
  induction hall with
  | nil => rfl
  | @cons id row ids rows hrow _ ih =>
    unfold rowOf at hrow
    cases htext : entryText ((lookup Prod.fst id old).elim [] Prod.snd) with
    | error e =>
      rw [htext] at hrow
      cases hrow
    | ok text =>
      rw [htext] at hrow
      obtain rfl := Except.ok.inj hrow
      rw [List.map_cons, ih]

theorem mem_rows (hold : WellFormed old) (h : rowsOf encoder old = .ok rows) {row : Str × Vec} :
    row ∈ rows ↔ ∃ d text, (row.1, d) ∈ old ∧ entryText d = .ok text ∧ row.2 = encoder.embed text := by
  have hrow {id : Str} {d : Dict} (hd : (id, d) ∈ old) :
      rowOf encoder old id = (entryText d).map fun text => (id, encoder.embed text) := by
    rw [rowOf, show lookup Prod.fst id old = some (id, d) from lookup_mem hold.distinct hd]
    rfl
  have hids {id : Str} : id ∈ (old.map Prod.fst).insertionSort (fun i j => codeLe i j) ↔ ∃ d, (id, d) ∈ old := by
    rw [(List.perm_insertionSort _ _).mem_iff]
    simp
  constructor
  · intro hmem
    obtain ⟨id, hid, hread⟩ := Lib.Fallible.exists_of_mapM_eq_ok h hmem
    obtain ⟨d, hd⟩ := hids.mp hid
    rw [hrow hd] at hread
    cases htext : entryText d with
    | error e =>
      rw [htext] at hread
      cases hread
    | ok text =>
      rw [htext] at hread
      obtain rfl := Except.ok.inj hread
      exact ⟨d, text, hd, htext, rfl⟩
  · rintro ⟨d, text, hd, htext, hvec⟩
    obtain ⟨row', hmem, hread⟩ := Lib.Fallible.mem_of_mapM_eq_ok h (hids.mpr ⟨d, hd⟩)
    rw [hrow hd, htext] at hread
    obtain rfl : (row.1, encoder.embed text) = row' := Except.ok.inj hread
    rwa [← hvec] at hmem

variable [LinearOrder γ]

theorem not_isEmpty_of_mem {e : Str × Dict} (h : WellFormed entries) (he : e ∈ entries) : e.2.isEmpty = false := by
  rw [List.isEmpty_eq_false_iff]
  intro hnil
  have hnamed := h.named e he
  rw [hnil] at hnamed
  cases hnamed

theorem scoreRow_eq_some (hwell : WellFormed entries) {row : Str × Vec} {h : γ × Str × Dict} :
    scoreRow encoder call entries row = some h ↔ h.2 ∈ entries ∧ h.2.1 = row.1 ∧ otherKind call.kind h.2.2 = false ∧
      h.1 = encoder.dot row.2 (encoder.embed call.query) ∧ call.minSimilarity ≤ h.1 := by
  obtain ⟨sim, e⟩ := h
  unfold scoreRow
  dsimp only
  constructor
  · intro hrow
    split_ifs at hrow with hlow
    cases hlookup : lookup Prod.fst row.1 entries with
    | none =>
      rw [hlookup] at hrow
      cases hrow
    | some e' =>
      rw [hlookup] at hrow
      dsimp only at hrow
      split_ifs at hrow with hskip
      cases hrow
      rw [Bool.not_eq_true, Bool.or_eq_false_iff] at hskip
      exact ⟨(lookup_some hlookup).1, (lookup_some hlookup).2, hskip.2, rfl, not_lt.mp hlow⟩
  · rintro ⟨he, hid, hkind, rfl, hle⟩
    rw [if_neg (not_lt.mpr hle), ← hid, lookup_mem hwell.distinct he]
    dsimp only
    rw [not_isEmpty_of_mem hwell he, hkind]
    rfl

theorem scored_ids (hwell : WellFormed entries) (rows : List (Str × Vec)) :
    ((rows.filterMap (scoreRow encoder call entries)).map fun h => h.2.1).Sublist (rows.map Prod.fst) := by
  induction rows with
  | nil => exact .slnil
  | cons row rows ih =>
    cases hrow : scoreRow encoder call entries row with
    | none =>
      rw [List.filterMap_cons_none hrow]
      exact ih.cons row.1
    | some x =>
      rw [List.filterMap_cons_some hrow, List.map_cons, ((scoreRow_eq_some hwell).mp hrow).2.1]
      exact ih.cons_cons row.1

theorem near_rows (hold : WellFormed old) (hwell : WellFormed entries) (h : rowsOf encoder old = .ok rows) :
    Near encoder call old entries (rows.filterMap (scoreRow encoder call entries)) where
  once := by
    have hids : (rows.map Prod.fst).Nodup := by
      rw [rows_ids h]
      exact (List.perm_insertionSort _ _).nodup_iff.mpr hold.distinct
    exact hids.sublist (scored_ids hwell rows)
  mem sim e := by
    rw [List.mem_filterMap]
    constructor
    · rintro ⟨row, hrow, hscored⟩
      obtain ⟨he, hid, hkind, hsim, hle⟩ := (scoreRow_eq_some hwell).mp hscored
      obtain ⟨d, text, hd, htext, hvec⟩ := (mem_rows hold h).mp hrow
      refine ⟨he, hkind, d, text, ?_, htext, ?_, hle⟩
      · rw [show e.1 = row.1 from hid]
        exact hd
      · rw [← hvec]
        exact hsim
    · rintro ⟨he, hkind, d, text, hd, htext, hsim, hle⟩
      have hrow : (e.1, encoder.embed text) ∈ rows := (mem_rows hold h).mpr ⟨d, text, hd, htext, rfl⟩
      exact ⟨_, hrow, (scoreRow_eq_some hwell).mpr ⟨he, rfl, hkind, hsim, hle⟩⟩

theorem semanticBest_semanticHits (hold : WellFormed old) (hwell : WellFormed entries)
    (h : rowsOf encoder old = .ok rows) (k : Nat) :
    SemanticBest encoder call k old entries (semanticHits encoder call k rows entries) :=
  ⟨_, _, near_rows hold hwell h, best_best better _ k, rfl⟩

theorem current_of_semanticBest {hits : List Hit} {hit : Hit} (h : SemanticBest encoder call k old entries hits)
    (hhit : hit ∈ hits) : Current entries call.kind hit := by
  obtain ⟨scored, chosen, hnear, hbest, rfl⟩ := h
  obtain ⟨x, hx, rfl⟩ := List.mem_map.mp hhit
  obtain ⟨he, hkind, -⟩ := (hnear.mem x.1 x.2).mp (hbest.among.subset hx)
  exact ⟨x.2, he, hkind, encoder.rounded x.1, rfl⟩

theorem distinct_of_semanticBest {hits : List Hit} (h : SemanticBest encoder call k old entries hits) :
    (hits.map Hit.id).Nodup ∧ hits.length ≤ k := by
  obtain ⟨scored, chosen, hnear, hbest, rfl⟩ := h
  constructor
  · rw [List.map_map]
    obtain ⟨xs, hperm, hsub⟩ := hbest.among
    exact ((hperm.map fun h => h.2.1).nodup_iff).mp (hnear.once.sublist (hsub.map _))
  · rw [List.length_map, hbest.count]
    exact Nat.min_le_left _ _

end Semantic

end Hits

section Blending

variable {kw sem : List Hit} {k : Nat}

theorem blend_eq (kw sem : List Hit) (k : Nat) :
    blend kw sem k = (Lib.Placing.placeAll idOf [] (slots kw sem)).take k := by
  unfold blend
  rw [searchHybrid_eq (Nat.lt_succ_self _), Option.getD_some]

theorem blended_blend (kw sem : List Hit) (k : Nat) : Blended kw sem k (blend kw sem k) := by
  rw [blend_eq]
  exact blended_slots kw sem k

theorem mem_blend {hit : Hit} (h : hit ∈ blend kw sem k) : ∃ found ∈ kw ++ sem, hit = { found with mode := hit.mode } := by
  rw [blend_eq] at h
  have hslot := Lib.Placing.mem_of_mem_placeAll (List.mem_of_mem_take h)
  obtain h | h := List.mem_append.mp ((Lib.Placing.interleave_perm _ _).subset hslot)
  · obtain ⟨found, hfound, rfl⟩ := List.mem_map.mp h
    exact ⟨found, List.mem_append_left _ hfound, rfl⟩
  · obtain ⟨found, hfound, rfl⟩ := List.mem_map.mp h
    exact ⟨found, List.mem_append_right _ hfound, rfl⟩

theorem Current.of_mode {entries : Entries} {kind : Option Str} {found hit : Hit} (h : Current entries kind found)
    (hhit : hit = { found with mode := hit.mode }) : Current entries kind hit := by
  obtain ⟨e, he, hkind, score, hfound⟩ := h
  refine ⟨e, he, hkind, score, ?_⟩
  rw [hhit, hfound]
  rfl

end Blending

section Found

variable {Vec γ : Type} {lower : Str → Str} {encoder : Encoder Vec γ} {call : Call γ} {k minScore : Nat}
  {reading indexed : Except PyError Entries} {hits : List Hit} {available : Bool}

theorem keywordPlain_cases (h : keywordPlain lower call k minScore reading = .ok hits) :
    (wordless lower call.query = true ∧ hits = []) ∨ (wordless lower call.query = false ∧ ∃ entries, reading = .ok entries ∧
      keywordHits lower (termsOf lower call.query) call.kind k minScore entries = .ok hits) := by
  unfold keywordPlain at h
  cases hwordless : wordless lower call.query with
  | true =>
    rw [hwordless, if_pos rfl] at h
    exact .inl ⟨rfl, (Except.ok.inj h).symm⟩
  | false =>
    rw [hwordless] at h
    exact .inr ⟨rfl, Lib.Fallible.bind_eq_ok.mp h⟩

theorem byKeyword_plain (hreading : ∀ entries, reading = .ok entries → WellFormed entries)
    (h : keywordPlain lower call k minScore reading = .ok hits) : ByKeyword lower call k minScore reading hits := by
  unfold ByKeyword
  obtain ⟨hwordless, rfl⟩ | ⟨hwords, entries, hread, hkeyword⟩ := keywordPlain_cases h
  · rw [if_pos hwordless]
  · rw [if_neg (Bool.eq_false_iff.mp hwords)]
    exact ⟨entries, hread, keywordBest_keywordHits (hreading entries hread) hkeyword⟩

theorem ByKeyword.shown (h : ByKeyword lower call k minScore reading hits) : (hits.map Hit.id).Nodup ∧ hits.length ≤ k ∧
    ∀ hit ∈ hits, ∃ entries, reading = .ok entries ∧ Current entries call.kind hit := by
  unfold ByKeyword at h
  split_ifs at h
  · subst h
    exact ⟨List.nodup_nil, Nat.zero_le _, List.forall_mem_nil _⟩
  · obtain ⟨entries, hread, hbest⟩ := h
    obtain ⟨hdistinct, hcount⟩ := distinct_of_keywordBest hbest
    exact ⟨hdistinct, hcount, fun _ hhit => ⟨entries, hread, current_of_keywordBest hbest hhit⟩⟩

variable [LinearOrder γ]

theorem byMeaning_plain (hindexed : ∀ entries, indexed = .ok entries → WellFormed entries)
    (hreading : ∀ entries, reading = .ok entries → WellFormed entries)
    (h : semanticPlain encoder available call k indexed reading = .ok hits) :
    ByMeaning encoder available call k indexed reading hits := by
  unfold ByMeaning
  unfold semanticPlain at h
  simp only [Bool.or_eq_true, Bool.not_eq_true'] at h
  split_ifs at h ⊢
  · exact (Except.ok.inj h).symm
  · obtain ⟨rows, hrows, h⟩ := Lib.Fallible.bind_eq_ok.mp h
    obtain ⟨old, hold, hrows⟩ := Lib.Fallible.bind_eq_ok.mp hrows
    cases hread : reading with
    | error e =>
      rw [hread] at h
      cases h
    | ok entries =>
      rw [hread] at h
      obtain rfl := Except.ok.inj h
      exact ⟨old, entries, hold, rfl, semanticBest_semanticHits (hindexed old hold) (hreading entries hread) hrows k⟩

theorem ByMeaning.shown (h : ByMeaning encoder available call k indexed reading hits) :
    (hits.map Hit.id).Nodup ∧ hits.length ≤ k ∧
      ∀ hit ∈ hits, ∃ entries, reading = .ok entries ∧ Current entries call.kind hit := by
  unfold ByMeaning at h
  split_ifs at h
  · subst h
    exact ⟨List.nodup_nil, Nat.zero_le _, List.forall_mem_nil _⟩
  · obtain ⟨old, entries, -, hread, hbest⟩ := h
    obtain ⟨hdistinct, hcount⟩ := distinct_of_semanticBest hbest
    exact ⟨hdistinct, hcount, fun _ hhit => ⟨entries, hread, current_of_semanticBest hbest hhit⟩⟩

theorem ranked_plain {request : Request γ} (hindexed : ∀ entries, indexed = .ok entries → WellFormed entries)
    (hreading : ∀ entries, reading = .ok entries → WellFormed entries)
    (h : plain lower encoder available indexed reading request = .ok hits) :
    Ranked lower encoder available indexed reading hits request ∧ Shown reading request.call hits := by
  cases request with
  | keyword call =>
    have hkeyword := byKeyword_plain hreading h
    obtain ⟨hdistinct, hcount, hcurrent⟩ := hkeyword.shown
    exact ⟨hkeyword, hdistinct, hcount, hcurrent⟩
  | semantic call =>
    have hmeaning := byMeaning_plain hindexed hreading h
    obtain ⟨hdistinct, hcount, hcurrent⟩ := hmeaning.shown
    exact ⟨hmeaning, hdistinct, hcount, hcurrent⟩
  | hybrid call =>
    obtain ⟨kw, hkw, h⟩ := Lib.Fallible.bind_eq_ok.mp h
    cases hsem : semanticPlain encoder available call (max call.k 5) indexed reading with
    | error e =>
      rw [hsem] at h
      cases h
    | ok sem =>
      rw [hsem] at h
      obtain rfl := Except.ok.inj h
      have hkeyword := byKeyword_plain hreading hkw
      have hmeaning := byMeaning_plain hindexed hreading hsem
      have hblended := blended_blend kw sem call.k
      refine ⟨⟨kw, sem, hkeyword, hmeaning, hblended⟩, hblended.distinct, ?_, fun hit hhit => ?_⟩
      · rw [hblended.count]
        exact Nat.min_le_left _ _
      · obtain ⟨found, hmem, hmode⟩ := mem_blend hhit
        have hfound : ∃ entries, reading = .ok entries ∧ Current entries call.kind found :=
          (List.mem_append.mp hmem).elim (hkeyword.shown.2.2 found) (hmeaning.shown.2.2 found)
        obtain ⟨entries, hread, hcurrent⟩ := hfound
        exact ⟨entries, hread, hcurrent.of_mode hmode⟩

end Found

section Results

variable {Vec γ : Type} [LinearOrder γ]

/-- However the files change, the caches are cleared and searches follow each other, every search is answered as one
that keeps nothing. -/
theorem searches_served (lower : Str → Str) (encoder : Encoder Vec γ) (disk : Disk) (as : List (Action γ)) :
    Always (step lower encoder) (fun s => ∀ a, s.answered = some a → Served lower encoder s a) (init disk) as :=
  (always_of_step (fun _ _ _ h hstep => Good.step h hstep) (good_init disk) as).mono fun _ h => h.served

/-- Whatever a search shows are different entries of files with the modification times of now, of the kind that was
asked for and not more than there is room for: by keyword the best of them, by meaning the closest, by both the two
rankings blended. -/
theorem searches_found (lower : Str → Str) (encoder : Encoder Vec γ) (disk : Disk) (as : List (Action γ)) :
    Always (step lower encoder) (fun s => ∀ a hits, s.answered = some a → a.result = .ok hits →
      ∃ now ∈ s.seen, ∃ indexed ∈ s.seen, newMtimes now = newMtimes s.disk ∧
        (a.request.readsFirst lower = true → indexed = now) ∧ ∃ available : Bool,
          (available = true → s.kb.model = .loaded) ∧
          (s.kb.model = .loaded → a.backend.encodesEntries = true → a.backend.encodesQuery = true →
            available = true) ∧
          Ranked lower encoder available (readEntries indexed) (readEntries now) hits a.request ∧
          Shown (readEntries now) a.request.call hits) (init disk) as := by
  refine (always_of_step (fun _ _ _ h hstep => Good.step h hstep) (good_init disk) as).mono ?_
  intro s h a hits ha hhits
  obtain ⟨now, hnow, indexed, hindexed, hmtimes, hfirst, available, hmodel, hall, hresult⟩ := h.served a ha
  exact ⟨now, hnow, indexed, hindexed, hmtimes, hfirst, available, hmodel, hall, ranked_plain (fun _ => wellFormed_readEntries)
    (fun _ => wellFormed_readEntries) (hresult.symm.trans hhits)⟩

end Results

end AlfredProcessing.Knowledge.Search
