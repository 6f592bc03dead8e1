import AlfredProcessing.Lib.Keyed
import AlfredProcessing.Lib.Regex
import AlfredProcessing.Security.SqlSafety

namespace AlfredProcessing.Registry.Detection

open Lib.Keyed Lib.Regex Extract.Cleaning Security.SqlSafety

section Model

/-- The `detection_hints` of a module KB, which may lack either list. -/
structure DetectionHints where
  targetDoctypeMatches : Option (List (List Char)) := none
  keywordHints : Option (List (List Char)) := none

structure ModuleKb where
  module : List Char
  detectionHints : Option DetectionHints := none

def ModuleKb.targetDoctypeMatches (kb : ModuleKb) : List (List Char) :=
  (kb.detectionHints.bind DetectionHints.targetDoctypeMatches).getD []

def ModuleKb.keywordHints (kb : ModuleKb) : List (List Char) :=
  (kb.detectionHints.bind DetectionHints.keywordHints).getD []

/-- `_by_module`, a dictionary in the order of its keys. -/
structure ModuleRegistry where
  byModule : List (List Char × ModuleKb)
  keys : (byModule.map Prod.fst).Nodup

/-- `kbs[data["module"]] = data`. -/
def register (kbs : List (List Char × ModuleKb)) (kb : ModuleKb) : List (List Char × ModuleKb) :=
  if (lookup Prod.fst kb.module kbs).isSome then modify Prod.fst kb.module (fun e => (e.1, kb)) kbs
  else kbs ++ [(kb.module, kb)]

theorem register_nodup {kbs : List (List Char × ModuleKb)} (h : (kbs.map Prod.fst).Nodup) (kb : ModuleKb) :
    ((register kbs kb).map Prod.fst).Nodup := by
  rw [register]
  split_ifs with hknown
  · rwa [keys_modify (f := fun e => (e.1, kb)) fun _ => rfl]
  · have hnew : ∀ e ∈ kbs, e.1 ≠ kb.module := lookup_none.mp (by simpa using hknown)
    rw [List.map_append, List.map_cons, List.map_nil]
    refine List.nodup_append.mpr ⟨h, List.nodup_singleton _, ?_⟩
    rintro m hm _ hlast rfl
    obtain ⟨e, he, rfl⟩ := List.mem_map.mp hm
    exact hnew e he (List.mem_singleton.mp hlast)

/-- `load`, given the KBs in the order of their files' names. -/
def ModuleRegistry.load (files : List ModuleKb) : ModuleRegistry where
  byModule := files.foldl register []
  keys := List.foldlRecOn files register (motive := fun kbs => (kbs.map Prod.fst).Nodup) List.nodup_nil
    fun _ h kb _ => register_nodup h kb

inductive Confidence where
  | high
  | medium
  deriving DecidableEq

def Confidence.text : Confidence → String
  | .high => "high"
  | .medium => "medium"

variable (p : Platform) (lower : List Char → List Char) (r : ModuleRegistry)

def ModuleRegistry.kbs : List ModuleKb := r.byModule.map Prod.snd

/-- `_by_target_doctype`, where a later module replaces an earlier one. -/
def ModuleRegistry.byTargetDoctype (doctype : List Char) : Option ModuleKb :=
  r.kbs.reverse.find? fun kb => kb.targetDoctypeMatches.contains doctype

/-- `for_doctype`. -/
def ModuleRegistry.forDoctype (doctype : Option (List Char)) : Option ModuleKb :=
  (doctype.filter (!·.isEmpty)).bind r.byTargetDoctype

/-- `\b`. -/
def wordBorder : Expr := .look fun prev cs => border p prev cs.head?

def keywordFound (low kw : List Char) : Bool :=
  found (.seqs [wordBorder p, .text (lower (strip kw)), wordBorder p]) low

/-- `(prompt or "").lower()`. -/
def lowered (prompt : Option (List Char)) : List Char := lower (prompt.getD [])

def ModuleKb.hit (low : List Char) (kb : ModuleKb) : Bool := kb.keywordHints.any (keywordFound p lower low)

/-- The loop of `detect`, which returns at the first hit. -/
def firstHit (low : List Char) : List ModuleKb → Option (List Char)
  | [] => none
  | kb :: kbs => if kb.hit p lower low then some kb.module else firstHit low kbs

/-- `detect`. -/
def ModuleRegistry.detect (prompt target : Option (List Char)) : Option (List Char) × Option Confidence :=
  match r.forDoctype target with
  | some kb => (some kb.module, some .high)
  | none =>
    match firstHit p lower (lowered lower prompt) r.kbs with
    | some module => (some module, some .medium)
    | none => (none, none)

/-- The loop of `detect_all`, which goes on behind a hit. -/
def collectHits (low : List Char) : List (List Char) → List ModuleKb → List (List Char)
  | hits, [] => hits
  | hits, kb :: kbs =>
    if kb.hit p lower low then
      if hits.contains kb.module then collectHits low hits kbs else collectHits low (hits ++ [kb.module]) kbs
    else collectHits low hits kbs

/-- `xs[:n]`, where a negative bound counts from the end. -/
def sliceTo {α : Type} : Int → List α → List α
  | .ofNat n, xs => xs.take n
  | .negSucc n, xs => xs.rdrop (n + 1)

structure Detected where
  primary : Option (List Char)
  confidence : String
  secondaries : List (List Char)
  deriving DecidableEq

/-- `detect_all`. -/
def ModuleRegistry.detectAll (prompt target : Option (List Char)) (maxSecondaries : Int) : Detected :=
  let hits := collectHits p lower (lowered lower prompt) [] r.kbs
  let (primary, confidence) : Option (List Char) × String :=
    match r.forDoctype target with
    | some kb => (some kb.module, "high")
    | none =>
      match hits with
      | module :: _ => (some module, "medium")
      | [] => (none, "")
  { primary, confidence, secondaries := sliceTo maxSecondaries (hits.filter fun m => some m ≠ primary) }

/-- The modules that have a keyword in the prompt, in the order of the registry, each once. -/
def ModuleRegistry.hitModules (prompt : Option (List Char)) : List (List Char) :=
  ((r.kbs.filter (ModuleKb.hit p lower (lowered lower prompt))).map ModuleKb.module).eraseDups

/-- What `detect_all` says next to `detect`. -/
structure Agrees (prompt target : Option (List Char)) (maxSecondaries : Int) : Prop where
  primary : (r.detectAll p lower prompt target maxSecondaries).primary = (r.detect p lower prompt target).1
  confidence : (r.detectAll p lower prompt target maxSecondaries).confidence =
    ((r.detect p lower prompt target).2.map Confidence.text).getD ""
  secondaries (n : Nat) : maxSecondaries = n → (r.detectAll p lower prompt target maxSecondaries).secondaries =
    ((r.hitModules p lower prompt).filter fun m => some m ≠ (r.detect p lower prompt target).1).take n
  negative (n : Nat) : maxSecondaries = Int.negSucc n →
    (r.detectAll p lower prompt target maxSecondaries).secondaries =
      ((r.hitModules p lower prompt).filter fun m => some m ≠ (r.detect p lower prompt target).1).rdrop (n + 1)

end Model

section Proof

variable {p : Platform} {lower : List Char → List Char} {low : List Char} {kbs : List ModuleKb}

theorem firstHit_eq_head : firstHit p lower low kbs =
    ((kbs.filter (ModuleKb.hit p lower low)).map ModuleKb.module).head? := by
  induction kbs with
  | nil => rfl
  | cons kb kbs ih =>
    rw [firstHit]
    split_ifs with hkb
    · rw [List.filter_cons_of_pos hkb]
      rfl
    · rw [List.filter_cons_of_neg hkb]
      exact ih

theorem removeAll_append_singleton {α : Type} [BEq α] [LawfulBEq α] (xs ys : List α) (y : α) :
    xs.removeAll (ys ++ [y]) = (xs.removeAll ys).filter fun x => !x == y := by
  rw [List.removeAll, List.removeAll, List.filter_filter]
  refine List.filter_congr fun x _ => ?_
  rw [List.elem_eq_contains, List.elem_eq_contains, List.contains_append, List.contains_cons, List.contains_nil,
    Bool.or_false, Bool.not_or, Bool.and_comm]

theorem eraseDups_of_nodup {α : Type} [BEq α] [LawfulBEq α] {xs : List α} (h : xs.Nodup) : xs.eraseDups = xs := by
  induction xs with
  | nil => rfl
  | cons x xs ih =>
    obtain ⟨hx, hxs⟩ := List.nodup_cons.mp h
    have hall : (xs.filter fun y => !y == x) = xs := by
      refine List.filter_eq_self.mpr fun y hy => ?_
      have hne : y ≠ x := fun heq => hx (heq ▸ hy)
      rw [beq_eq_false_iff_ne.mpr hne]
      rfl
    rw [List.eraseDups_cons, hall, ih hxs]

/-- The loop appends the modules it has not met, each once. -/
theorem collectHits_eq (hits : List (List Char)) : collectHits p lower low hits kbs =
    hits ++ (((kbs.filter (ModuleKb.hit p lower low)).map ModuleKb.module).removeAll hits).eraseDups := by
  induction kbs generalizing hits with
  | nil => simp [collectHits]
  | cons kb kbs ih =>
    rw [collectHits]
    split_ifs with hkb hknown
    · rw [ih, List.filter_cons_of_pos hkb, List.map_cons, List.cons_removeAll, if_neg (by simpa using hknown)]
    · rw [ih, List.filter_cons_of_pos hkb, List.map_cons, List.cons_removeAll, if_pos (by simpa using hknown),
        List.eraseDups_cons, removeAll_append_singleton, List.append_assoc, List.singleton_append]
    · rw [ih, List.filter_cons_of_neg hkb]

variable {r : ModuleRegistry} {prompt target : Option (List Char)}

theorem collectHits_kbs : collectHits p lower (lowered lower prompt) [] r.kbs = r.hitModules p lower prompt := by
  rw [collectHits_eq, List.nil_append, List.removeAll_nil, ModuleRegistry.hitModules]

theorem firstHit_kbs : firstHit p lower (lowered lower prompt) r.kbs = (r.hitModules p lower prompt).head? := by
  rw [firstHit_eq_head, ModuleRegistry.hitModules]
  cases (r.kbs.filter (ModuleKb.hit p lower (lowered lower prompt))).map ModuleKb.module with
  | nil => rfl
  | cons m ms => rw [List.eraseDups_cons, List.head?_cons, List.head?_cons]

theorem detectAll_eq (maxSecondaries : Int) : r.detectAll p lower prompt target maxSecondaries =
    { primary := (r.detect p lower prompt target).1
      confidence := ((r.detect p lower prompt target).2.map Confidence.text).getD ""
      secondaries := sliceTo maxSecondaries
        ((r.hitModules p lower prompt).filter fun m => some m ≠ (r.detect p lower prompt target).1) } := by
  rw [ModuleRegistry.detectAll, ModuleRegistry.detect, collectHits_kbs, firstHit_kbs]
  cases r.forDoctype target with
  | some kb => rfl
  | none =>
    cases r.hitModules p lower prompt with
    | nil => rfl
    | cons m ms => rfl

/-- Where every module is registered under its own name, no hit is met twice. -/
theorem hitModules_of_own (h : ∀ e ∈ r.byModule, e.1 = e.2.module) : r.hitModules p lower prompt =
    (r.kbs.filter (ModuleKb.hit p lower (lowered lower prompt))).map ModuleKb.module := by
  have hnames : r.kbs.map ModuleKb.module = r.byModule.map Prod.fst := by
    rw [ModuleRegistry.kbs, List.map_map]
    exact List.map_congr_left fun e he => (h e he).symm
  have hnodup : (r.kbs.map ModuleKb.module).Nodup := hnames ▸ r.keys
  exact eraseDups_of_nodup (hnodup.sublist (List.filter_sublist.map ModuleKb.module))

theorem load_own (files : List ModuleKb) : ∀ e ∈ (ModuleRegistry.load files).byModule, e.1 = e.2.module := by
  refine List.foldlRecOn files register (motive := fun kbs => ∀ e ∈ kbs, e.1 = e.2.module)
    (fun _ he => absurd he List.not_mem_nil) fun kbs h kb _ e he => ?_
  rw [register] at he
  split_ifs at he with hknown
  · obtain ⟨old, -, hold, rfl⟩ | ⟨he, -⟩ := mem_modify.mp he
    · exact hold
    · exact h e he
  · obtain he | he := List.mem_append.mp he
    · exact h e he
    · rw [List.mem_singleton.mp he]

theorem hitModules_load (files : List ModuleKb) : (ModuleRegistry.load files).hitModules p lower prompt =
    ((ModuleRegistry.load files).kbs.filter (ModuleKb.hit p lower (lowered lower prompt))).map ModuleKb.module :=
  hitModules_of_own (load_own files)

theorem detection_agrees (p : Platform) (lower : List Char → List Char) (r : ModuleRegistry)
    (prompt target : Option (List Char)) (maxSecondaries : Int) : Agrees p lower r prompt target maxSecondaries := by
  constructor
  · rw [detectAll_eq]
  · rw [detectAll_eq]
  · rintro n rfl
    rw [detectAll_eq]
    rfl
  · rintro n rfl
    rw [detectAll_eq]
    rfl

def asciiLower : List Char → List Char := List.map Char.toLower

def hinted (module keyword : String) : List Char × ModuleKb :=
  (module.toList,
    { module := module.toList
      detectionHints := some { keywordHints := some [keyword.toList] } })

def trio : ModuleRegistry where
  byModule := [hinted "accounts" "tax", hinted "hr" "leave", hinted "stock" "bin"]
  keys := by decide

/-- Below zero the bound counts from the end, and one of two modules is left. -/
theorem negative_maximum_keeps :
    (trio.detectAll asciiPlatform asciiLower (some "Tax on leave per bin".toList) none (-1)).secondaries =
      ["hr".toList] ∧
    ¬∀ (p : Platform) (lower : List Char → List Char) (r : ModuleRegistry) (prompt target : Option (List Char))
        (maxSecondaries : Int), (r.detectAll p lower prompt target maxSecondaries).secondaries =
      ((r.hitModules p lower prompt).filter fun m => some m ≠ (r.detect p lower prompt target).1).take
        maxSecondaries.toNat := by
  have hrun : (trio.detectAll asciiPlatform asciiLower (some "Tax on leave per bin".toList) none (-1)).secondaries =
      ["hr".toList] := by decide
  refine ⟨hrun, fun h => ?_⟩
  have hnone := h asciiPlatform asciiLower trio (some "Tax on leave per bin".toList) none (-1)
  rw [hrun] at hnone
  cases hnone

end Proof

end AlfredProcessing.Registry.Detection
