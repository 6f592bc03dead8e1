import AlfredProcessing.Extract.Changes
import AlfredProcessing.Lib.Placing

namespace AlfredProcessing.Knowledge.HybridSearch

open Lib.Json Lib.Placing Extract.Changes

section Model

inductive Mode where
  | keyword
  | semantic
  deriving DecidableEq

structure Hit where
  id : Str
  mode : Mode
  entry : Dict

/-- `_take`, none where nothing is added. The ids that were seen are those of the hits so far. -/
def take (hit : Hit) (mode : Mode) (out : List Hit) : Option (List Hit) :=
  if hit.id.isEmpty || (out.map Hit.id).contains hit.id then none
  else some (out ++ [{ hit with mode := mode }])

def takeAt (ranking : List Hit) (idx : Nat) (mode : Mode) (out : List Hit) : Option (List Hit) :=
  ranking[idx]?.bind fun hit => take hit mode out

variable (kw sem : List Hit) (k : Nat)

def mergeLoop : Nat → Nat → List Hit → Option (List Hit)
  | 0, _, _ => none
  | fuel + 1, idx, out =>
    if k ≤ out.length then some out
    else
      let kwTaken := takeAt kw idx .keyword out
      let out := kwTaken.getD out
      if kwTaken.isSome && k ≤ out.length then some out
      else
        let semTaken := takeAt sem idx .semantic out
        let out := semTaken.getD out
        if !(kwTaken.isSome || semTaken.isSome) && max kw.length sem.length < idx + 1 then some out
        else mergeLoop fuel (idx + 1) out

/-- `search_hybrid`, from the rankings that it fetches; none while the loop has not ended. -/
def searchHybrid (fuel : Nat) : Option (List Hit) :=
  let out := (takeAt kw 0 .keyword []).getD []
  let out := (takeAt sem 0 .semantic out).getD out
  (mergeLoop kw sem k fuel 1 out).map (·.take k)

def idOf (hit : Hit) : Option Str := if hit.id.isEmpty then none else some hit.id

/-- The results are different entries of the rankings, as many of those with an id as there is room for;
the best hits by keyword and by meaning are among them, the first of them at the start. -/
structure Blended (r : List Hit) : Prop where
  distinct : (r.map Hit.id).Nodup
  found : ∀ hit ∈ r, ∃ h ∈ kw ++ sem, h.id = hit.id
  count : r.length = min k ((kw ++ sem).filterMap idOf).toFinset.card
  keyword : ∀ hit ∈ kw.head?, (idOf hit).isSome → 1 ≤ k → r.head? = some { hit with mode := .keyword }
  semantic : ∀ hit ∈ sem.head?, (idOf hit).isSome → 2 ≤ k → hit.id ∈ r.map Hit.id

def slots : List Hit :=
  interleave (kw.map fun hit => { hit with mode := .keyword }) (sem.map fun hit => { hit with mode := .semantic })

end Model

section Loop

variable {kw sem : List Hit} {k : Nat} {out : List Hit}

theorem take_eq_place (hit : Hit) (mode : Mode) (out : List Hit) :
    (take hit mode out).getD out = place idOf out { hit with mode := mode } := by
  have hids : hit.id ∈ out.filterMap idOf ↔ ¬hit.id.isEmpty ∧ hit.id ∈ out.map Hit.id := by
    rw [List.mem_filterMap, List.mem_map]
    constructor
    · rintro ⟨h, hmem, hid⟩
      unfold idOf at hid
      split_ifs at hid with hempty
      have hsame : h.id = hit.id := Option.some.inj hid
      exact ⟨hsame ▸ hempty, h, hmem, hsame⟩
    · rintro ⟨hne, h, hmem, hid⟩
      exact ⟨h, hmem, by rw [idOf, hid, if_neg hne]⟩
  unfold take place idOf
  by_cases hempty : hit.id.isEmpty
  · simp only [hempty, Bool.true_or, if_true]
    rfl
  · by_cases hseen : hit.id ∈ out.map Hit.id
    · have hcontains : (out.map Hit.id).contains hit.id = true := List.contains_iff_mem.mpr hseen
      simp only [hcontains, Bool.or_true, if_true, hempty]
      exact (if_pos (hids.mpr ⟨hempty, hseen⟩)).symm
    · have hcontains : (out.map Hit.id).contains hit.id = false := by
        rw [← Bool.not_eq_true, List.contains_iff_mem]
        exact hseen
      simp only [hempty, hcontains, Bool.or_false]
      exact (if_neg fun h => hseen (hids.mp h).2).symm

theorem takeAt_eq_placeAll (ranking : List Hit) (idx : Nat) (mode : Mode) (out : List Hit) :
    (takeAt ranking idx mode out).getD out =
      placeAll idOf out ((ranking.map fun hit => { hit with mode := mode })[idx]?.toList) := by
  unfold takeAt
  rw [List.getElem?_map]
  cases ranking[idx]? with
  | none => rfl
  | some hit => exact take_eq_place hit mode out

def slotsFrom (kw sem : List Hit) (idx : Nat) : List Hit := slots (kw.drop idx) (sem.drop idx)

theorem slotsFrom_eq (kw sem : List Hit) (idx : Nat) : slotsFrom kw sem idx =
    (kw.map fun hit => { hit with mode := .keyword })[idx]?.toList ++
      (sem.map fun hit => { hit with mode := .semantic })[idx]?.toList ++ slotsFrom kw sem (idx + 1) := by
  unfold slotsFrom slots
  rw [interleave_eq, List.map_drop, List.map_drop, List.head?_drop, List.head?_drop, List.tail_drop, List.tail_drop,
    List.map_drop, List.map_drop]

theorem placeAll_slotsFrom (kw sem : List Hit) (idx : Nat) (out : List Hit) :
    placeAll idOf out (slotsFrom kw sem idx) =
      placeAll idOf ((takeAt sem idx .semantic ((takeAt kw idx .keyword out).getD out)).getD
        ((takeAt kw idx .keyword out).getD out)) (slotsFrom kw sem (idx + 1)) := by
  rw [slotsFrom_eq, placeAll_append, placeAll_append, ← takeAt_eq_placeAll, ← takeAt_eq_placeAll]

theorem slotsFrom_nil {idx : Nat} (h : max kw.length sem.length ≤ idx) : slotsFrom kw sem idx = [] := by
  obtain ⟨hkw, hsem⟩ := max_le_iff.mp h
  unfold slotsFrom
  rw [List.drop_of_length_le hkw, List.drop_of_length_le hsem]
  rfl

theorem lt_of_takeAt {ranking : List Hit} {idx : Nat} {mode : Mode} (h : (takeAt ranking idx mode out).isSome) :
    idx < ranking.length := by
  by_contra hge
  rw [takeAt, List.getElem?_eq_none (Nat.le_of_not_lt hge)] at h
  cases h

/-- With fuel for every index the loop ends, and the first results are those of placing all that is left. -/
theorem mergeLoop_eq (kw sem : List Hit) (k fuel idx : Nat) (out : List Hit) (hfuel : fuel ≠ 0)
    (hidx : max kw.length sem.length < idx + fuel) : ∃ r, mergeLoop kw sem k fuel idx out = some r ∧
      r.take k = (placeAll idOf out (slotsFrom kw sem idx)).take k := by
  induction fuel generalizing idx out with
  | zero => exact absurd rfl hfuel
  | succ fuel ih =>
    unfold mergeLoop
    by_cases hfull : k ≤ out.length
    · exact ⟨out, if_pos hfull, (take_placeAll hfull).symm⟩
    rw [if_neg hfull, placeAll_slotsFrom]
    dsimp only
    set out₁ := (takeAt kw idx .keyword out).getD out
    set out₂ := (takeAt sem idx .semantic out₁).getD out₁ with hout₂
    by_cases hfull₁ : (takeAt kw idx .keyword out).isSome && k ≤ out₁.length
    · refine ⟨out₁, if_pos hfull₁, ?_⟩
      have hk : k ≤ out₁.length := by simpa using (Bool.and_eq_true_iff.mp hfull₁).2
      rw [hout₂, takeAt_eq_placeAll, ← placeAll_append, take_placeAll hk]
    rw [if_neg hfull₁]
    by_cases hdone : !((takeAt kw idx .keyword out).isSome || (takeAt sem idx .semantic out₁).isSome) &&
        max kw.length sem.length < idx + 1
    · refine ⟨out₂, if_pos hdone, ?_⟩
      have hend : max kw.length sem.length < idx + 1 := by simpa using (Bool.and_eq_true_iff.mp hdone).2
      rw [slotsFrom_nil (Nat.le_of_lt hend)]
      rfl
    · rw [if_neg hdone]
      have hmore : idx < max kw.length sem.length := by
        by_contra hge
        apply hdone
        rw [Bool.and_eq_true_iff]
        refine ⟨?_, decide_eq_true (by omega)⟩
        rw [Bool.not_eq_true', Bool.or_eq_false_iff]
        constructor
        · exact Bool.eq_false_iff.mpr fun h => hge (lt_max_of_lt_left (lt_of_takeAt h))
        · exact Bool.eq_false_iff.mpr fun h => hge (lt_max_of_lt_right (lt_of_takeAt h))
      exact ih (idx + 1) out₂ (by omega) (by omega)

theorem searchHybrid_eq {fuel : Nat} (h : max kw.length sem.length < fuel) :
    searchHybrid kw sem k fuel = some ((placeAll idOf [] (slots kw sem)).take k) := by
  unfold searchHybrid
  dsimp only
  have hstart := placeAll_slotsFrom kw sem 0 []
  obtain ⟨r, hr, htake⟩ := mergeLoop_eq kw sem k fuel 1
    ((takeAt sem 0 .semantic ((takeAt kw 0 .keyword []).getD [])).getD ((takeAt kw 0 .keyword []).getD []))
    (by omega) (by omega)
  rw [hr, Option.map_some, htake, ← hstart]
  rfl

end Loop

section Results

variable {kw sem : List Hit} {k : Nat}

theorem filterMap_slots (kw sem : List Hit) :
    ((slots kw sem).filterMap idOf).toFinset = ((kw ++ sem).filterMap idOf).toFinset := by
  have hperm : ((slots kw sem).filterMap idOf).Perm ((kw ++ sem).filterMap idOf) := by
    refine ((interleave_perm _ _).filterMap idOf).trans (.of_eq ?_)
    rw [List.filterMap_append, List.filterMap_append, List.filterMap_map, List.filterMap_map]
    rfl
  exact List.toFinset_eq_of_perm _ _ hperm

theorem mem_slots {hit : Hit} (h : hit ∈ slots kw sem) : ∃ h ∈ kw ++ sem, h.id = hit.id := by
  obtain h | h := List.mem_append.mp ((interleave_perm _ _).subset h)
  · obtain ⟨hit', hmem, rfl⟩ := List.mem_map.mp h
    exact ⟨hit', List.mem_append_left _ hmem, rfl⟩
  · obtain ⟨hit', hmem, rfl⟩ := List.mem_map.mp h
    exact ⟨hit', List.mem_append_right _ hmem, rfl⟩

theorem idOf_eq {hit : Hit} {b : Str} (h : idOf hit = some b) : hit.id = b := by
  unfold idOf at h
  split_ifs at h
  exact Option.some.inj h

theorem filterMap_idOf {r : List Hit} (h : ∀ hit ∈ r, (idOf hit).isSome) : r.filterMap idOf = r.map Hit.id := by
  induction r with
  | nil => rfl
  | cons hit r ih =>
    obtain ⟨hhit, hrest⟩ := List.forall_mem_cons.mp h
    obtain ⟨b, hb⟩ := Option.isSome_iff_exists.mp hhit
    rw [List.filterMap_cons_some hb, List.map_cons, ih hrest, idOf_eq hb]

theorem slots_eq (kw sem : List Hit) : ∃ rest, slots kw sem =
    (kw.head?.map fun hit => { hit with mode := .keyword }).toList ++
      (sem.head?.map fun hit => { hit with mode := .semantic }).toList ++ rest := by
  refine ⟨slotsFrom kw sem 1, (slotsFrom_eq kw sem 0).trans ?_⟩
  rw [List.getElem?_map, List.getElem?_map, List.head?_eq_getElem?, List.head?_eq_getElem?]

theorem head_placeAll {hit : Hit} (h : (idOf hit).isSome) (hk : 1 ≤ k) (rest : List Hit) :
    ((placeAll idOf [] (hit :: rest)).take k).head? = some hit := by
  obtain ⟨b, hb⟩ := Option.isSome_iff_exists.mp h
  have hplace : place idOf [] hit = [hit] := by
    rw [place, hb]
    exact if_neg List.not_mem_nil
  obtain ⟨others, hothers⟩ := prefix_placeAll idOf [hit] rest
  have hall : placeAll idOf [] (hit :: rest) = hit :: others := by
    rw [placeAll, List.foldl_cons, hplace]
    exact hothers.symm
  obtain ⟨k, rfl⟩ := Nat.exists_eq_add_of_le' hk
  rw [hall, List.take_succ_cons, List.head?_cons]

theorem blended_slots (kw sem : List Hit) (k : Nat) :
    Blended kw sem k ((placeAll idOf [] (slots kw sem)).take k) := by
  set r := (placeAll idOf [] (slots kw sem)).take k with hr
  have hkeys : ∀ hit ∈ placeAll idOf [] (slots kw sem), (idOf hit).isSome := key_placeAll (List.forall_mem_nil _)
  have hsub : ∀ hit ∈ r, hit ∈ placeAll idOf [] (slots kw sem) := fun _ => List.mem_of_mem_take
  have hids : r.filterMap idOf = r.map Hit.id := filterMap_idOf fun hit h => hkeys hit (hsub hit h)
  obtain ⟨rest, hslots⟩ := slots_eq kw sem
  constructor
  · rw [← hids, hr]
    have hnodup : ((placeAll idOf [] (slots kw sem)).filterMap idOf).Nodup := by
      apply nodup_placeAll
      exact List.nodup_nil
    exact hnodup.sublist ((List.take_sublist _ _).filterMap _)
  · intro hit h
    exact mem_slots (mem_of_mem_placeAll (hsub hit h))
  · rw [hr, List.length_take, length_placeAll_nil, filterMap_slots]
  · intro hit hhit hid hk
    have hid' : (idOf { hit with mode := .keyword }).isSome := hid
    rw [Option.mem_def.mp hhit] at hslots
    rw [hr, hslots]
    exact head_placeAll hid' hk _
  · intro hit hhit hid hk
    obtain ⟨b, hb⟩ := Option.isSome_iff_exists.mp hid
    rw [Option.mem_def.mp hhit] at hslots
    rw [← hids, idOf_eq hb, hr, hslots, List.append_assoc]
    have hb' : idOf { hit with mode := .semantic } = some b := hb
    refine mem_take_placeAll ?_ hb' rest
    cases kw.head? with
    | none => exact Nat.lt_of_lt_of_le Nat.zero_lt_two hk
    | some top => exact hk

/-- The search ends for all rankings, and blends them. -/
theorem searchHybrid_blends (kw sem : List Hit) (k : Nat) :
    ∃ r, (∀ fuel, max kw.length sem.length < fuel → searchHybrid kw sem k fuel = some r) ∧ Blended kw sem k r :=
  ⟨_, fun _ => searchHybrid_eq, blended_slots kw sem k⟩

def unnamed : Hit := ⟨[], .keyword, []⟩

theorem unnamed_hit_dropped : ¬∀ (kw sem : List Hit) (k : Nat), 1 ≤ k → (kw.map Hit.id).Nodup → (sem.map Hit.id).Nodup →
    ∃ fuel r, searchHybrid kw sem k fuel = some r ∧ r.length = min k ((kw ++ sem).map Hit.id).toFinset.card := by
  intro h
  obtain ⟨fuel, r, hr, hcount⟩ := h [unnamed] [] 1 le_rfl (List.nodup_singleton _) List.nodup_nil
  cases fuel with
  | zero => cases hr
  | succ fuel =>
    cases hr
    cases hcount

end Results

end AlfredProcessing.Knowledge.HybridSearch
