import AlfredProcessing.PostBuild.Provenance

namespace AlfredProcessing.PostBuild.BackfillStable

open Lib.Fallible Lib.Json Extract.Cleaning Extract.Changes Backfill Provenance

section Filling

variable {fields : List FieldSpec} {f : FieldSpec} {d : Dict} {m : Meta} {k key : Str} {v w : Value}

/-- What a round of `_backfill_raw` does to the data. -/
def fill (d : Dict) (f : FieldSpec) : Dict :=
  if present f.key d then d
  else
    match f.default with
    | none => d
    | some v => insert f.key v d

/-- Every field with a default is in the data, be it empty. -/
def Filled (fields : List FieldSpec) (d : Dict) : Prop :=
  ∀ f ∈ fields, f.default.isSome → (get f.key d).isSome

def Annotated (fields : List FieldSpec) (m : Meta) : Prop := ∀ f ∈ fields, (metaGet f.key m).isSome

theorem backfillFields_data (fields : List FieldSpec) (p : Dict × Meta) :
    (fields.foldl backfillField p).1 = fields.foldl fill p.1 := by
  induction fields generalizing p with
  | nil => rfl
  | cons f fields ih =>
    rw [List.foldl_cons, List.foldl_cons, ih]
    congr 1
    unfold backfillField fill
    split_ifs
    · rfl
    · cases f.default <;> rfl

theorem metaDefault_of_isSome {x : FieldMeta} (h : (metaGet key m).isSome) : metaDefault key x m = m := if_pos h

theorem backfillFields_meta (h : Annotated fields m) (d : Dict) : (fields.foldl backfillField (d, m)).2 = m := by
  induction fields generalizing d with
  | nil => rfl
  | cons f fields ih =>
    have hround : (backfillField (d, m) f).2 = m := by
      have hfirst := h f List.mem_cons_self
      unfold backfillField
      split_ifs
      · exact metaDefault_of_isSome hfirst
      · cases f.default <;> exact metaDefault_of_isSome hfirst
    rw [List.foldl_cons, show backfillField (d, m) f = ((backfillField (d, m) f).1, m) from Prod.ext rfl hround]
    exact ih (fun g hg => h g (List.mem_cons_of_mem _ hg)) _

theorem get_fill_of_ne (h : f.key ≠ k) : get k (fill d f) = get k d := by
  unfold fill
  split_ifs
  · rfl
  · cases f.default with
    | none => rfl
    | some v =>
      dsimp only
      rw [get_insert, if_neg h]

theorem get_fill_of_present (h : present k d) : get k (fill d f) = get k d := by
  by_cases hk : f.key = k
  · subst hk
    rw [fill, if_pos h]
  · exact get_fill_of_ne hk

theorem isSome_fill (h : (get k d).isSome) : (get k (fill d f)).isSome := by
  unfold fill
  split_ifs
  · exact h
  · cases f.default with
    | none => exact h
    | some v => exact get_insert_isSome _ _ h

theorem Filled.tail (h : Filled (f :: fields) d) : Filled fields (fill d f) := fun g hg hdefault =>
  isSome_fill (h g (List.mem_cons_of_mem _ hg) hdefault)

theorem get_fields_of_present (h : present k d) : get k (fields.foldl fill d) = get k d := by
  induction fields generalizing d with
  | nil => rfl
  | cons f fields ih =>
    have hround : get k (fill d f) = get k d := get_fill_of_present h
    rw [List.foldl_cons, ih (by rwa [present_congr hround]), hround]

/-- Rounds do not look at another key than their own: what they make of two dictionaries that
differ in one key differs in that key alone. -/
theorem insert_fields (h : Filled fields d) (v w : Value) :
    insert k v (fields.foldl fill (insert k w d)) = insert k v (fields.foldl fill d) := by
  induction fields generalizing d w with
  | nil => exact insert_insert k w v d
  | cons f fields ih =>
    have htail := h.tail
    have hrest : Filled fields d := fun g hg => h g (List.mem_cons_of_mem _ hg)
    rw [List.foldl_cons, List.foldl_cons]
    by_cases hk : f.key = k
    · subst hk
      have hother : ∃ u, fill (insert f.key w d) f = insert f.key u d := by
        unfold fill
        split_ifs
        · exact ⟨w, rfl⟩
        · cases f.default with
          | none => exact ⟨w, rfl⟩
          | some u => exact ⟨u, insert_insert _ _ _ _⟩
      have hone : fill d f = d ∨ ∃ u, fill d f = insert f.key u d := by
        unfold fill
        split_ifs
        · exact .inl rfl
        · cases f.default with
          | none => exact .inl rfl
          | some u => exact .inr ⟨u, rfl⟩
      obtain ⟨u, hu⟩ := hother
      rw [hu, ih hrest]
      obtain hd | ⟨u', hd⟩ := hone
      · rw [hd]
      · rw [hd, ih hrest]
    · have hpresent : present f.key (insert k w d) = present f.key d :=
        present_congr (by rw [get_insert, if_neg (Ne.symm hk)])
      have hround : fill (insert k w d) f = insert k w (fill d f) := by
        unfold fill
        rw [hpresent]
        split_ifs
        · rfl
        · cases hdefault : f.default with
          | none => rfl
          | some u =>
            have hthere : (get f.key d).isSome := h f List.mem_cons_self (by rw [hdefault]; rfl)
            exact (insert_comm (Ne.symm hk) w u hthere).symm
      rw [hround, ih htail]

theorem isSome_fields (h : (get k d).isSome) : (get k (fields.foldl fill d)).isSome := by
  induction fields generalizing d with
  | nil => exact h
  | cons f fields ih => exact ih (isSome_fill h)

theorem get_fields_of_no_default (h : ∀ f ∈ fields, f.key = k → f.default = none) :
    get k (fields.foldl fill d) = get k d := by
  induction fields generalizing d with
  | nil => rfl
  | cons f fields ih =>
    have hround : get k (fill d f) = get k d := by
      by_cases hk : f.key = k
      · unfold fill
        rw [h f List.mem_cons_self hk]
        split_ifs <;> rfl
      · exact get_fill_of_ne hk
    rw [List.foldl_cons, ih fun g hg => h g (List.mem_cons_of_mem _ hg), hround]

/-- Where a default is to come, it does not matter which empty value is there before. -/
theorem fields_insert_of_absent (hthere : (get k d).isSome) (hd : present k d = false)
    (hv : present k (insert k v d) = false) (hdefault : ∃ f ∈ fields, f.key = k ∧ f.default.isSome) :
    fields.foldl fill (insert k v d) = fields.foldl fill d := by
  induction fields generalizing d with
  | nil =>
    obtain ⟨f, hf, -⟩ := hdefault
    cases hf
  | cons f fields ih =>
    rw [List.foldl_cons, List.foldl_cons]
    by_cases hk : f.key = k
    · subst hk
      cases hvalue : f.default with
      | some u =>
        have hround : fill (insert f.key v d) f = fill d f := by
          unfold fill
          rw [hd, hv, hvalue]
          exact insert_insert _ _ _ _
        rw [hround]
      | none =>
        have hround (d' : Dict) : fill d' f = d' := by
          unfold fill
          rw [hvalue]
          split_ifs <;> rfl
        rw [hround, hround]
        refine ih hthere hd hv ?_
        obtain ⟨g, hg, hkey, hsome⟩ := hdefault
        obtain rfl | hg := List.mem_cons.mp hg
        · rw [hvalue] at hsome
          cases hsome
        · exact ⟨g, hg, hkey, hsome⟩
    · have hget : get k (fill d f) = get k d := get_fill_of_ne hk
      have hpresent : present f.key (insert k v d) = present f.key d :=
        present_congr (by rw [get_insert, if_neg (Ne.symm hk)])
      have hround : fill (insert k v d) f = insert k v (fill d f) := by
        unfold fill
        rw [hpresent]
        split_ifs
        · rfl
        · cases f.default with
          | none => rfl
          | some u => exact insert_comm hk u v hthere
      rw [hround]
      refine ih (hget ▸ hthere) ((present_congr hget).trans hd) ?_ ?_
      · rw [← hv]
        exact present_congr (by rw [get_insert, get_insert, if_pos rfl, if_pos rfl])
      · obtain ⟨g, hg, hkey, hsome⟩ := hdefault
        obtain rfl | hg := List.mem_cons.mp hg
        · exact absurd hkey hk
        · exact ⟨g, hg, hkey, hsome⟩

theorem fields_fields (fields : List FieldSpec) (d : Dict) :
    fields.foldl fill (fields.foldl fill d) = fields.foldl fill d := by
  induction fields generalizing d with
  | nil => rfl
  | cons f fields ih =>
    rw [List.foldl_cons, List.foldl_cons]
    have hagain := ih (fill d f)
    have hkept (h : present f.key (fill d f)) : present f.key (fields.foldl fill (fill d f)) :=
      (present_congr (get_fields_of_present h)).trans h
    generalize hx : fields.foldl fill (fill d f) = x at hagain hkept ⊢
    cases hpresent : present f.key x with
    | true => rw [fill, if_pos hpresent, hagain]
    | false =>
      cases hdefault : f.default with
      | none =>
        have hround : fill x f = x := by
          unfold fill
          rw [hdefault]
          split_ifs <;> rfl
        rw [hround, hagain]
      | some v =>
        have hround : fill x f = insert f.key v x := by
          unfold fill
          rw [hpresent, hdefault]
          rfl
        have habsent : present f.key (fill d f) = false := by
          by_contra h
          rw [hkept (by simpa using h)] at hpresent
          cases hpresent
        have hfirst : fill d f = insert f.key v d := by
          have hd : present f.key d = false := by
            by_contra h
            have htrue : present f.key d = true := by simpa using h
            rw [fill, if_pos htrue, htrue] at habsent
            cases habsent
          unfold fill
          rw [hd, hdefault]
          rfl
        have hvalue : get f.key (fill d f) = some v := by
          rw [hfirst, get_insert, if_pos rfl]
        rw [hround]
        by_cases hsame : get f.key x = some v
        · rw [insert_eq_self hsame, hagain]
        · have hlater : ∃ g ∈ fields, g.key = f.key ∧ g.default.isSome := by
            by_contra hnone
            have hnever : ∀ g ∈ fields, g.key = f.key → g.default = none := by
              intro g hg hkey
              by_contra hsome
              exact hnone ⟨g, hg, hkey, Option.isSome_iff_ne_none.mpr hsome⟩
            refine hsame (hx ▸ ?_)
            rw [get_fields_of_no_default hnever, hvalue]
          have hthere : (get f.key x).isSome := hx ▸ isSome_fields (by rw [hvalue]; rfl)
          have hempty : present f.key (insert f.key v x) = false :=
            (present_congr (by rw [get_insert, if_pos rfl, hvalue])).trans habsent
          rw [fields_insert_of_absent hthere hpresent hempty hlater, hagain]

theorem get_fields_cases (fields : List FieldSpec) (d : Dict) (k : Str) :
    get k (fields.foldl fill d) = get k d ∨
      ∃ f ∈ fields, f.key = k ∧ f.default.isSome ∧ get k (fields.foldl fill d) = f.default := by
  induction fields generalizing d with
  | nil => exact .inl rfl
  | cons f fields ih =>
    rw [List.foldl_cons]
    obtain hrest | ⟨g, hg, hkey, hsome, hrest⟩ := ih (fill d f)
    · by_cases hk : f.key = k
      · subst hk
        unfold fill at hrest ⊢
        split_ifs at hrest ⊢
        · exact .inl hrest
        · cases hdefault : f.default with
          | none =>
            rw [hdefault] at hrest
            exact .inl hrest
          | some v =>
            rw [hdefault] at hrest
            dsimp only at hrest ⊢
            rw [get_insert, if_pos rfl] at hrest
            exact .inr ⟨f, List.mem_cons_self, rfl, by rw [hdefault]; rfl, hrest.trans hdefault.symm⟩
      · exact .inl (hrest.trans (get_fill_of_ne hk))
    · exact .inr ⟨g, List.mem_cons_of_mem _ hg, hkey, hsome, hrest⟩

end Filling

section Rows

variable {rows : List Dict} {existing existing' : List Str} {xs ys zs : List Value} {row : Dict} {role : Str}
  {missing : List (Str × Dict)}

def permissions : Str := str "permissions"

def roles (xs : List Value) : List Str := (xs.filterMap asDict).filterMap roleOf

/-- Rows are only added at the end, each with a role that is not there yet. -/
def ExtendedRows (xs ys : List Value) : Prop :=
  ∃ added : List (Str × Dict), ys = xs ++ added.map (fun p => .dict p.2 .none) ∧
    (∀ p ∈ added, roleOf p.2 = some p.1 ∧ p.1 ∉ roles xs) ∧ (added.map Prod.fst).Nodup

theorem roles_added (h : ∀ p ∈ missing, roleOf p.2 = some p.1) :
    roles (missing.map fun p => .dict p.2 .none) = missing.map Prod.fst := by
  induction missing with
  | nil => rfl
  | cons p missing ih =>
    have hone (xs : List Value) : roles (.dict p.2 .none :: xs) = p.1 :: roles xs := by
      simp [roles, asDict, h p List.mem_cons_self]
    rw [List.map_cons, hone, ih fun q hq => h q (List.mem_cons_of_mem _ hq), List.map_cons]

theorem roles_append (xs ys : List Value) : roles (xs ++ ys) = roles xs ++ roles ys := by
  simp [roles]

theorem ExtendedRows.refl (xs : List Value) : ExtendedRows xs xs :=
  ⟨[], (List.append_nil xs).symm, fun _ h => (List.not_mem_nil h).elim, List.nodup_nil⟩

theorem ExtendedRows.trans (h : ExtendedRows xs ys) (h' : ExtendedRows ys zs) : ExtendedRows xs zs := by
  obtain ⟨added, rfl, hadded, hnodup⟩ := h
  obtain ⟨more, rfl, hmore, hnodup'⟩ := h'
  have hroles : roles (xs ++ added.map fun p => .dict p.2 .none) = roles xs ++ added.map Prod.fst := by
    rw [roles_append, roles_added fun p hp => (hadded p hp).1]
  refine ⟨added ++ more, by rw [List.map_append, List.append_assoc], ?_, ?_⟩
  · intro p hp
    obtain hp | hp := List.mem_append.mp hp
    · exact hadded p hp
    · obtain ⟨hrole, hnew⟩ := hmore p hp
      rw [hroles] at hnew
      exact ⟨hrole, fun hin => hnew (List.mem_append_left _ hin)⟩
  · rw [List.map_append]
    refine List.nodup_append.mpr ⟨hnodup, hnodup', ?_⟩
    rintro r hr _ hr' rfl
    obtain ⟨p, hp, rfl⟩ := List.mem_map.mp hr'
    have hnew := (hmore p hp).2
    rw [hroles] at hnew
    exact hnew (List.mem_append_right _ hr)

theorem missingRows_spec (existing : List Str) (rows : List Dict) :
    (∀ p ∈ missingRows existing rows, roleOf p.2 = some p.1 ∧ p.1 ∉ existing) ∧
      ((missingRows existing rows).map Prod.fst).Nodup := by
  induction rows generalizing existing with
  | nil => exact ⟨fun _ h => (List.not_mem_nil h).elim, List.nodup_nil⟩
  | cons row rows ih =>
    unfold missingRows
    cases hrole : roleOf row with
    | none => exact ih existing
    | some role =>
      dsimp only
      split_ifs with hin
      · exact ih existing
      · obtain ⟨hnew, hnodup⟩ := ih (role :: existing)
        constructor
        · intro p hp
          obtain rfl | hp := List.mem_cons.mp hp
          · exact ⟨hrole, hin⟩
          · exact ⟨(hnew p hp).1, fun h => (hnew p hp).2 (List.mem_cons_of_mem _ h)⟩
        · rw [List.map_cons]
          refine List.nodup_cons.mpr ⟨fun h => ?_, hnodup⟩
          obtain ⟨p, hp, hfst⟩ := List.mem_map.mp h
          exact (hnew p hp).2 (hfst ▸ List.mem_cons_self)

theorem missingRows_eq_nil : missingRows existing rows = [] ↔
    ∀ row ∈ rows, ∀ role, roleOf row = some role → role ∈ existing := by
  induction rows generalizing existing with
  | nil => exact iff_of_true rfl fun _ h => (List.not_mem_nil h).elim
  | cons row rows ih =>
    rw [List.forall_mem_cons]
    unfold missingRows
    cases hrole : roleOf row with
    | none => exact ih.trans ⟨fun h => ⟨fun _ hr => (Option.some_ne_none _ hr.symm).elim, h⟩, fun h => h.2⟩
    | some role =>
      dsimp only
      split_ifs with hin
      · exact ih.trans ⟨fun h => ⟨fun r hr => Option.some.inj hr ▸ hin, h⟩, fun h => h.2⟩
      · exact iff_of_false (fun h => by cases h) fun h => hin (h.1 role rfl)

theorem role_mem (hrow : row ∈ rows) (hrole : roleOf row = some role) :
    role ∈ existing ++ (missingRows existing rows).map Prod.fst := by
  induction rows generalizing existing with
  | nil => cases hrow
  | cons head rows ih =>
    unfold missingRows
    obtain rfl | hrow := List.mem_cons.mp hrow
    · rw [hrole]
      dsimp only
      split_ifs with hin
      · exact List.mem_append_left _ hin
      · exact List.mem_append_right _ List.mem_cons_self
    · cases hhead : roleOf head with
      | none => exact ih hrow
      | some r =>
        dsimp only
        split_ifs with hin
        · exact ih hrow
        · have hrest : role ∈ (r :: existing) ++ (missingRows (r :: existing) rows).map Prod.fst := ih hrow
          obtain h | h := List.mem_append.mp hrest
          · obtain rfl | h := List.mem_cons.mp h
            · exact List.mem_append_right _ List.mem_cons_self
            · exact List.mem_append_left _ h
          · exact List.mem_append_right _ (List.mem_cons_of_mem _ h)

theorem hashable_of_roleOf (h : roleOf row = some role) : hashable (pyGet row "role") := by
  unfold roleOf at h
  cases hvalue : pyGet row "role" with
  | str s => rfl
  | _ =>
    rw [hvalue] at h
    cases h

theorem existingRoles_list {es : List Str} (h : existingRoles (.list xs) = .ok es) :
    es = roles xs ∧ ∀ d ∈ xs.filterMap asDict, hashable (pyGet d "role") := by
  unfold existingRoles at h
  dsimp only at h
  split_ifs at h with hall
  cases h
  exact ⟨rfl, List.all_eq_true.mp hall⟩

theorem existingRoles_of_hashable (h : ∀ d ∈ xs.filterMap asDict, hashable (pyGet d "role")) :
    existingRoles (.list xs) = .ok (roles xs) := if_pos (List.all_eq_true.mpr h)

/-- The roles of rows behind which the missing ones have been put. -/
theorem existingRoles_added {es : List Str} (h : existingRoles (.list xs) = .ok es)
    (hmissing : ∀ p ∈ missing, roleOf p.2 = some p.1) :
    existingRoles (.list (xs ++ missing.map fun p => .dict p.2 .none)) = .ok (es ++ missing.map Prod.fst) := by
  obtain ⟨rfl, hhash⟩ := existingRoles_list h
  rw [existingRoles_of_hashable, roles_append, roles_added hmissing]
  intro d hd
  rw [List.filterMap_append] at hd
  obtain hd | hd := List.mem_append.mp hd
  · exact hhash d hd
  · obtain ⟨x, hx, hd⟩ := List.mem_filterMap.mp hd
    obtain ⟨p, hp, rfl⟩ := List.mem_map.mp hx
    cases hd
    exact hashable_of_roleOf (hmissing p hp)

end Rows

section Passes

variable {rows more : List Dict} {d d' : Dict} {m m' : Meta} {because : Str} {k : Str} {kb : ModuleKb}
  {fields : List FieldSpec}

/-- The permissions that a pass over module rows starts from. -/
def currentRows (d : Dict) : Value := pyOr (pyGet d "permissions") (.list [])

def Covered (rows : List Dict) (d : Dict) : Prop :=
  ∃ existing, existingRoles (currentRows d) = .ok existing ∧ missingRows existing rows = []

theorem addRoles_of_covered (h : Covered rows d) (because : Str) (m : Meta) :
    addRoles rows because d m = .ok (d, m) := by
  obtain ⟨existing, hexisting, hmissing⟩ := h
  refine bind_eq_ok.mpr ⟨existing, hexisting, ?_⟩
  rw [hmissing]
  rfl

theorem currentRows_congr (h : get permissions d = get permissions d') : currentRows d = currentRows d' := by
  unfold currentRows pyGet
  rw [show get (str "permissions") d = get (str "permissions") d' from h]

theorem Covered.congr (h : Covered rows d) (hget : get permissions d = get permissions d') : Covered rows d' := by
  unfold Covered at h ⊢
  rwa [← currentRows_congr hget]

/-- What a pass over module rows does: nothing, or it puts rows behind the permissions. -/
inductive Added (rows : List Dict) (d : Dict) (m : Meta) : Dict → Meta → Prop where
  | nothing : Covered rows d → Added rows d m d m
  | rows (xs : List Value) (existing : List Str) (rationale : Str) : currentRows d = .list xs →
      existingRoles (.list xs) = .ok existing → missingRows existing rows ≠ [] →
      Added rows d m
        (insert permissions (.list (xs ++ (missingRows existing rows).map fun p => .dict p.2 .none)) d)
        (metaSet permissions { source := .default, rationale := some rationale } m)

theorem addRoles_added (h : addRoles rows because d m = .ok (d', m')) : Added rows d m d' m' := by
  obtain ⟨existing, hexisting, h⟩ := bind_eq_ok.mp h
  unfold appendRows at h
  by_cases hnone : (missingRows existing rows).isEmpty = true
  · rw [if_pos hnone] at h
    cases h
    exact .nothing ⟨existing, hexisting, List.isEmpty_iff.mp hnone⟩
  · rw [if_neg hnone] at h
    cases hrows : pyOr (pyGet d "permissions") (.list []) with
    | list xs =>
      rw [hrows] at h hexisting
      cases h
      exact .rows xs existing _ hrows hexisting fun hnil => hnone (List.isEmpty_iff.mpr hnil)
    | _ =>
      rw [hrows] at h
      cases h

theorem currentRows_insert {x : Value} (h : x.truthy) : currentRows (insert permissions x d) = x := by
  have hget : pyGet (insert permissions x d) "permissions" = x := by
    unfold pyGet
    rw [show str "permissions" = permissions from rfl, get_insert, if_pos rfl]
    rfl
  unfold currentRows
  rw [hget, pyOr, if_pos h]

theorem truthy_added {xs : List Value} {missing : List (Str × Dict)} (h : missing ≠ []) :
    (Value.list (xs ++ missing.map fun p => .dict p.2 .none)).truthy := by
  cases missing with
  | nil => exact absurd rfl h
  | cons p missing => simp [Value.truthy]

theorem existingRoles_insert {xs : List Value} {existing : List Str}
    (hexisting : existingRoles (.list xs) = .ok existing) (hne : missingRows existing rows ≠ []) :
    existingRoles (currentRows
        (insert permissions (.list (xs ++ (missingRows existing rows).map fun p => .dict p.2 .none)) d)) =
      .ok (existing ++ (missingRows existing rows).map Prod.fst) := by
  rw [currentRows_insert (truthy_added hne)]
  exact existingRoles_added hexisting fun p hp => ((missingRows_spec existing rows).1 p hp).1

theorem Added.covered (h : Added rows d m d' m') : Covered rows d' := by
  cases h with
  | nothing h => exact h
  | rows xs existing rationale _ hexisting hne =>
    refine ⟨_, existingRoles_insert hexisting hne, missingRows_eq_nil.mpr fun row hrow role hrole => ?_⟩
    exact role_mem hrow hrole

theorem Added.keeps_covered (h : Added rows d m d' m') (hmore : Covered more d) : Covered more d' := by
  cases h with
  | nothing _ => exact hmore
  | rows xs existing rationale hrows hexisting hne =>
    obtain ⟨before, hbefore, hmissing⟩ := hmore
    rw [hrows, hexisting] at hbefore
    cases hbefore
    refine ⟨_, existingRoles_insert hexisting hne, missingRows_eq_nil.mpr fun row hrow role hrole => ?_⟩
    exact List.mem_append_left _ (missingRows_eq_nil.mp hmissing row hrow role hrole)

theorem Added.get_of_ne (h : Added rows d m d' m') (hk : k ≠ permissions) :
    get k d' = get k d ∧ metaGet k m' = metaGet k m := by
  cases h with
  | nothing _ => exact ⟨rfl, rfl⟩
  | rows _ _ _ _ _ _ =>
    rw [get_insert, if_neg (Ne.symm hk), metaGet_metaSet, if_neg (Ne.symm hk)]
    exact ⟨rfl, rfl⟩

theorem Added.isSome (h : Added rows d m d' m') : ((get k d).isSome → (get k d').isSome) ∧
    ((metaGet k m).isSome → (metaGet k m').isSome) := by
  cases h with
  | nothing _ => exact ⟨id, id⟩
  | rows _ _ _ _ _ _ =>
    refine ⟨get_insert_isSome _ _, fun hsome => ?_⟩
    rw [metaGet_metaSet]
    split_ifs
    · rfl
    · exact hsome

theorem Added.extends (h : Added rows d m d' m') {xs : List Value}
    (hxs : get permissions d = some (.list xs)) :
    ∃ ys, get permissions d' = some (.list ys) ∧ ExtendedRows xs ys := by
  cases h with
  | nothing _ => exact ⟨xs, hxs, .refl xs⟩
  | rows xs' existing _ hrows hexisting _ =>
    have hsame : xs' = xs := by
      have hget : pyGet d "permissions" = .list xs := by
        unfold pyGet
        rw [show get (str "permissions") d = _ from hxs]
        rfl
      unfold currentRows at hrows
      rw [hget] at hrows
      cases xs with
      | nil => cases hrows; rfl
      | cons x xs => cases hrows; rfl
    subst hsame
    obtain ⟨rfl, -⟩ := existingRoles_list hexisting
    obtain ⟨hnew, hnodup⟩ := missingRows_spec (roles xs') rows
    exact ⟨_, by rw [get_insert, if_pos rfl], missingRows (roles xs') rows, rfl, hnew, hnodup⟩

end Passes

section Restoring

variable {fields : List FieldSpec} {rows : List Dict} {d d' : Dict} {m m' : Meta} {kb : ModuleKb}
  {naming : Option ModuleKb} {k : Str} {x : FieldMeta}

def autoname : Str := str "autoname"

theorem autoname_ne_permissions : autoname ≠ permissions := by decide

def sourceIn (k : Str) (m : Meta) : Option Source := (metaGet k m).map FieldMeta.source

theorem metaSet_eq_self (h : metaGet k m = some x) : metaSet k x m = m := by
  induction m with
  | nil => cases h
  | cons e m ih =>
    obtain ⟨k', y⟩ := e
    by_cases hk : k' = k
    · subst hk
      have hxy : y = x := by simpa [metaGet] using h
      simp [metaSet, hxy]
    · have hrest : metaGet k m = some x := by simpa [metaGet, hk] using h
      simp [metaSet, hk, ih hrest]

def namedBy (kb : ModuleKb) (pattern : Str) : FieldMeta :=
  { source := .default
    rationale := some (str "Module " ++ kb.displayName ++ str " conventionally uses " ++ pattern ++ str ".") }

theorem swapAutoname_sets {pattern : Str} {patterns : List Str} (hpatterns : kb.namingPatterns = pattern :: patterns)
    (d : Dict) (h : sourceIn autoname m = some .default) :
    swapAutoname kb d m = (insert autoname (.str pattern) d, metaSet autoname (namedBy kb pattern) m) := by
  have hsource : (metaGet (str "autoname") m).map FieldMeta.source = some .default := h
  unfold swapAutoname
  rw [hsource, hpatterns]
  rfl

theorem swapAutoname_leaves (h : kb.namingPatterns = [] ∨ sourceIn autoname m ≠ some .default) (d : Dict) :
    swapAutoname kb d m = (d, m) := by
  have hsource : (metaGet (str "autoname") m).map FieldMeta.source = sourceIn autoname m := rfl
  unfold swapAutoname
  rw [hsource]
  cases hvalue : sourceIn autoname m with
  | none => rfl
  | some s =>
    cases s with
    | user => rfl
    | default =>
      obtain hnone | hnot := h
      · rw [hnone]
      · exact absurd hvalue hnot

theorem swapAutoname_cases (kb : ModuleKb) (m : Meta) :
    (∀ d M, sourceIn autoname M = sourceIn autoname m → swapAutoname kb d M = (d, M)) ∨
      sourceIn autoname m = some .default ∧ ∃ pattern x, x.source = .default ∧
        ∀ d M, sourceIn autoname M = some .default →
          swapAutoname kb d M = (insert autoname (.str pattern) d, metaSet autoname x M) := by
  cases hpatterns : kb.namingPatterns with
  | nil => exact .inl fun d M _ => swapAutoname_leaves (.inl hpatterns) d
  | cons pattern patterns =>
    by_cases hsource : sourceIn autoname m = some .default
    · exact .inr ⟨hsource, pattern, namedBy kb pattern, rfl, fun d M hM => swapAutoname_sets hpatterns d hM⟩
    · exact .inl fun d M hM => swapAutoname_leaves (.inr (hM ▸ hsource)) d

def swap (naming : Option ModuleKb) (d : Dict) (m : Meta) : Dict × Meta :=
  match naming with
  | none => (d, m)
  | some kb => swapAutoname kb d m

/-- Filling in again, and naming again, brings back what is there. -/
def Restored (fields : List FieldSpec) (naming : Option ModuleKb) (d : Dict) (m : Meta) : Prop :=
  swap naming (fields.foldl fill d) m = (d, m)

theorem fields_insert_present {v : Value} (h : Filled fields d) (hv : present k (insert k v d)) :
    fields.foldl fill (insert k v d) = insert k v (fields.foldl fill d) := by
  have hget : get k (fields.foldl fill (insert k v d)) = some v := by
    rw [get_fields_of_present hv, get_insert, if_pos rfl]
  rw [← insert_fields h v v, insert_eq_self hget]

theorem Restored.added (h : Restored fields naming d m) (hfilled : Filled fields d)
    (hadded : Added rows d m d' m') : Restored fields naming d' m' := by
  cases hadded with
  | nothing _ => exact h
  | rows xs existing rationale _ _ _ =>
    generalize hL : Value.list (xs ++ (missingRows existing rows).map fun p => .dict p.2 .none) = L
    generalize hx : ({ source := .default, rationale := some rationale } : FieldMeta) = y
    have hpresent : present permissions (insert permissions L d) := by
      unfold present
      rw [get_insert, if_pos rfl, ← hL]
    have hfill := fields_insert_present hfilled hpresent
    have hentry : metaGet autoname (metaSet permissions y m) = metaGet autoname m := by
      rw [metaGet_metaSet, if_neg (Ne.symm autoname_ne_permissions)]
    have hsource : sourceIn autoname (metaSet permissions y m) = sourceIn autoname m :=
      congrArg (Option.map FieldMeta.source) hentry
    unfold Restored swap at h ⊢
    cases naming with
    | none =>
      obtain ⟨hd, -⟩ := Prod.ext_iff.mp h
      dsimp only at hd ⊢
      rw [hfill, hd]
    | some kb =>
      dsimp only at h ⊢
      obtain hleave | ⟨hdefault, pattern, x, hsourcex, hset⟩ := swapAutoname_cases kb m
      · rw [hleave _ _ rfl] at h
        obtain ⟨hd, -⟩ := Prod.ext_iff.mp h
        dsimp only at hd
        rw [hleave _ _ hsource, hfill, hd]
      · rw [hset _ _ hdefault] at h
        obtain ⟨hd, hm⟩ := Prod.ext_iff.mp h
        dsimp only at hd hm
        have hnamed : (get autoname (fields.foldl fill d)).isSome := by
          refine isSome_fields ?_
          rw [← hd, get_insert, if_pos rfl]
          rfl
        rw [hset _ _ (hsource.trans hdefault), hfill,
          ← insert_comm (Ne.symm autoname_ne_permissions) L (.str pattern) hnamed, hd, metaSet_eq_self]
        rw [hentry, ← hm, metaGet_metaSet, if_pos rfl]

theorem Restored.named (h : fields.foldl fill d = d) (hfilled : Filled fields d) (kb : ModuleKb) (m : Meta) :
    Restored fields (some kb) (swapAutoname kb d m).1 (swapAutoname kb d m).2 := by
  unfold Restored swap
  dsimp only
  obtain hleave | ⟨hdefault, pattern, x, hsourcex, hset⟩ := swapAutoname_cases kb m
  · rw [hleave _ _ rfl, h, hleave _ _ rfl]
  · rw [hset _ _ hdefault]
    dsimp only
    have hentry : metaGet autoname (metaSet autoname x m) = some x := by rw [metaGet_metaSet, if_pos rfl]
    have hagain : sourceIn autoname (metaSet autoname x m) = some .default := by
      rw [sourceIn, hentry, Option.map_some, hsourcex]
    rw [hset _ _ hagain, insert_fields hfilled, h, metaSet_eq_self hentry]

theorem swapAutoname_get (hk : k ≠ autoname) (kb : ModuleKb) (d : Dict) (m : Meta) :
    get k (swapAutoname kb d m).1 = get k d ∧ metaGet k (swapAutoname kb d m).2 = metaGet k m := by
  obtain hleave | ⟨hdefault, pattern, x, -, hset⟩ := swapAutoname_cases kb m
  · rw [hleave _ _ rfl]
    exact ⟨rfl, rfl⟩
  · rw [hset _ _ hdefault]
    exact ⟨by rw [get_insert, if_neg (Ne.symm hk)], by rw [metaGet_metaSet, if_neg (Ne.symm hk)]⟩

theorem swapAutoname_isSome (kb : ModuleKb) (d : Dict) (m : Meta) :
    ((get k d).isSome → (get k (swapAutoname kb d m).1).isSome) ∧
      ((metaGet k m).isSome → (metaGet k (swapAutoname kb d m).2).isSome) := by
  obtain hleave | ⟨hdefault, pattern, x, -, hset⟩ := swapAutoname_cases kb m
  · rw [hleave _ _ rfl]
    exact ⟨id, id⟩
  · rw [hset _ _ hdefault]
    refine ⟨get_insert_isSome _ _, fun h => ?_⟩
    rw [metaGet_metaSet]
    split_ifs
    · rfl
    · exact h

end Restoring

section Changes

variable {registry : IntentRegistry} {modules : ModuleRegistry} {intent module : Option String}
  {secondaryModules : List String} {schema : Schema} {c c' : Change} {naming : Option ModuleKb}
  {rows : List Dict}

theorem secondary_cases {sec : String} (h : applySecondaryModuleDefaults modules sec c = .ok c') :
    (modules.get sec = none ∧ c' = c) ∨ ∃ kb d' m', modules.get sec = some kb ∧
      Added kb.permissionsAddRoles c.data (c.fieldDefaultsMeta.getD []) d' m' ∧
      c' = { c with data := d', fieldDefaultsMeta := some m' } := by
  unfold applySecondaryModuleDefaults at h
  cases hget : modules.get sec with
  | none =>
    rw [hget] at h
    cases h
    exact .inl ⟨rfl, rfl⟩
  | some kb =>
    rw [hget] at h
    obtain ⟨⟨d', m'⟩, hroles, h⟩ := bind_eq_ok.mp h
    cases h
    exact .inr ⟨kb, d', m', rfl, addRoles_added hroles, rfl⟩

theorem module_cases {name : String} (h : applyModuleDefaults modules name c = .ok c') :
    (modules.get name = none ∧ c' = c) ∨ ∃ kb d' m', modules.get name = some kb ∧
      Added kb.permissionsAddRoles c.data (c.fieldDefaultsMeta.getD []) d' m' ∧
      c' = { c with data := (swapAutoname kb d' m').1, fieldDefaultsMeta := some (swapAutoname kb d' m').2 } := by
  unfold applyModuleDefaults at h
  cases hget : modules.get name with
  | none =>
    rw [hget] at h
    cases h
    exact .inl ⟨rfl, rfl⟩
  | some kb =>
    rw [hget] at h
    obtain ⟨⟨d', m'⟩, hroles, h⟩ := bind_eq_ok.mp h
    cases h
    exact .inr ⟨kb, d', m', rfl, addRoles_added hroles, rfl⟩

/-- A change that the passes leave as it is, as far as its fields and its name go. -/
structure Settled (schema : Schema) (naming : Option ModuleKb) (c : Change) : Prop where
  filled : Filled schema.fields c.data
  annotations : ∃ m, c.fieldDefaultsMeta = some m ∧ Annotated schema.fields m ∧
    Restored schema.fields naming c.data m

theorem annotated_backfillFields (fields : List FieldSpec) (p : Dict × Meta) :
    Annotated fields (fields.foldl backfillField p).2 := by
  intro f hf
  have hsource : (metaGet f.key (fields.foldl backfillField p).2).map FieldMeta.source = _ := source_backfillFields
  cases hfind : fields.find? fun g => g.key = f.key with
  | none => exact absurd (List.find?_eq_none.mp hfind f hf) (by simp)
  | some g =>
    rw [hfind] at hsource
    cases hentry : metaGet f.key (fields.foldl backfillField p).2 with
    | some x => rfl
    | none =>
      rw [hentry] at hsource
      cases hold : (metaGet f.key p.2).map FieldMeta.source <;> rw [hold] at hsource <;> cases hsource

theorem settled_backfillRaw (c : Change) (schema : Schema) : Settled schema none (backfillRaw c schema) where
  filled := (backfillFields schema.fields (c.data, c.fieldDefaultsMeta.getD [])).2
  annotations := by
    refine ⟨_, rfl, annotated_backfillFields _ _, ?_⟩
    unfold Restored swap backfillRaw
    dsimp only
    rw [backfillFields_data, fields_fields]

theorem Settled.added {m : Meta} {d' : Dict} {m' : Meta} (h : Settled schema naming c)
    (hm : c.fieldDefaultsMeta.getD [] = m) (hadded : Added rows c.data m d' m') :
    Settled schema naming { c with data := d', fieldDefaultsMeta := some m' } := by
  obtain ⟨m₀, hsome, hannotated, hrestored⟩ := h.annotations
  rw [hsome, Option.getD_some] at hm
  subst hm
  exact ⟨fun f hf hdefault => hadded.isSome.1 (h.filled f hf hdefault),
    m', rfl, fun f hf => hadded.isSome.2 (hannotated f hf), hrestored.added h.filled hadded⟩

theorem secondary_settled {sec : String} (h : applySecondaryModuleDefaults modules sec c = .ok c')
    (hs : Settled schema naming c) :
    Settled schema naming c' ∧ (∀ rows, Covered rows c.data → Covered rows c'.data) ∧
      ∀ kb, modules.get sec = some kb → Covered kb.permissionsAddRoles c'.data := by
  obtain ⟨hget, rfl⟩ | ⟨kb, d', m', hget, hadded, rfl⟩ := secondary_cases h
  · exact ⟨hs, fun _ hrows => hrows, fun kb hkb => by rw [hget] at hkb; cases hkb⟩
  · refine ⟨hs.added rfl hadded, fun rows => hadded.keeps_covered, fun kb' hkb => ?_⟩
    rw [hget] at hkb
    cases hkb
    exact hadded.covered

theorem secondaries_settled (h : secondaryModules.foldlM
      (fun c sec => applySecondaryModuleDefaults modules sec c) c = .ok c') (hs : Settled schema naming c) :
    Settled schema naming c' ∧ (∀ rows, Covered rows c.data → Covered rows c'.data) ∧
      ∀ sec ∈ secondaryModules, ∀ kb, modules.get sec = some kb → Covered kb.permissionsAddRoles c'.data := by
  induction secondaryModules generalizing c with
  | nil =>
    cases h
    exact ⟨hs, fun _ hrows => hrows, fun _ hsec => (List.not_mem_nil hsec).elim⟩
  | cons sec secs ih =>
    rw [List.foldlM_cons] at h
    obtain ⟨c₁, hfirst, h⟩ := bind_eq_ok.mp h
    obtain ⟨hs₁, hkept, hown⟩ := secondary_settled hfirst hs
    obtain ⟨hs', hkept', hothers⟩ := ih h hs₁
    refine ⟨hs', fun rows hrows => hkept' rows (hkept rows hrows), fun sec' hsec kb hkb => ?_⟩
    obtain rfl | hsec := List.mem_cons.mp hsec
    · exact hkept' _ (hown kb hkb)
    · exact hothers sec' hsec kb hkb

theorem module_settled {name : String} (h : applyModuleDefaults modules name c = .ok c')
    (hs : Settled schema none c) :
    Settled schema (modules.get name) c' ∧
      ∀ kb, modules.get name = some kb → Covered kb.permissionsAddRoles c'.data := by
  obtain ⟨hget, rfl⟩ | ⟨kb, d', m', hget, hadded, rfl⟩ := module_cases h
  · rw [hget]
    exact ⟨hs, fun _ hkb => by cases hkb⟩
  · rw [hget]
    obtain ⟨m₁, hsome, hannotated, hrestored⟩ := (hs.added rfl hadded).annotations
    cases hsome
    have hfilled := (hs.added rfl hadded).filled
    have hfixed : schema.fields.foldl fill d' = d' := (Prod.ext_iff.mp hrestored).1
    refine ⟨⟨fun f hf hdefault => (swapAutoname_isSome kb d' m').1 (hfilled f hf hdefault), _, rfl,
      fun f hf => (swapAutoname_isSome kb d' m').2 (hannotated f hf), Restored.named hfixed hfilled kb m'⟩, ?_⟩
    intro kb' hkb
    cases hkb
    exact hadded.covered.congr (swapAutoname_get (Ne.symm autoname_ne_permissions) kb d' m').1.symm

theorem backfillRaw_settled (h : Settled schema naming c) :
    backfillRaw c schema = { c with data := schema.fields.foldl fill c.data } := by
  obtain ⟨m, hsome, hannotated, -⟩ := h.annotations
  unfold backfillRaw
  rw [hsome, Option.getD_some]
  dsimp only
  rw [backfillFields_data, backfillFields_meta hannotated]

theorem secondary_again {sec : String} (hs : Settled schema naming c)
    (hrows : ∀ kb, modules.get sec = some kb → Covered kb.permissionsAddRoles c.data) :
    applySecondaryModuleDefaults modules sec c = .ok c := by
  obtain ⟨m, hsome, -, -⟩ := hs.annotations
  unfold applySecondaryModuleDefaults
  cases hget : modules.get sec with
  | none => rfl
  | some kb =>
    refine bind_eq_ok.mpr ⟨_, addRoles_of_covered (hrows kb hget) _ _, ?_⟩
    rw [hsome, Option.getD_some]
    exact congrArg Except.ok (by rw [← hsome])

theorem secondaries_again (hs : Settled schema naming c)
    (hrows : ∀ sec ∈ secondaryModules, ∀ kb, modules.get sec = some kb → Covered kb.permissionsAddRoles c.data) :
    secondaryModules.foldlM (fun c sec => applySecondaryModuleDefaults modules sec c) c = .ok c := by
  induction secondaryModules with
  | nil => rfl
  | cons sec secs ih =>
    rw [List.foldlM_cons]
    refine bind_eq_ok.mpr ⟨c, secondary_again hs (hrows sec List.mem_cons_self), ?_⟩
    exact ih fun sec' hsec => hrows sec' (List.mem_cons_of_mem _ hsec)

theorem module_again {name : String} (hs : Settled schema (modules.get name) c)
    (hrows : ∀ kb, modules.get name = some kb → Covered kb.permissionsAddRoles c.data) :
    applyModuleDefaults modules name (backfillRaw c schema) = .ok c := by
  rw [backfillRaw_settled hs]
  obtain ⟨m, hsome, -, hrestored⟩ := hs.annotations
  unfold Restored swap at hrestored
  unfold applyModuleDefaults
  cases hget : modules.get name with
  | none =>
    rw [hget] at hrestored
    obtain ⟨hdata, -⟩ := Prod.ext_iff.mp hrestored
    dsimp only at hdata ⊢
    rw [hdata]
    rfl
  | some kb =>
    rw [hget] at hrestored
    dsimp only at hrestored ⊢
    have hcovered : Covered kb.permissionsAddRoles (schema.fields.foldl fill c.data) := by
      refine (hrows kb hget).congr ?_
      have hget := (swapAutoname_get (Ne.symm autoname_ne_permissions) kb (schema.fields.foldl fill c.data) m).1
      rw [hrestored] at hget
      exact hget
    refine bind_eq_ok.mpr ⟨_, addRoles_of_covered hcovered _ _, ?_⟩
    rw [hsome, Option.getD_some]
    dsimp only
    rw [hrestored]
    exact congrArg Except.ok (by rw [← hsome])

theorem backfillChange_again
    (h : backfillChange registry modules intent module secondaryModules c = .ok c') :
    backfillChange registry modules intent module secondaryModules c' = .ok c' := by
  obtain ⟨found, hschema, hrest⟩ := bind_eq_ok.mp h
  cases found with
  | none =>
    cases hrest
    exact bind_eq_ok.mpr ⟨none, hschema, rfl⟩
  | some schema =>
    have hdoctype : schemaFor registry intent c'.doctype = .ok (some schema) := by
      rw [(backfillChange_extends h).doctype, hschema]
    refine bind_eq_ok.mpr ⟨some schema, hdoctype, ?_⟩
    dsimp only at hrest ⊢
    cases hmodule : module.filter (!·.isEmpty) with
    | none =>
      rw [hmodule] at hrest
      cases hrest
      have hs := settled_backfillRaw c schema
      obtain ⟨m, -, -, hrestored⟩ := hs.annotations
      dsimp only
      rw [backfillRaw_settled hs, show schema.fields.foldl fill _ = _ from (Prod.ext_iff.mp hrestored).1]
      rfl
    | some name =>
      rw [hmodule] at hrest
      obtain ⟨c₁, hprimary, hsecondaries⟩ := bind_eq_ok.mp hrest
      obtain ⟨hs₁, hown⟩ := module_settled hprimary (settled_backfillRaw c schema)
      obtain ⟨hs, hkept, hothers⟩ := secondaries_settled hsecondaries hs₁
      exact bind_eq_ok.mpr ⟨c', module_again hs fun kb hkb => hkept _ (hown kb hkb), secondaries_again hs hothers⟩

/-- What a change keeps: every value that is neither null nor empty, where permissions may get
rows behind them. -/
structure Preserved (c c' : Change) : Prop where
  op : c'.op = c.op
  doctype : c'.doctype = c.doctype
  fields : ∀ k, k ≠ permissions → present k c.data → get k c'.data = get k c.data
  permissions : ∀ xs, get permissions c.data = some (.list xs) →
    ∃ ys, get permissions c'.data = some (.list ys) ∧ ExtendedRows xs ys

/-- A change on the way: a name that was there is not taken for a default. -/
structure OnTheWay (c c' : Change) : Prop extends Preserved c c' where
  named : present autoname c.data → sourceIn autoname (c'.fieldDefaultsMeta.getD []) ≠ some .default

theorem onTheWay_backfillRaw (h : c.fieldDefaultsMeta = none) (schema : Schema) :
    OnTheWay c (backfillRaw c schema) where
  op := rfl
  doctype := rfl
  fields k _ hk := by
    unfold backfillRaw
    dsimp only
    rw [backfillFields_data, get_fields_of_present hk]
  permissions xs hxs := by
    refine ⟨xs, ?_, .refl xs⟩
    have hpresent : present BackfillStable.permissions c.data := by
      unfold present
      rw [hxs]
    unfold backfillRaw
    dsimp only
    rw [backfillFields_data, get_fields_of_present hpresent, hxs]
  named hname := by
    have hsource : (metaGet autoname (schema.fields.foldl backfillField (c.data, [])).2).map FieldMeta.source = _ :=
      source_backfillFields
    unfold backfillRaw
    rw [h]
    dsimp only [Option.getD]
    rw [sourceIn, hsource]
    cases hfind : schema.fields.find? fun f => f.key = autoname with
    | none => exact fun hd => by cases hd
    | some f =>
      have hkey : f.key = autoname := by simpa using List.find?_some hfind
      simp [metaGet, roundSource, hkey, hname]

theorem OnTheWay.added {c c₁ : Change} {d' : Dict} {m' : Meta} (h : OnTheWay c c₁)
    (hadded : Added rows c₁.data (c₁.fieldDefaultsMeta.getD []) d' m') :
    OnTheWay c { c₁ with data := d', fieldDefaultsMeta := some m' } where
  op := h.op
  doctype := h.doctype
  fields k hk hpresent := (hadded.get_of_ne hk).1.trans (h.fields k hk hpresent)
  permissions xs hxs := by
    obtain ⟨ys, hys, hextended⟩ := h.permissions xs hxs
    obtain ⟨zs, hzs, hmore⟩ := hadded.extends hys
    exact ⟨zs, hzs, hextended.trans hmore⟩
  named hname := by
    unfold sourceIn
    rw [Option.getD_some, (hadded.get_of_ne autoname_ne_permissions).2]
    exact h.named hname

theorem OnTheWay.swapped {c c₁ : Change} {d : Dict} {m : Meta} (kb : ModuleKb)
    (h : OnTheWay c { c₁ with data := d, fieldDefaultsMeta := some m }) :
    OnTheWay c { c₁ with
      data := (swapAutoname kb d m).1
      fieldDefaultsMeta := some (swapAutoname kb d m).2 } := by
  have hname : present autoname c.data → swapAutoname kb d m = (d, m) := by
    intro hpresent
    obtain hleave | ⟨hdefault, -⟩ := swapAutoname_cases kb m
    · exact hleave d m rfl
    · exact absurd hdefault (h.named hpresent)
  constructor
  · constructor
    · exact h.op
    · exact h.doctype
    · intro k hk hpresent
      by_cases hkey : k = autoname
      · subst hkey
        dsimp only
        rw [hname hpresent]
        exact h.fields autoname hk hpresent
      · exact (swapAutoname_get hkey kb d m).1.trans (h.fields k hk hpresent)
    · intro xs hxs
      obtain ⟨ys, hys, hextended⟩ := h.permissions xs hxs
      exact ⟨ys, (swapAutoname_get (Ne.symm autoname_ne_permissions) kb d m).1.trans hys, hextended⟩
  · intro hpresent
    dsimp only
    rw [hname hpresent]
    exact h.named hpresent

theorem OnTheWay.primary {c c₁ : Change} {name : String} (h : OnTheWay c c₁)
    (hmodule : applyModuleDefaults modules name c₁ = .ok c') : OnTheWay c c' := by
  obtain ⟨-, rfl⟩ | ⟨kb, d', m', -, hadded, rfl⟩ := module_cases hmodule
  · exact h
  · exact (h.added hadded).swapped kb

theorem OnTheWay.secondary {c c₁ : Change} {sec : String} (h : OnTheWay c c₁)
    (hsecondary : applySecondaryModuleDefaults modules sec c₁ = .ok c') : OnTheWay c c' := by
  obtain ⟨-, rfl⟩ | ⟨kb, d', m', -, hadded, rfl⟩ := secondary_cases hsecondary
  · exact h
  · exact h.added hadded

theorem backfillChange_preserved (hmeta : c.fieldDefaultsMeta = none)
    (h : backfillChange registry modules intent module secondaryModules c = .ok c') : Preserved c c' := by
  obtain ⟨found, hschema, hrest⟩ := bind_eq_ok.mp h
  cases found with
  | none =>
    cases hrest
    exact ⟨rfl, rfl, fun _ _ _ => rfl, fun xs hxs => ⟨xs, hxs, .refl xs⟩⟩
  | some schema =>
    have hraw := onTheWay_backfillRaw hmeta schema
    dsimp only at hrest
    cases hmodule : module.filter (!·.isEmpty) with
    | none =>
      rw [hmodule] at hrest
      cases hrest
      exact hraw.toPreserved
    | some name =>
      rw [hmodule] at hrest
      obtain ⟨c₁, hprimary, hsecondaries⟩ := bind_eq_ok.mp hrest
      exact (foldlM_keeps (R := fun c₁ c₂ => OnTheWay c c₁ → OnTheWay c c₂) (fun _ h => h)
        (fun h h' hway => h' (h hway)) (fun hs hway => hway.secondary hs) hsecondaries
          (hraw.primary hprimary)).toPreserved

/-- Permissions that a pass can go through: rows with roles that can be put in a set. -/
def ReadableRows (v : Value) : Prop := ∃ xs, v = .list xs ∧ ∀ d ∈ xs.filterMap asDict, hashable (pyGet d "role")

/-- A doctype that cannot be looked up, or permissions that a pass cannot go through. -/
def Unreadable (registry : IntentRegistry) (intent : Option String) (c : Change) : Prop :=
  (∃ e, schemaFor registry intent c.doctype = .error e) ∨
    ∃ schema, schemaFor registry intent c.doctype = .ok (some schema) ∧
      ¬ReadableRows (currentRows (backfillRaw c schema).data)

theorem readable_of_existing {xs : List Value} {es : List Str} (h : existingRoles (.list xs) = .ok es) :
    ReadableRows (.list xs) := ⟨xs, rfl, (existingRoles_list h).2⟩

theorem addRoles_readable {d : Dict} (h : ReadableRows (currentRows d)) (rows : List Dict) (because : Str)
    (m : Meta) : ∃ d' m', addRoles rows because d m = .ok (d', m') ∧ ReadableRows (currentRows d') := by
  obtain ⟨xs, hxs, hhash⟩ := h
  have hexisting := existingRoles_of_hashable hhash
  have hsome : ∃ p, addRoles rows because d m = .ok p := by
    have happend : ∃ p, appendRows (currentRows d) (missingRows (roles xs) rows) because d m = .ok p := by
      rw [hxs]
      unfold appendRows
      split_ifs
      · exact ⟨_, rfl⟩
      · exact ⟨_, rfl⟩
    obtain ⟨p, hp⟩ := happend
    exact ⟨p, bind_eq_ok.mpr ⟨roles xs, by rw [← hexisting, ← hxs]; rfl, hp⟩⟩
  obtain ⟨⟨d', m'⟩, hok⟩ := hsome
  refine ⟨d', m', hok, ?_⟩
  cases addRoles_added hok with
  | nothing _ => exact ⟨xs, hxs, hhash⟩
  | rows ys existing rationale _ hys hne =>
    have hafter := existingRoles_insert (d := d) hys hne
    rw [currentRows_insert (truthy_added hne)] at hafter ⊢
    exact readable_of_existing hafter

theorem secondary_readable {c : Change} (h : ReadableRows (currentRows c.data)) (sec : String) :
    ∃ c', applySecondaryModuleDefaults modules sec c = .ok c' ∧ ReadableRows (currentRows c'.data) := by
  unfold applySecondaryModuleDefaults
  cases modules.get sec with
  | none => exact ⟨c, rfl, h⟩
  | some kb =>
    obtain ⟨d', m', hok, hreadable⟩ := addRoles_readable h kb.permissionsAddRoles
      (str " because request touches " ++ kb.displayName ++ str " as secondary context.")
      (c.fieldDefaultsMeta.getD [])
    exact ⟨_, bind_eq_ok.mpr ⟨_, hok, rfl⟩, hreadable⟩

theorem secondaries_readable {c : Change} (h : ReadableRows (currentRows c.data)) (secs : List String) :
    ∃ c', secs.foldlM (fun c sec => applySecondaryModuleDefaults modules sec c) c = .ok c' := by
  induction secs generalizing c with
  | nil => exact ⟨c, rfl⟩
  | cons sec secs ih =>
    obtain ⟨c₁, hfirst, hreadable⟩ := secondary_readable h sec
    obtain ⟨c', hrest⟩ := ih hreadable
    refine ⟨c', ?_⟩
    rw [List.foldlM_cons]
    exact bind_eq_ok.mpr ⟨c₁, hfirst, hrest⟩

theorem module_readable {c : Change} (h : ReadableRows (currentRows c.data)) (name : String) :
    ∃ c', applyModuleDefaults modules name c = .ok c' ∧ ReadableRows (currentRows c'.data) := by
  unfold applyModuleDefaults
  cases modules.get name with
  | none => exact ⟨c, rfl, h⟩
  | some kb =>
    obtain ⟨d', m', hok, hreadable⟩ := addRoles_readable h kb.permissionsAddRoles
      (str " because target module is " ++ kb.displayName ++ str ".") (c.fieldDefaultsMeta.getD [])
    have hsame : currentRows (swapAutoname kb d' m').1 = currentRows d' :=
      currentRows_congr (swapAutoname_get (Ne.symm autoname_ne_permissions) kb d' m').1
    exact ⟨_, bind_eq_ok.mpr ⟨_, hok, rfl⟩, hsame.symm ▸ hreadable⟩

theorem backfillChange_readable (h : ¬Unreadable registry intent c) :
    ∃ c', backfillChange registry modules intent module secondaryModules c = .ok c' := by
  unfold Unreadable at h
  rw [not_or] at h
  cases hschema : schemaFor registry intent c.doctype with
  | error e => exact absurd ⟨e, hschema⟩ h.1
  | ok found =>
    cases found with
    | none => exact ⟨c, bind_eq_ok.mpr ⟨none, hschema, rfl⟩⟩
    | some schema =>
      have hreadable : ReadableRows (currentRows (backfillRaw c schema).data) := by
        by_contra hnot
        exact h.2 ⟨schema, hschema, hnot⟩
      unfold backfillChange
      cases module.filter (!·.isEmpty) with
      | none => exact ⟨_, bind_eq_ok.mpr ⟨some schema, hschema, rfl⟩⟩
      | some name =>
        obtain ⟨c₁, hprimary, hreadable⟩ := module_readable hreadable name
        obtain ⟨c', hsecondaries⟩ := secondaries_readable hreadable secondaryModules
        exact ⟨c', bind_eq_ok.mpr ⟨some schema, hschema, bind_eq_ok.mpr ⟨c₁, hprimary, hsecondaries⟩⟩⟩

/-- Permissions that are not there, or can be gone through. -/
def RowsOrNone (v : Option Value) : Prop := ∀ x, v = some x → x.truthy → ReadableRows x

theorem readable_of_rowsOrNone {d : Dict} (h : RowsOrNone (get permissions d)) : ReadableRows (currentRows d) := by
  have hget : pyGet d "permissions" = (get permissions d).getD .null := rfl
  unfold currentRows
  rw [hget]
  cases hvalue : get permissions d with
  | none => exact ⟨[], rfl, fun _ hd => (List.not_mem_nil hd).elim⟩
  | some x =>
    rw [Option.getD_some, pyOr]
    split_ifs with htruthy
    · exact h x hvalue htruthy
    · exact ⟨[], rfl, fun _ hd => (List.not_mem_nil hd).elim⟩

/-- An item with a doctype that can be a key, whose permissions, if there are any, are rows, can be
read where the defaults of the registry for permissions are rows too. -/
theorem not_unreadable (hdoctype : hashable c.doctype) (hrows : RowsOrNone (get permissions c.data))
    (hdefaults : ∀ schema, schemaFor registry intent c.doctype = .ok (some schema) →
      ∀ f ∈ schema.fields, f.key = permissions → RowsOrNone f.default) : ¬Unreadable registry intent c := by
  rintro (⟨e, herror⟩ | ⟨schema, hschema, hunreadable⟩)
  · unfold schemaFor at herror
    cases hintent : intent.filter (!·.isEmpty) with
    | none =>
      rw [hintent] at herror
      dsimp only at herror
      split_ifs at herror
      cases hvalue : c.doctype <;> rw [hvalue] at herror hdoctype <;> simp_all
    | some i =>
      rw [hintent] at herror
      dsimp only at herror
      cases hget : registry.get i with
      | none =>
        rw [hget] at herror
        cases herror
      | some schema =>
        rw [hget] at herror
        cases hvalue : c.doctype <;> rw [hvalue] at herror <;> cases herror
  · refine hunreadable (readable_of_rowsOrNone ?_)
    unfold backfillRaw
    dsimp only
    rw [backfillFields_data]
    obtain hsame | ⟨f, hf, hkey, -, hdefault⟩ := get_fields_cases schema.fields c.data permissions
    · rwa [hsame]
    · rw [hdefault]
      exact hdefaults schema hschema f hf hkey

theorem schemaFor_other (h : targetSchema registry intent = some schema)
    (hother : c.doctype ≠ .str schema.doctype) : schemaFor registry intent c.doctype = .ok none := by
  obtain ⟨i, hi, hget⟩ := Option.bind_eq_some_iff.mp h
  unfold schemaFor
  rw [hi]
  dsimp only
  rw [hget]
  cases hdoctype : c.doctype with
  | str s =>
    have hne : schema.doctype ≠ s := fun heq => hother (hdoctype.trans (congrArg Value.str heq.symm))
    simp [hne]
  | _ => rfl

/-- Changes without annotations keep their values, those outside the intent's doctype are left as
they are, and the result goes through a second time without a change. It only raises on what cannot
be read. -/
theorem backfill_stable (registry : IntentRegistry) (modules : ModuleRegistry) (intent module : Option String)
    (secondaryModules : List String) (changes : List Change)
    (hmeta : ∀ c ∈ changes, c.fieldDefaultsMeta = none) :
    match backfillDefaultsRaw registry modules intent module secondaryModules changes with
    | .ok out => List.Forall₂ (fun c c' => Preserved c c' ∧
          (schemaFor registry intent c.doctype = .ok none → c' = c) ∧
          ∀ schema, targetSchema registry intent = some schema → c.doctype ≠ .str schema.doctype → c' = c)
        changes out ∧ backfillDefaultsRaw registry modules intent module secondaryModules out = .ok out
    | .error _ => ∃ c ∈ changes, Unreadable registry intent c := by
  cases hresult : backfillDefaultsRaw registry modules intent module secondaryModules changes with
  | error e =>
    by_contra hnone
    have hall : ∀ c ∈ changes, ∃ c', backfillChange registry modules intent module secondaryModules c = .ok c' :=
      fun c hc => backfillChange_readable fun hun => hnone ⟨c, hc, hun⟩
    obtain ⟨out, hout⟩ := exists_mapM_eq_ok.mpr hall
    rw [backfillDefaultsRaw, hout] at hresult
    cases hresult
  | ok out =>
    dsimp only
    have hchanges := forall₂_of_mapM_eq_ok hresult
    clear hresult
    have huntouched {c c' : Change}
        (h : backfillChange registry modules intent module secondaryModules c = .ok c')
        (hnone : schemaFor registry intent c.doctype = .ok none) : c' = c := by
      obtain ⟨-, rfl⟩ | ⟨schema, hschema, -⟩ := backfillChange_cases h
      · rfl
      · rw [hnone] at hschema
        cases hschema
    induction hchanges with
    | nil => exact ⟨.nil, rfl⟩
    | @cons c c' changes out hc _ ih =>
      obtain ⟨hall, hagain⟩ := ih fun d hd => hmeta d (List.mem_cons_of_mem _ hd)
      constructor
      · refine .cons ⟨backfillChange_preserved (hmeta c List.mem_cons_self) hc, huntouched hc, ?_⟩ hall
        exact fun schema htarget hother => huntouched hc (schemaFor_other htarget hother)
      · unfold backfillDefaultsRaw at hagain ⊢
        rw [List.mapM_cons]
        exact bind_eq_ok.mpr ⟨c', backfillChange_again hc, bind_eq_ok.mpr ⟨out, hagain, rfl⟩⟩

theorem docType_named : str "DocType" ≠ [] := by decide

def accountsModules : ModuleRegistry :=
  [("accounts",
    { displayName := str "Accounts"
      permissionsAddRoles := [[(str "role", .str (str "Accounts User"))]]
      namingPatterns := [str "ACC-.####"] })]

def bareItem : Change := { op := .str (str "create"), doctype := .str (str "DocType"), data := [] }

theorem bareItem_stable :
    (backfillDefaultsRaw moduleRegistry accountsModules (some "create_doctype") (some "accounts") [] [bareItem] >>=
      backfillDefaultsRaw moduleRegistry accountsModules (some "create_doctype") (some "accounts") []) =
      backfillDefaultsRaw moduleRegistry accountsModules (some "create_doctype") (some "accounts") [] [bareItem] := by
  have hstable := backfill_stable moduleRegistry accountsModules (some "create_doctype") (some "accounts") []
    [bareItem] fun c hc => by rw [List.mem_singleton.mp hc]; rfl
  cases hresult : backfillDefaultsRaw moduleRegistry accountsModules (some "create_doctype") (some "accounts") []
      [bareItem] with
  | error e => rfl
  | ok out =>
    rw [hresult] at hstable
    exact hstable.2

def listedRole : Change where
  op := .str (str "create")
  doctype := .str (str "DocType")
  data := [(str "permissions", .list [.dict [(str "role", .list [.str (str "System Manager")])] .none])]

/-- Its permissions are a list of rows, and the call raises on them. -/
theorem listedRole_raises : listedRole.fieldDefaultsMeta = none ∧
    (∃ row, pyGet listedRole.data "permissions" = .list [row] ∧ isDict row = true) ∧
    backfillDefaultsRaw moduleRegistry accountsModules (some "create_doctype") (some "accounts") [] [listedRole] =
      .error .typeError :=
  ⟨rfl, ⟨_, rfl, rfl⟩, rfl⟩

end Changes

end AlfredProcessing.PostBuild.BackfillStable
