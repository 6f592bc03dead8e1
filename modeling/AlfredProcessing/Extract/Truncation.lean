import AlfredProcessing.Extract.Changes
import AlfredProcessing.Extract.Leakage

namespace AlfredProcessing.Extract.Truncation

open Lib.Json Lib.JsonText Lib.Brackets Lib.Substitute Cleaning Leakage Parse Changes

structure ChangesetArray where
  lead : Space
  first : Doc
  after : Space
  gap : Space
  rest : Items
  shaped : ∀ v ∈ (Items.cons first after gap rest).values, looksLikeChangesetItem v

namespace ChangesetArray

def tail (a : ChangesetArray) : List Char :=
  a.after.render ++ ',' :: (a.gap.render ++ a.rest.render)

def text (a : ChangesetArray) : List Char :=
  '[' :: (a.lead.render ++ (a.first.render ++ a.tail))

def cut (a : ChangesetArray) (k : Fin a.text.length) : List Char := a.text.take k

def firstEnd (a : ChangesetArray) : Nat := 1 + a.lead.render.length + a.first.render.length

/-- What a cut leaves of the first item behind its opening brace, cleaned as
the extractor cleans it. -/
def firstLeft (a : ChangesetArray) (k : Fin a.text.length) : List Char :=
  (remove ((a.cut k).drop (a.lead.render.length + 2))).rdropWhile isSpace

/-- A cut that nothing is extracted from. Where `json` does not meet one of its
limits, the first item, if it is complete, must not be an item any more without
the leakage tokens in it. Otherwise the first complete value in what is left of
it, if there is one, holds no item. -/
def Spoiled (py : Interpreter) (a : ChangesetArray) (k : Fin a.text.length) : Prop :=
  MeetsLimit py (clean (a.cut k)) ∨
    if a.firstEnd ≤ k then holdsNoItem (docWithout a.first).value = true
    else ∀ v, (readings py.unlimited (a.firstLeft k)).find? (fun r => !r.isRejected) =
      some (.value v) → holdsNoItem v

variable {py : Interpreter} (a : ChangesetArray) (k : Fin a.text.length)

theorem text_eq : a.text = (Doc.array a.lead (.cons a.first a.after a.gap a.rest)).render := rfl

theorem first_object : ∃ w ms, a.first = .object w ms := by
  have hshape := a.shaped a.first.value (by simp [Items.values])
  cases hf : a.first with
  | object w ms => exact ⟨w, ms, rfl⟩
  | number n =>
    rw [hf] at hshape
    rw [Doc.value] at hshape
    obtain ⟨z, hz⟩ | ⟨m, e, hm⟩ | ⟨x, hx⟩ := n.value_cases
    · simp [hz, looksLikeChangesetItem] at hshape
    · simp [hm, looksLikeChangesetItem] at hshape
    · simp [hx, looksLikeChangesetItem] at hshape
  | _ =>
    rw [hf] at hshape
    simp [Doc.value, looksLikeChangesetItem, has, Lib.Json.get] at hshape

theorem isSpace_not_bracket {c : Char} (h : isWs c) : isBracket c = false := by
  simp only [isWs, Bool.or_eq_true, decide_eq_true_eq] at h
  rcases h with ((rfl | rfl) | rfl) | rfl <;> rfl

theorem space_not_angle {c : Char} (h : isWs c) : c ≠ '<' := by
  rintro rfl
  exact absurd h (by decide)

theorem space_chars (w : Space) : ∀ c ∈ w.render, isWs c := by
  intro c hc
  obtain ⟨d, -, rfl⟩ := List.mem_map.mp hc
  exact d.2

theorem along_cut : Along (within 1 0) {} (a.cut k) := by
  have hlevel : Level (a.lead.render ++ itemsInit (.cons a.first a.after a.gap a.rest)) :=
    (level_space a.lead).append (level_items _)
  have htext : a.text =
      ('[' :: (a.lead.render ++ itemsInit (.cons a.first a.after a.gap a.rest))) ++ [']'] := by
    simp [text_eq, Doc.render, items_render]
  refine (hlevel.unclosed_square (s := {}) ⟨rfl, rfl⟩).2.of_isPrefix ?_
  obtain ⟨k, hk⟩ := k
  simp only [cut]
  rw [htext] at hk ⊢
  rw [List.length_append, List.length_singleton] at hk
  rw [List.take_append_of_le_length (by omega)]
  exact List.take_prefix _ _

theorem parse_cut {p : List Char} (hp : a.cut k = '[' :: p) :
    parseFirstJsonValue py.unlimited (clean (a.cut k)) =
      parseFirstJsonValue py.unlimited ((remove p).rdropWhile isSpace) := by
  have halong := a.along_cut k
  have hremoved := along_remove halong
  have hcut : remove (a.cut k) = '[' :: remove p := by
    rw [hp, remove_cons (by decide)]
  have hclean : clean (a.cut k) = '[' :: (remove p).rdropWhile isSpace := by
    rw [clean_legal ⟨rfl, rfl⟩ halong, ← remove, hcut]
    exact strip_append_cons [] (by decide) (by simp)
  rw [hclean]
  refine parseFirst_square ?_
  have hprefix : '[' :: (remove p).rdropWhile isSpace <+: '[' :: remove p :=
    List.cons_prefix_cons.mpr ⟨rfl, List.rdropWhile_prefix _ _⟩
  rw [hcut] at hremoved
  exact (hremoved.of_isPrefix hprefix).mono fun s c h => by
    have := h.2.1
    omega

theorem cut_succ {m : Nat} (hm : k.val = m + 1) :
    a.cut k = '[' :: (a.lead.render ++ (a.first.render ++ a.tail)).take m := by
  rw [cut, hm]
  rfl

theorem parse_complete (h : a.firstEnd ≤ k) :
    parseFirstJsonValue py.unlimited (clean (a.cut k)) = .value (docWithout a.first).value := by
  obtain ⟨w, ms, hf⟩ := a.first_object
  obtain ⟨n, hn⟩ : ∃ n, k.val = a.firstEnd + n := ⟨k - a.firstEnd, by omega⟩
  have hcut : a.cut k = '[' :: (a.lead.render ++ (a.first.render ++ a.tail.take n)) := by
    rw [a.cut_succ k (m := a.lead.render.length + (a.first.render.length + n))
      (by rw [hn, firstEnd]; omega), List.take_length_add_append, List.take_length_add_append]
  have hwithout : (docWithout a.first).render =
      '{' :: (w.render ++ membersInit (membersWithout ms)) ++ ['}'] := by
    simp [hf, docWithout, Doc.render, members_render]
  have hstrip : (remove (a.lead.render ++ (a.first.render ++ a.tail.take n))).rdropWhile isSpace =
      a.lead.render ++ ((docWithout a.first).render ++
        (remove (a.tail.take n)).rdropWhile isSpace) := by
    rw [remove_space, remove_doc, hwithout]
    simpa using rdropWhile_append_cons (c := '}')
      (a.lead.render ++ '{' :: (w.render ++ membersInit (membersWithout ms)))
      (remove (a.tail.take n)) (by decide)
  have hdecode := rawDecode_render (docWithout a.first) ((remove (a.tail.take n)).rdropWhile isSpace)
    (by simp [hf, docWithout])
  rw [a.parse_cut k hcut, hstrip,
    parseFirst_append (fun c hc => isSpace_not_bracket (space_chars a.lead c hc))]
  rw [hwithout] at hdecode ⊢
  exact parseFirst_decoded rfl hdecode

/-- Behind a brace that stays open a text never comes back to its level. -/
theorem stays_above_of_isPrefix {cs ds : List Char} (hl : Level ds) (hp : cs <+: ds) :
    StaysAbove Scan.curly 0 {} ('{' :: (remove cs).rdropWhile isSpace) := by
  have halong : Along (within 0 1) {} ('{' :: cs) :=
    (hl.unclosed_curly (s := {}) ⟨rfl, rfl⟩).2.of_isPrefix (List.cons_prefix_cons.mpr ⟨rfl, hp⟩)
  have hremoved := along_remove halong
  rw [remove_cons (by decide)] at hremoved
  refine (hremoved.of_isPrefix (List.cons_prefix_cons.mpr ⟨rfl, List.rdropWhile_prefix _ _⟩)).mono
    fun s c h => ?_
  have := h.2.2
  omega

theorem parse_incomplete (h : ¬a.firstEnd ≤ k) :
    parseFirstJsonValue py.unlimited (clean (a.cut k)) =
      parseFirstJsonValue py.unlimited (a.firstLeft k) := by
  obtain ⟨w, ms, hf⟩ := a.first_object
  have hlead : ∀ c ∈ a.lead.render, isBracket c = false := fun c hc =>
    isSpace_not_bracket (space_chars a.lead c hc)
  rw [firstEnd] at h
  rcases hk : k.val with _ | m
  · have hcut : a.cut k = [] := by rw [cut, hk, List.take_zero]
    simp only [firstLeft, hcut]
    rfl
  by_cases hm : m ≤ a.lead.render.length
  · have hcut : a.cut k = '[' :: a.lead.render.take m := by
      rw [a.cut_succ k hk, List.take_append_of_le_length hm]
    have hleft : a.firstLeft k = [] := by
      rw [firstLeft, hcut, List.drop_eq_nil_of_le (by rw [List.length_cons, List.length_take]; omega)]
      rfl
    have hblank : ∀ c ∈ (remove (a.lead.render.take m)).rdropWhile isSpace, isBracket c = false := by
      intro c hc
      have hkeep : remove (a.lead.render.take m) = a.lead.render.take m := by
        have hlt : ∀ c ∈ a.lead.render.take m, c ≠ '<' := fun c hc =>
          space_not_angle (space_chars a.lead c (List.mem_of_mem_take hc))
        simpa [remove, sub] using remove_append hlt []
      rw [hkeep] at hc
      exact hlead c (List.mem_of_mem_take ((List.rdropWhile_prefix _ _).subset hc))
    rw [a.parse_cut k hcut, hleft]
    simpa using parseFirst_append hblank []
  · obtain ⟨j, rfl⟩ : ∃ j, m = a.lead.render.length + (j + 1) :=
      ⟨m - a.lead.render.length - 1, by omega⟩
    have hfirst : a.first.render = '{' :: (w.render ++ membersInit ms ++ ['}']) := by
      simp [hf, Doc.render, members_render]
    have hlen : j ≤ (w.render ++ membersInit ms).length := by
      rw [hfirst] at h
      simp only [List.length_cons, List.length_append, List.length_nil] at h ⊢
      omega
    have hcut : a.cut k = '[' :: (a.lead.render ++ '{' :: (w.render ++ membersInit ms).take j) := by
      rw [a.cut_succ k hk, List.take_length_add_append, hfirst, List.cons_append, List.append_assoc,
        List.take_succ_cons, List.take_append_of_le_length hlen]
    have hleft : a.firstLeft k =
        (remove ((w.render ++ membersInit ms).take j)).rdropWhile isSpace := by
      rw [firstLeft, hcut, List.drop_succ_cons, List.drop_length_add_append]
      rfl
    rw [a.parse_cut k hcut, hleft, remove_space, remove_cons (by decide),
      rdropWhile_append_cons _ _ (by decide), parseFirst_append hlead]
    exact parseFirst_curly (stays_above_of_isPrefix ((level_space w).append (level_members ms))
      (List.take_prefix _ _))

/-- Nothing is extracted from a cut exactly when it is spoiled. -/
theorem extractsNothing_iff_spoiled :
    extractChanges py (a.cut k) = .ok [] ↔ Spoiled py a k := by
  rw [extractChanges_eq_nil, Spoiled]
  by_cases hmeets : MeetsLimit py (clean (a.cut k))
  · rw [parse_of_limit hmeets]
    exact iff_of_true (fun v hv => by cases hv) (.inl hmeets)
  rw [parse_of_within hmeets, or_iff_right hmeets]
  split
  · next h =>
    rw [a.parse_complete k h]
    simp
  · next h =>
    rw [a.parse_incomplete k h, parseFirst_eq_find]
    refine forall_congr' fun v => imp_congr_left ?_
    cases (readings py.unlimited (a.firstLeft k)).find? fun r => !r.isRejected <;> simp

end ChangesetArray

variable {py : Interpreter}

/-- A complete array is read as it is, but for the leakage tokens in its strings. -/
theorem extractChanges_array (w : Space) (xs : Items) :
    extractChanges py.unlimited (Doc.array w xs).render =
      itemsOf (docWithout (.array w xs)).value >>= normalizeItems := by
  have halong : Along (within 0 0) {} (Doc.array w xs).render := (level_doc _ {} ⟨rfl, rfl⟩).2
  have hremove := remove_doc (.array w xs) []
  rw [List.append_nil, show remove [] = [] from rfl, List.append_nil] at hremove
  have hwithout : (docWithout (.array w xs)).render =
      ('[' :: (w.render ++ itemsInit (itemsWithout xs))) ++ [']'] := by
    simp [docWithout, Doc.render, items_render]
  have hclean : clean (Doc.array w xs).render = (docWithout (.array w xs)).render := by
    rw [clean_legal ⟨rfl, rfl⟩ halong, ← remove, hremove, hwithout]
    exact strip_append_cons _ (by decide) (by simp; decide)
  have hdecode := rawDecode_render (docWithout (.array w xs)) [] (by simp [docWithout])
  rw [List.append_nil] at hdecode
  refine extractChanges_value ?_
  rw [hclean]
  exact parseFirst_decoded rfl hdecode

def word (s : String) : Body :=
  s.toList.filterMap fun c => if h : plain c then some (.raw ⟨c, h⟩) else none

def bareItem (op doctype : String) : Doc :=
  .object [] (.cons (word "op") [] [] (.string (word op)) [] []
    (.last (word "doctype") [] [] (.string (word doctype)) []))

def twoItems : ChangesetArray where
  lead := []
  first := bareItem "create" "Note"
  after := []
  gap := []
  rest := .last (bareItem "delete" "Task") []
  shaped := by decide

/-- Without its last bracket the array is read as its first item alone. -/
theorem missing_bracket_keeps_the_first_item :
    ∃ k : Fin twoItems.text.length, ∀ py : Interpreter,
      extractChanges py.unlimited (twoItems.cut k) =
        .ok [{ op := .str (str "create"), doctype := .str (str "Note"), data := [] }] :=
  ⟨⟨66, by decide⟩, fun _ =>
    (extractChanges_value (twoItems.parse_complete _ (by decide))).trans rfl⟩

end AlfredProcessing.Extract.Truncation
