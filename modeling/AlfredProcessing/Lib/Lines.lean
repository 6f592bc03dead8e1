import Mathlib.Data.List.DropRight

namespace AlfredProcessing.Lib.Lines

variable (ends : Char → Bool)

/-- The lines of a text, with the characters that end them. A line feed behind a carriage return
ends no other line. -/
def linesBy : List Char → List (List Char)
  | [] => []
  | '\r' :: '\n' :: cs => ['\r', '\n'] :: linesBy cs
  | c :: cs =>
    if ends c then [c] :: linesBy cs
    else
      match linesBy cs with
      | [] => [[c]]
      | l :: ls => (c :: l) :: ls

def fileEnd (c : Char) : Bool := c = '\n' || c = '\r'

/-- The text that is read in place of what is in the file: every line there ends in a line feed. -/
def universal : List Char → List Char
  | [] => []
  | '\r' :: '\n' :: cs => '\n' :: universal cs
  | c :: cs => (if c = '\r' then '\n' else c) :: universal cs

def body (l : List Char) : List Char := l.rdropWhile fileEnd

/-- A line as it is read: with a line feed, where anything ends it. -/
def normal (l : List Char) : List Char := if body l = l then l else body l ++ ['\n']

variable {ends} {l a b cs : List Char} {c : Char} {ls : List (List Char)}

theorem linesBy_cons (h : ¬(c = '\r' ∧ cs.head? = some '\n')) : linesBy ends (c :: cs) =
    if ends c then [c] :: linesBy ends cs
    else
      match linesBy ends cs with
      | [] => [[c]]
      | l :: ls => (c :: l) :: ls := by
  rw [linesBy]
  rintro t rfl rfl
  exact h ⟨rfl, rfl⟩

theorem flatten_linesBy (cs : List Char) : (linesBy ends cs).flatten = cs := by
  fun_induction linesBy ends cs with
  | case1 => rfl
  | case2 cs ih => rw [List.flatten_cons, ih]; rfl
  | case3 c cs h hc ih => rw [List.flatten_cons, ih]; rfl
  | case4 c cs h hc hnil ih =>
    rw [hnil] at ih
    rw [← ih]
    rfl
  | case5 c cs h hc l ls hcons ih =>
    rw [hcons] at ih
    rw [← ih]
    rfl

theorem linesBy_ne_nil (h : l ∈ linesBy ends cs) : l ≠ [] := by
  fun_induction linesBy ends cs with
  | case1 => cases h
  | case2 cs ih =>
    obtain rfl | h := List.mem_cons.mp h
    · exact List.cons_ne_nil _ _
    · exact ih h
  | case3 c cs hcr hc ih =>
    obtain rfl | h := List.mem_cons.mp h
    · exact List.cons_ne_nil _ _
    · exact ih h
  | case4 c cs hcr hc hnil ih =>
    rw [List.mem_singleton.mp h]
    exact List.cons_ne_nil _ _
  | case5 c cs hcr hc l' ls hcons ih =>
    obtain rfl | h := List.mem_cons.mp h
    · exact List.cons_ne_nil _ _
    · exact ih (hcons ▸ List.mem_cons_of_mem _ h)

theorem linesBy_append (hc : ends c) (hcr : c ≠ '\r') (ha : '\r' ∉ a) (b : List Char) :
    linesBy ends (a ++ c :: b) = linesBy ends (a ++ [c]) ++ linesBy ends b := by
  induction a with
  | nil =>
    rw [List.nil_append, List.nil_append, linesBy_cons fun h => hcr h.1, linesBy_cons fun h => hcr h.1, if_pos hc,
      if_pos hc]
    rfl
  | cons x a ih =>
    obtain ⟨hx, ha⟩ : x ≠ '\r' ∧ '\r' ∉ a := by simpa [eq_comm] using ha
    rw [List.cons_append, List.cons_append, linesBy_cons fun h => hx h.1, linesBy_cons fun h => hx h.1, ih ha]
    split_ifs
    · rfl
    · cases hlines : linesBy ends (a ++ [c]) with
      | nil =>
        have hflat := congrArg List.flatten hlines
        rw [flatten_linesBy] at hflat
        simp at hflat
      | cons l ls => rfl

theorem linesBy_open (h : ∀ x ∈ b, ends x = false) (hcr : '\r' ∉ b) (hne : b ≠ []) : linesBy ends b = [b] := by
  induction b with
  | nil => exact absurd rfl hne
  | cons x b ih =>
    obtain ⟨hx, hb⟩ := List.forall_mem_cons.mp h
    obtain ⟨hxcr, hbcr⟩ : x ≠ '\r' ∧ '\r' ∉ b := by simpa [eq_comm] using hcr
    rw [linesBy_cons fun h => hxcr h.1, if_neg (by simp [hx])]
    cases b with
    | nil => rfl
    | cons y b => rw [ih hb hbcr (List.cons_ne_nil _ _)]

theorem linesBy_ended (h : ∀ x ∈ b, ends x = false) (hcr : '\r' ∉ b) (hc : ends c) (hccr : c ≠ '\r') :
    linesBy ends (b ++ [c]) = [b ++ [c]] := by
  induction b with
  | nil =>
    rw [List.nil_append, linesBy_cons fun h => hccr h.1, if_pos hc]
    rfl
  | cons x b ih =>
    obtain ⟨hx, hb⟩ := List.forall_mem_cons.mp h
    obtain ⟨hxcr, hbcr⟩ : x ≠ '\r' ∧ '\r' ∉ b := by simpa [eq_comm] using hcr
    rw [List.cons_append, linesBy_cons fun h => hxcr h.1, if_neg (by simp [hx]), ih hb hbcr]

def Open (l : List Char) : Prop := l ≠ [] ∧ ∀ x ∈ l, fileEnd x = false

def Ended (l : List Char) : Prop := ∃ b, (∀ x ∈ b, fileEnd x = false) ∧ l = b ++ ['\n']

/-- Lines that end in a line feed each, but for the last, which may be open. -/
def Lined : List (List Char) → Prop
  | [] => True
  | [l] => Open l ∨ Ended l
  | l :: ls => Ended l ∧ Lined ls

theorem lined_concat {last : List Char} : Lined (ls ++ [last]) ↔ (∀ l ∈ ls, Ended l) ∧ (Open last ∨ Ended last) := by
  induction ls with
  | nil => exact ⟨fun h => ⟨List.forall_mem_nil _, h⟩, And.right⟩
  | cons l ls ih =>
    have hcons : Lined (l :: (ls ++ [last])) ↔ Ended l ∧ Lined (ls ++ [last]) := by
      cases ls <;> rfl
    rw [List.cons_append, hcons, ih, List.forall_mem_cons, and_assoc]

theorem Open.getLast_ne (h : Open l) : l.getLast? ≠ some '\n' := fun hlast => by
  have hend := h.2 _ (List.mem_of_getLast? hlast)
  cases hend

theorem Ended.getLast (h : Ended l) : l.getLast? = some '\n' := by
  obtain ⟨b, -, rfl⟩ := h
  exact List.getLast?_concat

theorem not_mem_of_fileEnd (h : ∀ x ∈ b, fileEnd x = false) : '\r' ∉ b := fun hmem => by
  have hend := h _ hmem
  cases hend

theorem linesBy_flatten (h : Lined ls) : linesBy fileEnd ls.flatten = ls := by
  induction ls with
  | nil => rfl
  | cons l ls ih =>
    cases ls with
    | nil =>
      rw [List.flatten_cons, List.flatten_nil, List.append_nil]
      obtain ⟨hne, hopen⟩ | ⟨b, hb, rfl⟩ := h
      · exact linesBy_open hopen (not_mem_of_fileEnd hopen) hne
      · exact linesBy_ended hb (not_mem_of_fileEnd hb) rfl (by decide)
    | cons l' ls =>
      obtain ⟨⟨b, hb, rfl⟩, hrest⟩ := h
      rw [List.flatten_cons, List.append_assoc, List.singleton_append,
        linesBy_append rfl (by decide) (not_mem_of_fileEnd hb), ih hrest,
        linesBy_ended hb (not_mem_of_fileEnd hb) rfl (by decide)]
      rfl

theorem body_cons (hc : fileEnd c = false) (l : List Char) : body (c :: l) = c :: body l := by
  unfold body
  induction l using List.reverseRecOn with
  | nil => exact List.rdropWhile_concat_neg _ [] _ (by simp [hc])
  | append_singleton l x ih =>
    rw [← List.cons_append]
    by_cases hx : fileEnd x
    · rw [List.rdropWhile_concat_pos _ _ _ hx, List.rdropWhile_concat_pos _ _ _ hx, ih]
    · rw [List.rdropWhile_concat_neg _ _ _ hx, List.rdropWhile_concat_neg _ _ _ hx, List.cons_append]

theorem body_open (h : ∀ x ∈ b, fileEnd x = false) : body b = b := by
  induction b with
  | nil => rfl
  | cons x b ih =>
    obtain ⟨hx, hb⟩ := List.forall_mem_cons.mp h
    rw [body_cons hx, ih hb]

theorem body_append {e : List Char} (h : ∀ x ∈ b, fileEnd x = false) (he : ∀ x ∈ e, fileEnd x) : body (b ++ e) = b := by
  induction b with
  | nil => exact List.rdropWhile_eq_nil_iff.mpr he
  | cons x b ih =>
    obtain ⟨hx, hb⟩ := List.forall_mem_cons.mp h
    rw [List.cons_append, body_cons hx, ih hb]

theorem body_keep (h : body b ≠ []) (a : List Char) : body (a ++ b) = a ++ body b := by
  unfold body at h ⊢
  induction b using List.reverseRecOn with
  | nil => exact absurd rfl h
  | append_singleton b x ih =>
    rw [← List.append_assoc]
    by_cases hx : fileEnd x
    · rw [List.rdropWhile_concat_pos _ _ _ hx] at h ⊢
      rw [List.rdropWhile_concat_pos _ _ _ hx, ih h]
    · rw [List.rdropWhile_concat_neg _ _ _ hx, List.rdropWhile_concat_neg _ _ _ hx, List.append_assoc]

theorem body_append_open (h : ∀ x ∈ b, fileEnd x = false) (l : List Char) : body (b ++ l) = b ++ body l := by
  induction b with
  | nil => rfl
  | cons x b ih =>
    obtain ⟨hx, hb⟩ := List.forall_mem_cons.mp h
    rw [List.cons_append, body_cons hx, ih hb, List.cons_append]

theorem normal_cons (hc : fileEnd c = false) (l : List Char) : normal (c :: l) = c :: normal l := by
  unfold normal
  rw [body_cons hc]
  by_cases h : body l = l
  · rw [if_pos h, if_pos (congrArg _ h)]
  · rw [if_neg h, if_neg fun heq => h (List.cons.inj heq).2]
    rfl

theorem linesBy_universal (cs : List Char) : linesBy fileEnd (universal cs) = (linesBy fileEnd cs).map normal := by
  fun_induction universal cs with
  | case1 => rfl
  | case2 cs ih =>
    have hend : fileEnd '\n' = true := rfl
    rw [linesBy_cons (by simp), if_pos hend, linesBy, ih]
    rfl
  | case3 c cs h ih =>
    have hhead : ¬(c = '\r' ∧ cs.head? = some '\n') := by
      rintro ⟨rfl, hcs⟩
      obtain ⟨t, rfl⟩ := List.head?_eq_some_iff.mp hcs
      exact h t rfl rfl
    have hnocr : (if c = '\r' then '\n' else c) ≠ '\r' := by
      split_ifs with hc
      · decide
      · exact hc
    rw [linesBy_cons hhead, linesBy_cons fun hcr => hnocr hcr.1, ih]
    by_cases hend : fileEnd c
    · have hend' : fileEnd (if c = '\r' then '\n' else c) := by
        split_ifs
        · rfl
        · exact hend
      have hnormal : normal [c] = [if c = '\r' then '\n' else c] := by
        unfold fileEnd at hend
        obtain rfl | rfl : c = '\n' ∨ c = '\r' := by simpa using hend
        · rfl
        · rfl
      rw [if_pos hend, if_pos hend', List.map_cons, hnormal]
    · have hne : c ≠ '\r' := fun hc => hend (by rw [hc]; rfl)
      have hc : fileEnd c = false := by simpa using hend
      rw [if_neg hne, if_neg hend, if_neg hend]
      cases linesBy fileEnd cs with
      | nil =>
        show [[c]] = [normal [c]]
        rw [normal_cons hc]
        rfl
      | cons l ls =>
        show (c :: normal l) :: ls.map normal = normal (c :: l) :: ls.map normal
        rw [normal_cons hc]

theorem lined_linesBy (h : '\r' ∉ cs) : Lined (linesBy fileEnd cs) := by
  induction cs with
  | nil => trivial
  | cons c cs ih =>
    obtain ⟨hc, hcs⟩ : c ≠ '\r' ∧ '\r' ∉ cs := by simpa [eq_comm] using h
    have hrest := ih hcs
    rw [linesBy_cons fun h => hc h.1]
    by_cases hend : fileEnd c
    · obtain rfl : c = '\n' := by
        unfold fileEnd at hend
        simpa [hc] using hend
      have hline : Ended ['\n'] := ⟨[], List.forall_mem_nil _, rfl⟩
      rw [if_pos hend]
      cases hlines : linesBy fileEnd cs with
      | nil => exact .inr hline
      | cons l ls =>
        rw [hlines] at hrest
        exact ⟨hline, hrest⟩
    · have hopen : fileEnd c = false := by simpa using hend
      have hcons {l : List Char} (hl : Ended l) : Ended (c :: l) := by
        obtain ⟨b, hb, rfl⟩ := hl
        exact ⟨c :: b, List.forall_mem_cons.mpr ⟨hopen, hb⟩, rfl⟩
      rw [if_neg hend]
      cases hlines : linesBy fileEnd cs with
      | nil => exact .inl ⟨List.cons_ne_nil _ _, List.forall_mem_cons.mpr ⟨hopen, List.forall_mem_nil _⟩⟩
      | cons l ls =>
        rw [hlines] at hrest
        cases ls with
        | nil =>
          obtain ⟨-, hl⟩ | hl := hrest
          · exact .inl ⟨List.cons_ne_nil _ _, List.forall_mem_cons.mpr ⟨hopen, hl⟩⟩
          · exact .inr (hcons hl)
        | cons l' ls => exact ⟨hcons hrest.1, hrest.2⟩

theorem not_mem_universal (cs : List Char) : '\r' ∉ universal cs := by
  fun_induction universal cs with
  | case1 => exact List.not_mem_nil
  | case2 cs ih => exact List.not_mem_cons_of_ne_of_not_mem (by decide) ih
  | case3 c cs h ih =>
    refine List.not_mem_cons_of_ne_of_not_mem ?_ ih
    split_ifs with hc
    · decide
    · exact Ne.symm hc

theorem lined_universal (cs : List Char) : Lined (linesBy fileEnd (universal cs)) :=
  lined_linesBy (not_mem_universal cs)

theorem mem_linesBy (h : l ∈ linesBy fileEnd cs) :
    ∃ b e, l = b ++ e ∧ (∀ x ∈ b, fileEnd x = false) ∧ (e = [] ∨ e = ['\n'] ∨ e = ['\r'] ∨ e = ['\r', '\n']) := by
  fun_induction linesBy fileEnd cs generalizing l with
  | case1 => cases h
  | case2 cs ih =>
    obtain rfl | h := List.mem_cons.mp h
    · exact ⟨[], _, rfl, List.forall_mem_nil _, .inr (.inr (.inr rfl))⟩
    · exact ih h
  | case3 c cs hcr hc ih =>
    obtain rfl | h := List.mem_cons.mp h
    · unfold fileEnd at hc
      obtain rfl | rfl : c = '\n' ∨ c = '\r' := by simpa using hc
      · exact ⟨[], _, rfl, List.forall_mem_nil _, .inr (.inl rfl)⟩
      · exact ⟨[], _, rfl, List.forall_mem_nil _, .inr (.inr (.inl rfl))⟩
    · exact ih h
  | case4 c cs hcr hc hnil ih =>
    obtain rfl := List.mem_singleton.mp h
    exact ⟨[c], [], rfl, List.forall_mem_cons.mpr ⟨by simpa using hc, List.forall_mem_nil _⟩, .inl rfl⟩
  | case5 c cs hcr hc l' ls hcons ih =>
    have hopen : fileEnd c = false := by simpa using hc
    obtain rfl | h := List.mem_cons.mp h
    · obtain ⟨b, e, hl, hb, he⟩ := ih (hcons ▸ List.mem_cons_self)
      exact ⟨c :: b, e, congrArg _ hl, List.forall_mem_cons.mpr ⟨hopen, hb⟩, he⟩
    · exact ih (hcons ▸ List.mem_cons_of_mem _ h)

theorem normal_line (h : l ∈ linesBy fileEnd cs) :
    body (normal l) = body l ∧ '\r' ∉ normal l ∧ ('\r' ∉ l → normal l = l) := by
  obtain ⟨b, e, rfl, hb, he⟩ := mem_linesBy h
  have hends : ∀ x ∈ e, fileEnd x := by
    obtain rfl | rfl | rfl | rfl := he <;> decide
  have hbody : body (b ++ e) = b := body_append hb hends
  have hnewline : ∀ x ∈ ['\n'], fileEnd x := by decide
  have hcr : '\r' ∉ b := not_mem_of_fileEnd hb
  have hended : '\r' ∉ b ++ ['\n'] := fun hmem => by
    obtain hmem | hmem := List.mem_append.mp hmem
    · exact hcr hmem
    · cases List.mem_singleton.mp hmem
  unfold normal
  rw [hbody]
  obtain rfl | rfl | rfl | rfl := he
  · rw [List.append_nil, if_pos rfl]
    exact ⟨body_open hb, hcr, fun _ => rfl⟩
  · rw [if_neg (by simp)]
    exact ⟨hbody, hended, fun _ => rfl⟩
  · rw [if_neg (by simp)]
    exact ⟨body_append hb hnewline, hended, fun hno => absurd (List.mem_append_right _ List.mem_cons_self) hno⟩
  · rw [if_neg (by simp)]
    exact ⟨body_append hb hnewline, hended, fun hno => absurd (List.mem_append_right _ List.mem_cons_self) hno⟩

end AlfredProcessing.Lib.Lines
