import AlfredProcessing.Extract.Cleaning

namespace AlfredProcessing.Extract.Leakage

open Lib.Json Lib.JsonText Lib.Brackets Lib.Substitute Cleaning

/-- A string literal without the leakage tokens in it. The first `skip` pieces
belong to a token before them. -/
def bodyWithout : Nat → Body → Body
  | _, [] => []
  | skip + 1, _ :: b => bodyWithout skip b
  | 0, p :: b =>
    match chatTemplateLeakage none (Body.render (p :: b)) with
    | some (n + 1) => bodyWithout n b
    | _ => p :: bodyWithout 0 b

mutual

/-- A JSON text without the leakage tokens in its strings. -/
def docWithout : Doc → Doc
  | .null => .null
  | .bool b => .bool b
  | .number n => .number n
  | .string b => .string (bodyWithout 0 b)
  | .emptyArray w => .emptyArray w
  | .array w xs => .array w (itemsWithout xs)
  | .emptyObject w => .emptyObject w
  | .object w ms => .object w (membersWithout ms)

def itemsWithout : Items → Items
  | .last d after => .last (docWithout d) after
  | .cons d after lead rest => .cons (docWithout d) after lead (itemsWithout rest)

def membersWithout : Members → Members
  | .last key w₁ w₂ d after => .last (bodyWithout 0 key) w₁ w₂ (docWithout d) after
  | .cons key w₁ w₂ d after lead rest =>
    .cons (bodyWithout 0 key) w₁ w₂ (docWithout d) after lead (membersWithout rest)

end

def remove (cs : List Char) : List Char := sub chatTemplateLeakage [] cs

variable {cs ds : List Char} {c : Char} {prev : Option Char} {n : Nat}

theorem subFrom_eq_remove : subFrom chatTemplateLeakage [] prev 0 cs = remove cs :=
  leakage_forward.subFrom

theorem along_remove {s : Scan} {a b : Int} (h : Along (within a b) s cs) :
    Along (within a b) s (remove cs) :=
  (along_leakage h (by simp) (by simp)).1

theorem remove_cons (hc : c ≠ '<') : remove (c :: cs) = c :: remove cs := by
  rw [remove, sub, subFrom_keep (leakage_none hc), subFrom_eq_remove]

theorem remove_append (hc : ∀ c ∈ cs, c ≠ '<') (ds : List Char) : remove (cs ++ ds) = cs ++ remove ds := by
  induction cs with
  | nil => rfl
  | cons c cs ih =>
    obtain ⟨hc, hcs⟩ := List.forall_mem_cons.mp hc
    rw [List.cons_append, remove_cons hc, ih hcs, List.cons_append]

theorem remove_space (w : Space) : remove (w.render ++ ds) = w.render ++ remove ds := by
  refine remove_append (fun c hc => ?_) ds
  obtain ⟨d, -, rfl⟩ := List.mem_map.mp hc
  intro he
  exact absurd (he ▸ d.2) (by decide)

theorem remove_number (n : Number) : remove (n.render ++ ds) = n.render ++ remove ds := by
  refine remove_append (fun c hc => ?_) ds
  rintro rfl
  exact absurd (Number.chars n _ hc) (by decide)

theorem isPrefixOf_quote {t : List Char} (ht : ∀ c ∈ t, tokenChar c) (cs ds : List Char) :
    t.isPrefixOf (cs ++ '"' :: ds) = t.isPrefixOf cs := by
  induction t generalizing cs with
  | nil => simp
  | cons x t ih =>
    obtain ⟨hx, ht⟩ := List.forall_mem_cons.mp ht
    cases cs with
    | nil =>
      have hne : x ≠ '"' := by
        rintro rfl
        exact absurd hx (by decide)
      simp [List.isPrefixOf, hne]
    | cons c cs => simp [List.isPrefixOf, ih ht]

/-- Whether a token stands at the beginning of a body does not depend on what
follows the closing quote. -/
theorem leakage_quote (cs ds : List Char) :
    chatTemplateLeakage prev (cs ++ '"' :: ds) = chatTemplateLeakage none cs := by
  have hfind (ts : List (List Char)) (hts : ∀ t ∈ ts, ∀ c ∈ t, tokenChar c) :
      (ts.find? fun t => t.isPrefixOf (cs ++ '"' :: ds)) = ts.find? fun t => t.isPrefixOf cs := by
    induction ts with
    | nil => rfl
    | cons t ts ih =>
      obtain ⟨ht, hts⟩ := List.forall_mem_cons.mp hts
      rw [List.find?_cons, List.find?_cons, isPrefixOf_quote ht, ih hts]
  simp only [chatTemplateLeakage, hfind leakageTokens fun t ht => (tokens_plain t ht).2]

theorem token_pieces {t : List Char} (b : Body) (ht : ∀ c ∈ t, tokenChar c) (hp : t <+: b.render) :
    t.length ≤ b.length ∧ ∀ p ∈ b.take t.length, ∃ c, p = .raw c := by
  induction t generalizing b with
  | nil => simp
  | cons x t ih =>
    obtain ⟨hx, ht⟩ := List.forall_mem_cons.mp ht
    have hslash : x ≠ '\\' := by
      rintro rfl
      exact absurd hx (by decide)
    cases b with
    | nil => simp [Body.render] at hp
    | cons p b =>
      cases p with
      | raw c =>
        obtain ⟨hlen, hraw⟩ := ih b ht (List.cons_prefix_cons.mp hp).2
        refine ⟨Nat.succ_le_succ hlen, fun p hp => ?_⟩
        rw [List.length_cons, List.take_succ_cons] at hp
        rcases List.mem_cons.mp hp with rfl | hp
        · exact ⟨c, rfl⟩
        · exact hraw p hp
      | escape e => exact absurd (List.cons_prefix_cons.mp hp).1 hslash
      | unicode => exact absurd (List.cons_prefix_cons.mp hp).1 hslash

theorem piece_chars (p : Piece) (hp : ∀ c, p ≠ .raw c) : ∀ c ∈ p.render, c ≠ '<' := by
  have hne {P : Char → Prop} (h : { c : Char // P c }) (hlt : ¬P '<') : h.1 ≠ '<' :=
    fun he => hlt (he ▸ h.2)
  cases p with
  | raw c => exact absurd rfl (hp c)
  | escape e =>
    simp only [Piece.render, List.forall_mem_cons]
    exact ⟨by decide, hne e (by decide), by simp⟩
  | unicode a b c d =>
    simp only [Piece.render, List.forall_mem_cons]
    exact ⟨by decide, by decide, hne a (by decide), hne b (by decide), hne c (by decide),
      hne d (by decide), by simp⟩

theorem remove_body (b : Body) (ds : List Char) (hn : n ≤ b.length)
    (hraw : ∀ p ∈ b.take n, ∃ c, p = .raw c) :
    subFrom chatTemplateLeakage [] prev n (b.render ++ '"' :: ds) =
      (bodyWithout n b).render ++ '"' :: remove ds := by
  induction b generalizing prev n with
  | nil =>
    obtain rfl : n = 0 := Nat.le_zero.mp hn
    exact subFrom_eq_remove.trans (remove_cons (by decide))
  | cons p b ih =>
    have hrender : Body.render (p :: b) = p.render ++ Body.render b := List.flatMap_cons
    cases n with
    | succ n =>
      obtain ⟨c, rfl⟩ := hraw p (by simp)
      refine ih (Nat.le_of_succ_le_succ hn) fun q hq => hraw q ?_
      rw [List.take_succ_cons]
      exact List.mem_cons_of_mem _ hq
    | zero =>
      cases hm : chatTemplateLeakage none (Body.render (p :: b)) with
      | none =>
        have hkeep : bodyWithout 0 (p :: b) = p :: bodyWithout 0 b := by
          simp only [bodyWithout, hm]
        have hrest := @ih none 0 (Nat.zero_le _) (by simp)
        rw [hkeep, hrender, List.append_assoc]
        by_cases hp : ∃ c, p = .raw c
        · obtain ⟨c, rfl⟩ := hp
          have hnone : chatTemplateLeakage prev (c.1 :: (Body.render b ++ '"' :: ds)) = none :=
            (leakage_quote (Body.render (.raw c :: b)) ds).trans hm
          exact (subFrom_keep hnone).trans (congrArg _ (leakage_forward.subFrom.trans hrest))
        · rw [subFrom_eq_remove, remove_append (piece_chars p fun c he => hp ⟨c, he⟩)]
          have hcons : Body.render (p :: bodyWithout 0 b) = p.render ++ (bodyWithout 0 b).render :=
            List.flatMap_cons
          rw [hcons, List.append_assoc, ← hrest, subFrom_eq_remove]
      | some m =>
        obtain ⟨t, hhead, hchars, rfl, hpre⟩ := leakage_match hm
        obtain ⟨hlen, hpieces⟩ := token_pieces _ hchars hpre
        cases t with
        | nil => cases hhead
        | cons x t =>
          obtain ⟨c, rfl⟩ := hpieces p (by simp)
          have hdrop : bodyWithout 0 (.raw c :: b) = bodyWithout t.length b := by
            simp only [bodyWithout, hm, List.length_cons]
          have hmatch : chatTemplateLeakage prev (c.1 :: (Body.render b ++ '"' :: ds)) =
              some (t.length + 1) :=
            (leakage_quote (Body.render (.raw c :: b)) ds).trans hm
          rw [hdrop]
          refine (subFrom_match hmatch).trans (ih (Nat.le_of_succ_le_succ hlen) fun q hq => ?_)
          refine hpieces q ?_
          rw [List.length_cons, List.take_succ_cons]
          exact List.mem_cons_of_mem _ hq

theorem remove_quoted (b : Body) (ds : List Char) :
    remove (b.render ++ '"' :: ds) = (bodyWithout 0 b).render ++ '"' :: remove ds :=
  remove_body b ds (Nat.zero_le _) (by simp)

mutual

theorem remove_doc : ∀ (d : Doc) (ds : List Char),
    remove (d.render ++ ds) = (docWithout d).render ++ remove ds
  | .null, ds => remove_append (by decide) ds
  | .bool true, ds => remove_append (by decide) ds
  | .bool false, ds => remove_append (by decide) ds
  | .number n, ds => remove_number n
  | .string b, ds => by
    simp only [Doc.render, docWithout, List.cons_append, List.append_assoc, List.nil_append]
    rw [remove_cons (by decide), remove_quoted]
  | .emptyArray w, ds => by
    simp only [Doc.render, docWithout, List.cons_append, List.append_assoc, List.nil_append]
    rw [remove_cons (by decide), remove_space, remove_cons (by decide)]
  | .array w xs, ds => by
    simp only [Doc.render, docWithout, List.cons_append, List.append_assoc]
    rw [remove_cons (by decide), remove_space, remove_items]
  | .emptyObject w, ds => by
    simp only [Doc.render, docWithout, List.cons_append, List.append_assoc, List.nil_append]
    rw [remove_cons (by decide), remove_space, remove_cons (by decide)]
  | .object w ms, ds => by
    simp only [Doc.render, docWithout, List.cons_append, List.append_assoc]
    rw [remove_cons (by decide), remove_space, remove_members]

theorem remove_items : ∀ (xs : Items) (ds : List Char),
    remove (xs.render ++ ds) = (itemsWithout xs).render ++ remove ds
  | .last d after, ds => by
    simp only [Items.render, itemsWithout, List.append_assoc, List.cons_append, List.nil_append]
    rw [remove_doc, remove_space, remove_cons (by decide)]
  | .cons d after lead rest, ds => by
    simp only [Items.render, itemsWithout, List.append_assoc, List.cons_append]
    rw [remove_doc, remove_space, remove_cons (by decide), remove_space, remove_items]

theorem remove_members : ∀ (ms : Members) (ds : List Char),
    remove (ms.render ++ ds) = (membersWithout ms).render ++ remove ds
  | .last key w₁ w₂ d after, ds => by
    simp only [Members.render, membersWithout, List.append_assoc, List.cons_append, List.nil_append]
    rw [remove_cons (by decide), remove_quoted, remove_space, remove_cons (by decide),
      remove_space, remove_doc, remove_space, remove_cons (by decide)]
  | .cons key w₁ w₂ d after lead rest, ds => by
    simp only [Members.render, membersWithout, List.append_assoc, List.cons_append]
    rw [remove_cons (by decide), remove_quoted, remove_space, remove_cons (by decide),
      remove_space, remove_doc, remove_space, remove_cons (by decide), remove_space,
      remove_members]

end

end AlfredProcessing.Extract.Leakage
