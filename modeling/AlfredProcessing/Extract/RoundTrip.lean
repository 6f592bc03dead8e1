import AlfredProcessing.Extract.Truncation
import AlfredProcessing.Lib.Fallible

namespace AlfredProcessing.Extract.RoundTrip

open Lib.Json Lib.JsonText Lib.Brackets Lib.Substitute Lib.Fallible Cleaning Leakage Parse Changes

section Around

variable {cs ds : List Char} {prev : Option Char} {n : Nat} {a b : Int} {s : Scan}

theorem leakage_avoids : Avoids chatTemplateLeakage '[' := by
  intro prev cs n h hmem
  obtain ⟨t, -, hchars, rfl, ds, rfl⟩ := leakage_match h
  rw [List.take_left] at hmem
  exact absurd (hchars _ hmem) (by decide)

theorem closeLine_space (h : closeLine cs = some n) : ∀ c ∈ cs.take n, isSpace c := by
  have hle : n ≤ (cs.takeWhile isSpace).length := by
    unfold closeLine at h
    dsimp only at h
    split_ifs at h with hall hline
    · cases h
      exact hall.ge
    · cases h
      rw [List.length_dropLast]
      exact (Nat.sub_le _ _).trans (List.rdropWhile_prefix _ _).length_le
  intro c hc
  have hpre : cs.takeWhile isSpace <+: cs := List.takeWhile_prefix isSpace
  obtain ⟨rest, hrest⟩ := hpre
  rw [← hrest, List.take_append_of_le_length hle] at hc
  exact List.mem_takeWhile_imp (List.mem_of_mem_take hc)

theorem fence_free (h : fence cs = some n) : '[' ∉ cs.take n := by
  unfold fence at h
  split at h
  · next cs =>
    obtain ⟨l, hl, hline⟩ := List.exists_of_findSome?_eq_some h
    split_ifs at hline with hpre
    obtain ⟨k, hk, rfl⟩ := Option.map_eq_some_iff.mp hline
    obtain ⟨rest, rfl⟩ := List.isPrefixOf_iff_prefix.mp hpre
    rw [List.drop_left] at hk
    have htake : ('`' :: '`' :: '`' :: (l ++ rest)).take (3 + l.length + k) =
        '`' :: '`' :: '`' :: (l ++ rest.take k) := by
      rw [show 3 + l.length + k = (l.length + k) + 1 + 1 + 1 by omega]
      simp [List.take_append]
    rw [htake]
    intro hmem
    have hletters : ∀ l ∈ fenceLanguages, '[' ∉ l := by decide
    simp only [List.mem_cons, List.mem_append] at hmem
    obtain h | h | h | h | h := hmem
    · exact absurd h (by decide)
    · exact absurd h (by decide)
    · exact absurd h (by decide)
    · exact hletters l hl h
    · exact absurd (closeLine_space hk _ h) (by decide)
  · cases h

theorem fenceLine_avoids : Avoids codeFenceLine '[' := by
  intro prev cs n h hmem
  unfold codeFenceLine at h
  split_ifs at h
  obtain ⟨m, hm, rfl⟩ := Option.map_eq_some_iff.mp h
  have htake : (cs.takeWhile isSpace ++ cs.dropWhile isSpace).take ((cs.takeWhile isSpace).length + m) =
      cs.takeWhile isSpace ++ (cs.dropWhile isSpace).take m := List.take_length_add_append m
  rw [List.takeWhile_append_dropWhile] at htake
  rw [htake] at hmem
  obtain hmem | hmem := List.mem_append.mp hmem
  · exact absurd (List.mem_takeWhile_imp hmem) (by decide)
  · exact fence_free hm hmem

/-- In front of any text, JSON that ends in a visible character loses no line. -/
theorem subFrom_fence_append (h : Along (within a b) s cs) (hp : prev = none ∨ prev = some '\n' → s.code)
    (hlast : ∀ c ∈ cs.getLast?, isSpace c = false) (ds : List Char) :
    subFrom codeFenceLine [] prev 0 (cs ++ ds) = cs ++ subFrom codeFenceLine [] (cs.getLast?.or prev) 0 ds := by
  induction cs generalizing s prev with
  | nil => rfl
  | cons c cs ih =>
    have hvisible : (c :: cs).dropWhile isSpace ≠ [] := fun hnil => by
      have hall := List.dropWhile_eq_nil_iff.mp hnil
      have hend := hlast ((c :: cs).getLast (by simp)) (List.getLast?_eq_some_getLast (by simp))
      rw [hall _ (List.getLast_mem (by simp))] at hend
      cases hend
    have hdrop : ((c :: cs) ++ ds).dropWhile isSpace = (c :: cs).dropWhile isSpace ++ ds := by
      rw [List.dropWhile_append, if_neg (by simpa using hvisible)]
    have hnone : codeFenceLine prev (c :: cs ++ ds) = none := by
      unfold codeFenceLine
      split
      · next hprev =>
        have hhead := visible_ne (hp hprev) h
        rw [hdrop, fence_none_of_head, Option.map_none]
        rwa [List.head?_append_of_ne_nil _ hvisible]
      · rfl
    have hcode : some c = none ∨ some c = some '\n' → (s.step c).code := by
      rintro (hc | hc)
      · cases hc
      · obtain rfl : c = '\n' := by simpa using hc
        have hs := code_newline h.1
        rw [step_neutral hs.2 (by decide)]
        exact hs
    have hend : ∀ d ∈ cs.getLast?, isSpace d = false := fun d hd => hlast d (by
      cases cs with
      | nil => cases hd
      | cons e cs => rwa [List.getLast?_cons_cons])
    have hprev : (c :: cs).getLast?.or prev = cs.getLast?.or (some c) := by
      cases cs with
      | nil => rfl
      | cons e cs => simp [List.getLast?_cons]
    rw [List.cons_append] at hnone ⊢
    rw [subFrom_keep hnone, ih h.2 hcode hend, hprev, List.cons_append]

theorem dropWhile_append_visible (pre : List Char) {c : Char} (hc : isSpace c = false) :
    (pre ++ c :: cs).dropWhile isSpace = pre.dropWhile isSpace ++ c :: cs := by
  rw [List.dropWhile_append]
  split_ifs with hempty
  · rw [List.isEmpty_iff.mp hempty, List.nil_append, List.dropWhile_cons_of_neg (by simp [hc])]
  · rfl

theorem clean_around {body : List Char} (h : Along (within a b) {} ('[' :: (body ++ [']'])))
    (hremove : ∀ suf, remove (('[' :: (body ++ [']'])) ++ suf) = ('[' :: (body ++ [']'])) ++ remove suf)
    (pre suf : List Char) : ∃ pre' suf',
    clean (pre ++ (('[' :: (body ++ [']'])) ++ suf)) = pre' ++ (('[' :: (body ++ [']'])) ++ suf') ∧ pre' ⊆ pre := by
  obtain ⟨pre₁, prev₁, htokens, hsub₁⟩ : ∃ pre₁ prev₁,
      sub chatTemplateLeakage [] (pre ++ (('[' :: (body ++ [']'])) ++ suf)) =
        pre₁ ++ subFrom chatTemplateLeakage [] prev₁ 0 (('[' :: (body ++ [']'])) ++ suf) ∧ pre₁ ⊆ pre :=
    leakage_avoids.subFrom_append (by simp)
  obtain ⟨pre₂, prev₂, hlines, hsub₂⟩ : ∃ pre₂ prev₂,
      sub codeFenceLine [] (pre₁ ++ (('[' :: (body ++ [']'])) ++ remove suf)) =
        pre₂ ++ subFrom codeFenceLine [] prev₂ 0 (('[' :: (body ++ [']'])) ++ remove suf) ∧ pre₂ ⊆ pre₁ :=
    fenceLine_avoids.subFrom_append (by simp)
  have hlast : ∀ c ∈ ('[' :: (body ++ [']'])).getLast?, isSpace c = false := by
    rw [← List.cons_append, List.getLast?_concat]
    simp
    decide
  obtain ⟨left, hkeep⟩ : ∃ left, subFrom codeFenceLine [] prev₂ 0 (('[' :: (body ++ [']'])) ++ remove suf) =
      ('[' :: (body ++ [']'])) ++ left :=
    ⟨_, subFrom_fence_append h (fun _ => ⟨rfl, rfl⟩) hlast (remove suf)⟩
  refine ⟨pre₂.dropWhile isSpace, left.rdropWhile isSpace, ?_, ?_⟩
  · rw [clean, htokens, subFrom_eq_remove, hremove, hlines, hkeep, strip]
    simp only [List.cons_append, List.append_assoc]
    rw [dropWhile_append_visible pre₂ (by decide)]
    have hright : (pre₂.dropWhile isSpace ++ '[' :: body ++ ']' :: left).rdropWhile isSpace =
        pre₂.dropWhile isSpace ++ '[' :: body ++ ']' :: left.rdropWhile isSpace :=
      rdropWhile_append_cons _ _ (by decide)
    simpa only [List.cons_append, List.append_assoc, List.nil_append] using hright
  · exact List.Subset.trans (List.dropWhile_suffix isSpace).subset (List.Subset.trans hsub₂ hsub₁)

end Around

section Tokens

def bodyString (b : Body) : Str := joinSurrogates b.units

mutual

/-- The strings of a document, keys and values. -/
def docStrings : Doc → List Str
  | .string b => [bodyString b]
  | .array _ xs => itemsStrings xs
  | .object _ ms => membersStrings ms
  | _ => []

def itemsStrings : Items → List Str
  | .last d _ => docStrings d
  | .cons d _ _ rest => docStrings d ++ itemsStrings rest

def membersStrings : Members → List Str
  | .last key _ _ d _ => bodyString key :: docStrings d
  | .cons key _ _ d _ _ rest => bodyString key :: (docStrings d ++ membersStrings rest)

end

def TokenFree (s : Str) : Prop := ∀ t ∈ leakageTokens, ¬t.map Char.toNat <:+: s

theorem tokenFree_of_plain {s : Str} (h : 60 ∉ s) : TokenFree s := by
  have hangle : ∀ t ∈ leakageTokens, 60 ∈ t.map Char.toNat := by decide
  exact fun t ht hin => h (hin.subset (hangle t ht))

theorem joinSurrogates_cons {n : Nat} (us : Str) (h : n < 0xD800) :
    joinSurrogates (n :: us) = n :: joinSurrogates us := by
  cases us with
  | nil => rfl
  | cons m us =>
    rw [joinSurrogates, if_neg]
    omega

theorem joinSurrogates_append (us : Str) {n : Nat} (vs : Str) (h : n < 0xD800) :
    joinSurrogates (us ++ n :: vs) = joinSurrogates us ++ n :: joinSurrogates vs := by
  induction us using joinSurrogates.induct with
  | case1 high low us hpair ih =>
    rw [List.cons_append, List.cons_append, joinSurrogates, if_pos hpair, joinSurrogates, if_pos hpair, ih,
      List.cons_append]
  | case2 high low us hpair ih =>
    rw [List.cons_append, List.cons_append, joinSurrogates, if_neg hpair, joinSurrogates, if_neg hpair,
      ← List.cons_append, ih, List.cons_append]
  | case3 us hshort =>
    cases us with
    | nil => exact joinSurrogates_cons vs h
    | cons high us =>
      cases us with
      | nil =>
        have hlow : ¬(0xD800 ≤ high ∧ high < 0xDC00 ∧ 0xDC00 ≤ n ∧ n < 0xE000) := by omega
        rw [List.cons_append, List.nil_append, joinSurrogates, if_neg hlow, joinSurrogates_cons vs h]
        rfl
      | cons low us => exact absurd rfl (hshort high low us)

/-- Plain characters that stand together in the units of a string do so in the string. -/
theorem infix_joinSurrogates {t us : Str} (ht : ∀ n ∈ t, n < 0xD800) (h : t <:+: us) :
    t <:+: joinSurrogates us := by
  obtain ⟨before, after, rfl⟩ := h
  have hplain (after : Str) : joinSurrogates (t ++ after) = t ++ joinSurrogates after := by
    induction t with
    | nil => rfl
    | cons n t ih =>
      obtain ⟨hn, ht⟩ := List.forall_mem_cons.mp ht
      rw [List.cons_append, joinSurrogates_cons _ hn, ih ht, List.cons_append]
  cases t with
  | nil => exact List.nil_infix
  | cons n t =>
    obtain ⟨hn, -⟩ := List.forall_mem_cons.mp ht
    have htail := hplain after
    rw [List.cons_append, joinSurrogates_cons _ hn] at htail
    refine ⟨joinSurrogates before, joinSurrogates after, ?_⟩
    rw [List.append_assoc, List.append_assoc, ← htail, List.cons_append, joinSurrogates_append _ _ hn]

theorem units_of_raw {t : List Char} (b : Body) (ht : ∀ c ∈ t, tokenChar c) (hp : t <+: b.render) :
    t.map Char.toNat <+: b.units := by
  induction t generalizing b with
  | nil => exact List.nil_prefix
  | cons x t ih =>
    obtain ⟨hx, ht'⟩ := List.forall_mem_cons.mp ht
    obtain ⟨hlen, hraw⟩ := token_pieces b ht hp
    cases b with
    | nil => cases hlen
    | cons p b =>
      obtain ⟨c, rfl⟩ := hraw p (by simp)
      obtain ⟨rfl, hrest⟩ := List.cons_prefix_cons.mp hp
      exact List.cons_prefix_cons.mpr ⟨rfl, ih b ht' hrest⟩

theorem bodyWithout_of_units {b : Body} (h : ∀ t ∈ leakageTokens, ¬t.map Char.toNat <:+: b.units) :
    bodyWithout 0 b = b := by
  induction b with
  | nil => rfl
  | cons p b ih =>
    have hrest : ∀ t ∈ leakageTokens, ¬t.map Char.toNat <:+: Body.units b := fun t ht hin =>
      h t ht (hin.trans (List.suffix_cons p.unit (Body.units b)).isInfix)
    have hnone : chatTemplateLeakage none (Body.render (p :: b)) = none := by
      rw [chatTemplateLeakage, Option.map_eq_none_iff, List.find?_eq_none]
      intro t ht hpre
      have hraw := units_of_raw (p :: b) (tokens_plain t ht).2 (List.isPrefixOf_iff_prefix.mp hpre)
      exact h t ht hraw.isInfix
    simp only [bodyWithout, hnone, ih hrest]

theorem bodyWithout_of_free {b : Body} (h : TokenFree (bodyString b)) : bodyWithout 0 b = b := by
  have hcodes : ∀ t ∈ leakageTokens, ∀ n ∈ t.map Char.toNat, n < 0xD800 := by decide
  exact bodyWithout_of_units fun t ht hin => h t ht (infix_joinSurrogates (hcodes t ht) hin)

mutual

theorem docWithout_of_free : ∀ d : Doc, (∀ s ∈ docStrings d, TokenFree s) → docWithout d = d
  | .null, _ => rfl
  | .bool _, _ => rfl
  | .number _, _ => rfl
  | .emptyArray _, _ => rfl
  | .emptyObject _, _ => rfl
  | .string _, h => congrArg Doc.string (bodyWithout_of_free (h _ List.mem_cons_self))
  | .array w xs, h => congrArg (Doc.array w) (itemsWithout_of_free xs h)
  | .object w ms, h => congrArg (Doc.object w) (membersWithout_of_free ms h)

theorem itemsWithout_of_free : ∀ xs : Items, (∀ s ∈ itemsStrings xs, TokenFree s) → itemsWithout xs = xs
  | .last d after, h => by rw [itemsWithout, docWithout_of_free d h]
  | .cons d after lead rest, h => by
    obtain ⟨hd, hrest⟩ := List.forall_mem_append.mp h
    rw [itemsWithout, docWithout_of_free d hd, itemsWithout_of_free rest hrest]

theorem membersWithout_of_free : ∀ ms : Members, (∀ s ∈ membersStrings ms, TokenFree s) →
    membersWithout ms = ms
  | .last key w₁ w₂ d after, h => by
    obtain ⟨hkey, hd⟩ := List.forall_mem_cons.mp h
    rw [membersWithout, bodyWithout_of_free hkey, docWithout_of_free d hd]
  | .cons key w₁ w₂ d after lead rest, h => by
    obtain ⟨hkey, h⟩ := List.forall_mem_cons.mp h
    obtain ⟨hd, hrest⟩ := List.forall_mem_append.mp h
    rw [membersWithout, bodyWithout_of_free hkey, docWithout_of_free d hd, membersWithout_of_free rest hrest]

end

end Tokens

section Extraction

variable {py : Interpreter}

theorem parseFirst_around {d : Doc} {vs : List Value} (hvalue : d.value = .list vs)
    (hfree : ∀ s ∈ docStrings d, TokenFree s) {pre : List Char} (hpre : ∀ c ∈ pre, isBracket c = false)
    (suf : List Char) :
    parseFirstJsonValue py.unlimited (clean (pre ++ (d.render ++ suf))) = .value (.list vs) := by
  obtain ⟨body, hbody⟩ : ∃ body, d.render = '[' :: (body ++ [']']) := by
    cases d with
    | emptyArray w => exact ⟨w.render, rfl⟩
    | array w xs => exact ⟨w.render ++ itemsInit xs, by simp [Doc.render, items_render]⟩
    | number n => exact absurd hvalue (n.value_ne_list vs)
    | _ => cases hvalue
  have hlegal : Along (within 0 0) {} d.render := (level_doc d {} ⟨rfl, rfl⟩).2
  have hremove (suf : List Char) : remove (d.render ++ suf) = d.render ++ remove suf := by
    rw [remove_doc, docWithout_of_free d hfree]
  rw [hbody] at hlegal hremove
  obtain ⟨pre', suf', hclean, hsub⟩ := clean_around hlegal hremove pre suf
  have hdecode : rawDecode (d.render ++ suf') = some (.list vs, suf') := by
    rw [← hvalue]
    refine rawDecode_render d suf' fun m hm => ?_
    rw [hm, Doc.value] at hvalue
    exact absurd hvalue (m.value_ne_list vs)
  rw [hbody, List.cons_append] at hdecode
  rw [hbody, hclean, parseFirst_append (fun c hc => hpre c (hsub hc)), List.cons_append]
  exact parseFirst_decoded rfl hdecode

theorem extractChanges_around {d : Doc} {vs : List Value} (hvalue : d.value = .list vs)
    (hfree : ∀ s ∈ docStrings d, TokenFree s) {pre : List Char} (hpre : ∀ c ∈ pre, isBracket c = false)
    (suf : List Char) (hlimit : ¬MeetsLimit py (clean (pre ++ (d.render ++ suf)))) :
    extractChanges py (pre ++ (d.render ++ suf)) = normalizeItems vs := by
  rw [extractChanges_value ((parse_of_within hlimit).trans (parseFirst_around hvalue hfree hpre suf))]
  rfl

/-- An object whose `data`, if present, is an object. -/
def Shaped (v : Value) : Prop :=
  ∃ d strays, v = .dict d strays ∧ ∀ w, get (str "data") d = some w → isDict w = true

/-- The operation of an item, before it is looked up among the known ones. -/
def itemOp : Value → Value
  | .dict d _ => pyOr (pyOr (pyGet d "op") (pyGet d "operation")) (.str (str "create"))
  | _ => .null

/-- The normalisation of a list, item by item. -/
def Normalised : List Value → List ChangeItem → Prop :=
  List.Forall₂ fun v i => ∃ d, asDict v = some d ∧ normalize d = .ok i

theorem itemName_ok {d : Dict} (h : ∀ w, get (str "data") d = some w → isDict w = true) :
    ∃ name, itemName d = .ok name := by
  unfold itemName
  split_ifs
  · exact ⟨_, rfl⟩
  · cases hdata : get (str "data") d with
    | none => exact ⟨_, rfl⟩
    | some w =>
      have hw := h w hdata
      cases w with
      | dict e s => exact ⟨_, rfl⟩
      | _ => cases hw

theorem normalize_shaped {v : Value} (h : Shaped v) :
    ∃ d i, asDict v = some d ∧ normalize d = .ok i ∧ i.op = itemOp v := by
  obtain ⟨d, strays, rfl, hdata⟩ := h
  obtain ⟨name, hname⟩ := itemName_ok hdata
  exact ⟨d, _, rfl, by rw [Changes.normalize.eq_def, hname]; rfl, rfl⟩

theorem normalised_exists {vs : List Value} (h : ∀ v ∈ vs, Shaped v) :
    ∃ L, Normalised vs L ∧ L.map ChangeItem.op = vs.map itemOp ∧
      normalizeItems vs = validateChangesetShape L >>= fun _ => .ok L := by
  obtain ⟨ds, L, hds, hL, hops⟩ : ∃ ds L, vs.filterMap asDict = ds ∧ ds.mapM normalize = .ok L ∧
      L.map ChangeItem.op = vs.map itemOp ∧ Normalised vs L := by
    induction vs with
    | nil => exact ⟨[], [], rfl, rfl, rfl, .nil⟩
    | cons v vs ih =>
      obtain ⟨hv, hvs⟩ := List.forall_mem_cons.mp h
      obtain ⟨d, i, hd, hi, hop⟩ := normalize_shaped hv
      obtain ⟨ds, L, hds, hL, hops, hall⟩ := ih hvs
      refine ⟨d :: ds, i :: L, by simp [hd, hds], ?_, by simp [hop, hops], .cons ⟨d, hd, hi⟩ hall⟩
      rw [List.mapM_cons, hi, hL]
      rfl
  refine ⟨L, hops.2, hops.1, ?_⟩
  rw [normalizeItems, hds, hL]
  rfl

end Extraction

section FixedPoint

variable {py : Interpreter} {text : List Char} {L : List ChangeItem} {d : Dict} {i : ChangeItem}

def toEntries (i : ChangeItem) : Dict :=
  [(str "op", i.op), (str "doctype", i.doctype), (str "data", .dict i.data .none)]

def toValue (i : ChangeItem) : Value := .dict (toEntries i) .none

/-- What the normaliser has filled in, and what the shape check has looked up. -/
structure Settled (i : ChangeItem) : Prop where
  op : i.op.truthy
  doctype : i.doctype.truthy
  known : hashable i.op

theorem pyOr_truthy (a : Value) {b : Value} (h : b.truthy) : (pyOr a b).truthy := by
  unfold pyOr
  split_ifs with ha
  · exact ha
  · exact h

theorem pyOr_of_truthy {a : Value} (b : Value) (h : a.truthy) : pyOr a b = a := if_pos h

theorem normalize_truthy (h : normalize d = .ok i) : i.op.truthy ∧ i.doctype.truthy := by
  obtain ⟨name, -, h⟩ := bind_eq_ok.mp h
  cases h
  exact ⟨pyOr_truthy _ rfl, pyOr_truthy _ rfl⟩

theorem normalizeItems_settled {vs : List Value} (h : normalizeItems vs = .ok L) : ∀ i ∈ L, Settled i := by
  obtain ⟨normalized, hnorm, h⟩ := bind_eq_ok.mp h
  obtain ⟨_, hshape, h⟩ := bind_eq_ok.mp h
  cases h
  intro i hi
  obtain ⟨d, -, hd⟩ := exists_of_mapM_eq_ok hnorm hi
  obtain ⟨hop, hdoctype⟩ := normalize_truthy hd
  unfold validateChangesetShape at hshape
  split_ifs at hshape with hall
  exact ⟨hop, hdoctype, List.all_eq_true.mp hall i hi⟩

theorem extractChanges_settled (h : extractChanges py text = .ok L) : ∀ i ∈ L, Settled i := by
  unfold extractChanges at h
  split_ifs at h
  · cases h
    exact fun i hi => by cases hi
  · split at h
    · obtain ⟨vs, -, h⟩ := bind_eq_ok.mp h
      exact normalizeItems_settled h
    · cases h
      exact fun i hi => by cases hi
    · cases h
      exact fun i hi => by cases hi

theorem data_settled (i : ChangeItem) {name : Value} (h : name = pyOr (pyGet i.data "name") (.str [])) :
    copiedFields.foldl (copyField (toEntries i)) (nameData (toEntries i) (itemData (toEntries i)) name) = i.data := by
  have hcopied : ∀ field ∈ copiedFields, get (str field) (toEntries i) = none := by
    have hkeys : ∀ field ∈ copiedFields, str field ≠ str "op" ∧ str field ≠ str "doctype" ∧ str field ≠ str "data" := by
      decide
    intro field hfield
    obtain ⟨hop, hdoctype, hdata⟩ := hkeys field hfield
    simp [toEntries, Ne.symm hop, Ne.symm hdoctype, Ne.symm hdata]
  have hdescription : (pyGet (toEntries i) "description").truthy = false := by
    rw [pyGet, hcopied "description" (by decide)]
    rfl
  have hname : (name.truthy && !(pyGet i.data "name").truthy) = false := by
    rw [h, pyOr]
    split_ifs with hdata
    · rw [hdata]
      rfl
    · rfl
  have hdata : nameData (toEntries i) (itemData (toEntries i)) name = i.data := by
    unfold nameData
    rw [show itemData (toEntries i) = i.data from rfl, hname, hdescription]
    simp
  rw [hdata]
  generalize copiedFields = fields at hcopied
  induction fields with
  | nil => rfl
  | cons field fields ih =>
    obtain ⟨hfield, hfields⟩ := List.forall_mem_cons.mp hcopied
    rw [List.foldl_cons, copyField, hfield]
    exact ih hfields

theorem normalize_toEntries (h : Settled i) : normalize (toEntries i) = .ok i := by
  have hname : itemName (toEntries i) = .ok (pyOr (pyGet i.data "name") (.str [])) := rfl
  have hop : pyOr (pyOr i.op (pyGet (toEntries i) "operation")) (.str (str "create")) = i.op := by
    rw [pyOr_of_truthy _ h.op, pyOr_of_truthy _ h.op]
  have hdoctype : pyOr (pyOr i.doctype (pyGet (toEntries i) "type")) (.str (str "Other")) = i.doctype := by
    rw [pyOr_of_truthy _ h.doctype, pyOr_of_truthy _ h.doctype]
  have hdata := data_settled i rfl
  calc normalize (toEntries i)
      = .ok ⟨pyOr (pyOr i.op (pyGet (toEntries i) "operation")) (.str (str "create")),
          pyOr (pyOr i.doctype (pyGet (toEntries i) "type")) (.str (str "Other")),
          copiedFields.foldl (copyField (toEntries i)) (nameData (toEntries i) (itemData (toEntries i))
            (pyOr (pyGet i.data "name") (.str [])))⟩ := by rw [Changes.normalize.eq_def, hname]; rfl
    _ = .ok i := by rw [hop, hdoctype, hdata]

theorem normalizeItems_toValue (h : ∀ i ∈ L, Settled i) : normalizeItems (L.map toValue) = .ok L := by
  have hitems : (L.map toValue).filterMap asDict = L.map toEntries := by
    rw [List.filterMap_map]
    exact congrFun (List.filterMap_eq_map (f := toEntries)) L
  have hnorm : (L.map toEntries).mapM normalize = .ok L := by
    clear hitems
    induction L with
    | nil => rfl
    | cons i L ih =>
      obtain ⟨hi, hL⟩ := List.forall_mem_cons.mp h
      rw [List.map_cons, List.mapM_cons, normalize_toEntries hi, ih hL]
      rfl
  have hshape : validateChangesetShape L = .ok () :=
    if_pos (List.all_eq_true.mpr fun i hi => (h i hi).known)
  rw [normalizeItems, hitems, hnorm]
  change validateChangesetShape L >>= _ = _
  rw [hshape]
  rfl

end FixedPoint

/-- What an agent writes: a list of items in any layout, with text around it. -/
structure ListReply where
  before : List Char
  layout : Doc
  items : List Value
  after : List Char
  reads : layout.value = .list items
  shaped : ∀ v ∈ items, Shaped v
  tokenFree : ∀ s ∈ docStrings layout, TokenFree s
  bracketFree : ∀ c ∈ before, isBracket c = false

def ListReply.text (r : ListReply) : List Char := r.before ++ (r.layout.render ++ r.after)

/-- A list comes back normalised just when the operation of every item can be
looked up and `json` meets none of its limits in it; a list that was returned once
comes back as it is. -/
theorem round_trip (py : Interpreter) :
    (∀ r : ListReply, (∃ L, Normalised r.items L ∧ extractChanges py r.text = .ok L) ↔
      (∀ v ∈ r.items, hashable (itemOp v)) ∧ (MeetsLimit py (clean r.text) → r.items = [])) ∧
    ∀ text L, extractChanges py text = .ok L → ∀ d : Doc, d.value = .list (L.map toValue) →
      (∀ s ∈ docStrings d, TokenFree s) → ¬MeetsLimit py (clean d.render) →
      extractChanges py d.render = .ok L := by
  constructor
  · intro r
    by_cases hlimit : MeetsLimit py (clean r.text)
    · have hextract : extractChanges py r.text = .ok [] :=
        extractChanges_eq_nil.mpr fun v hv => by rw [parse_of_limit hlimit] at hv; cases hv
      rw [hextract]
      constructor
      · rintro ⟨L, hnormalised, hL⟩
        cases hL
        have hnone := List.forall₂_nil_right_iff.mp hnormalised
        exact ⟨by simp [hnone], fun _ => hnone⟩
      · rintro ⟨-, hnone⟩
        rw [hnone hlimit]
        exact ⟨[], .nil, rfl⟩
    obtain ⟨L, hnormalised, hops, hitems⟩ := normalised_exists r.shaped
    have hextract : extractChanges py r.text = validateChangesetShape L >>= fun _ => .ok L :=
      (extractChanges_around r.reads r.tokenFree r.bracketFree r.after hlimit).trans hitems
    have hhash : (∀ v ∈ r.items, hashable (itemOp v)) ↔ ∀ i ∈ L, hashable i.op := by
      rw [← List.forall_mem_map (P := fun op => hashable op = true), ← hops, List.forall_mem_map]
    rw [hextract, hhash, and_iff_left fun h => absurd h hlimit]
    by_cases hall : ∀ i ∈ L, hashable i.op
    · have hshape : validateChangesetShape L = .ok () := if_pos (List.all_eq_true.mpr hall)
      rw [hshape]
      exact iff_of_true ⟨L, hnormalised, rfl⟩ hall
    · have hshape : validateChangesetShape L = .error .typeError :=
        if_neg fun h => hall (List.all_eq_true.mp h)
      rw [hshape]
      exact iff_of_false (fun ⟨_, _, h⟩ => by cases h) hall
  · intro text L h d hvalue hfree hlimit
    have haround : extractChanges py ([] ++ (d.render ++ [])) = normalizeItems (L.map toValue) :=
      extractChanges_around hvalue hfree (fun c hc => by cases hc) [] (by simpa using hlimit)
    rw [List.nil_append, List.append_nil] at haround
    rw [haround]
    exact normalizeItems_toValue (extractChanges_settled h)

def listedOp : Doc :=
  .array [] (.last (.object [] (.last (Truncation.word "op") [] []
    (.array [] (.last (.string (Truncation.word "create")) [])) [])) [])

def listedOpReply : ListReply where
  before := []
  layout := listedOp
  items := [.dict [(str "op", .list [.str (str "create")])] .none]
  after := []
  reads := rfl
  shaped := by
    intro v hv
    rw [List.mem_singleton] at hv
    exact ⟨_, _, hv, fun w hw => by cases hw⟩
  tokenFree := by
    have hplain : ∀ s ∈ docStrings listedOp, 60 ∉ s := by decide
    exact fun s hs => tokenFree_of_plain (hplain s hs)
  bracketFree := fun c hc => by cases hc

theorem listed_op_raises : ¬∃ L, Normalised listedOpReply.items L ∧
    extractChanges jsonOnly listedOpReply.text = .ok L := by
  rintro ⟨L, -, h⟩
  have hextract : extractChanges jsonOnly listedOpReply.text = .error .typeError :=
    extractChanges_around listedOpReply.reads listedOpReply.tokenFree listedOpReply.bracketFree []
      (not_meetsLimit fun _ => rfl)
  rw [hextract] at h
  cases h

end AlfredProcessing.Extract.RoundTrip
