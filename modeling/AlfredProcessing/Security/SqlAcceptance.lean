import AlfredProcessing.Lib.Fill
import AlfredProcessing.Lib.Occurrence
import AlfredProcessing.Security.SqlSoundness

namespace AlfredProcessing.Security.SqlAcceptance

open Lib.Fill (join)
open Lib.Occurrence Lib.Substitute Extract.Cleaning SqlSafety SqlPasses SqlSoundness

section Texts

/-- Neither a comment nor a literal begins with the character, and no statement ends with it. -/
def calm (c : Char) : Bool := !(['/', '-', '#', '\'', '"', ';'].contains c)

/-- A text of calm characters in which none of the words stands. -/
structure Harmless (ws : List (List Char)) (cs : List Char) : Prop where
  calm : ∀ c ∈ cs, calm c = true
  words : ∀ w ∈ ws, occurs foldsTo w cs = false

instance (ws : List (List Char)) (cs : List Char) : Decidable (Harmless ws cs) :=
  decidable_of_iff ((∀ c ∈ cs, SqlAcceptance.calm c = true) ∧ ∀ w ∈ ws, occurs foldsTo w cs = false)
    ⟨fun h => ⟨h.1, h.2⟩, fun h => ⟨h.calm, h.words⟩⟩

/-- The character stands in none of the words, and there is no empty one. -/
def Separates (ws : List (List Char)) (c : Char) : Prop := ∀ w ∈ ws, w ≠ [] ∧ ∀ x ∈ w, foldsTo c x = false

instance (ws : List (List Char)) (c : Char) : Decidable (Separates ws c) :=
  inferInstanceAs (Decidable (∀ w ∈ ws, w ≠ [] ∧ ∀ x ∈ w, foldsTo c x = false))

variable {ws : List (List Char)} {a b cs : List Char} {c : Char} {ts : List (List Char)}

theorem occurs_append_separator (hc : Separates ws c) {w : List Char} (hw : w ∈ ws)
    (ha : occurs foldsTo w a = false) (hb : occurs foldsTo w b = false) : occurs foldsTo w (a ++ c :: b) = false := by
  obtain ⟨hne, hfolds⟩ := hc w hw
  rw [occurs_append_cons hne hfolds, ha, hb]
  rfl

theorem Harmless.append (hcalm : SqlAcceptance.calm c = true) (hc : Separates ws c) (ha : Harmless ws a)
    (hb : Harmless ws b) : Harmless ws (a ++ c :: b) := by
  refine ⟨fun d hd => ?_, fun w hw => occurs_append_separator hc hw (ha.words w hw) (hb.words w hw)⟩
  obtain hd | hd := List.mem_append.mp hd
  · exact ha.calm d hd
  · obtain rfl | hd := List.mem_cons.mp hd
    · exact hcalm
    · exact hb.calm d hd

theorem Harmless.parts (hc : Separates ws c) (h : Harmless ws (a ++ c :: b)) : Harmless ws a ∧ Harmless ws b := by
  have hwords : ∀ w ∈ ws, occurs foldsTo w a = false ∧ occurs foldsTo w b = false := by
    intro w hw
    obtain ⟨hne, hfolds⟩ := hc w hw
    have hword := h.words w hw
    rw [occurs_append_cons hne hfolds, Bool.or_eq_false_iff] at hword
    exact hword
  exact ⟨⟨fun d hd => h.calm d (List.mem_append_left _ hd), fun w hw => (hwords w hw).1⟩,
    ⟨fun d hd => h.calm d (List.mem_append_right _ (List.mem_cons_of_mem c hd)), fun w hw => (hwords w hw).2⟩⟩

variable {t : List Char}

theorem Harmless.before (ht : Harmless ws t) (hopens : ∃ c ∈ t.head?, Separates ws c) (ha : Harmless ws a) :
    Harmless ws (a ++ t) := by
  obtain ⟨c, hc, hseparates⟩ := hopens
  obtain ⟨u, rfl⟩ := List.head?_eq_some_iff.mp hc
  exact ha.append (ht.calm c List.mem_cons_self) hseparates (Harmless.parts (a := []) hseparates ht).2

theorem Harmless.behind (ht : Harmless ws t) (hends : ∃ c ∈ t.getLast?, Separates ws c) (hb : Harmless ws b) :
    Harmless ws (t ++ b) := by
  obtain ⟨c, hc, hseparates⟩ := hends
  obtain ⟨u, rfl⟩ := List.getLast?_eq_some_iff.mp hc
  rw [List.append_assoc]
  exact (Harmless.parts (b := []) hseparates ht).1.append (ht.calm c (List.mem_append_right u List.mem_cons_self))
    hseparates hb

theorem Harmless.between (ht : Harmless ws t) (hopens : ∃ c ∈ t.head?, Separates ws c)
    (hends : ∃ c ∈ t.getLast?, Separates ws c) (ha : Harmless ws a) (hb : Harmless ws b) : Harmless ws (a ++ t ++ b) := by
  obtain ⟨c, hc, hseparates⟩ := hopens
  obtain ⟨u, rfl⟩ := List.head?_eq_some_iff.mp hc
  rw [List.append_assoc]
  exact ha.append (ht.calm c List.mem_cons_self) hseparates (Harmless.parts (a := []) hseparates (ht.behind hends hb)).2

theorem Harmless.mono {vs : List (List Char)} (hvs : vs ⊆ ws) (h : Harmless ws cs) : Harmless vs cs :=
  ⟨h.calm, fun w hw => h.words w (hvs hw)⟩

theorem Separates.mono {vs : List (List Char)} (hvs : vs ⊆ ws) (h : Separates ws c) : Separates vs c :=
  fun w hw => h w (hvs hw)

theorem harmless_join (hcalm : SqlAcceptance.calm c = true) (hc : Separates ws c) (hts : ∀ t ∈ ts, Harmless ws t) :
    Harmless ws (join [c] ts) := by
  induction ts with
  | nil =>
    refine ⟨List.forall_mem_nil _, fun w hw => ?_⟩
    obtain ⟨x, xs, rfl⟩ := List.exists_cons_of_ne_nil (hc w hw).1
    rfl
  | cons t ts ih =>
    obtain ⟨ht, hts⟩ := List.forall_mem_cons.mp hts
    cases ts with
    | nil => simpa [join] using ht
    | cons u us => simpa [join] using ht.append hcalm hc (ih hts)

end Texts

section Passes

variable {p : Pattern} {repl ds cs : List Char}

theorem quiet_of_forall (h : ∀ c ∈ ds, ∀ rest, p none (c :: rest) = none) : quiet p cs ds = true := by
  induction ds with
  | nil => rfl
  | cons d ds ih =>
    obtain ⟨hd, hds⟩ := List.forall_mem_cons.mp h
    rw [quiet, List.cons_append, hd, ih hds]
    rfl

theorem sub_eq_self (hp : Forward p) (h : ∀ c ∈ ds, ∀ rest, p none (c :: rest) = none) : sub p repl ds = ds := by
  have hquiet : quiet p [] ds = true := quiet_of_forall h
  have hrun : subFrom p repl none 0 (ds ++ []) = ds ++ subFrom p repl none 0 [] := hp.subFrom_quiet hquiet
  rw [List.append_nil, subFrom_nil, List.append_nil] at hrun
  exact hrun

theorem blockComment_none {c : Char} (hc : c ≠ '/') (rest : List Char) : blockComment none (c :: rest) = none := by
  rw [blockComment]
  rintro t h
  exact hc (List.cons.inj h).1

theorem lineComment_none {c : Char} (hhash : c ≠ '#') (hdash : c ≠ '-') (rest : List Char) :
    lineComment none (c :: rest) = none := by
  rw [lineComment]
  · rintro t h
    exact hhash (List.cons.inj h).1
  · rintro t h
    exact hdash (List.cons.inj h).1

theorem stringLiteral_none {q c : Char} (hc : c ≠ q) (rest : List Char) : stringLiteral q none (c :: rest) = none := by
  rw [stringLiteral, if_neg hc]

theorem stringLiteral_empty {q : Char} {b : List Char} (hb : q ∉ b) : stringLiteral q none (q :: q :: b) = some 2 := by
  rw [stringLiteral, if_pos rfl]
  cases b with
  | nil => simp [closeQuoted]
  | cons d b =>
    have hd : d ≠ q := fun h => hb (h ▸ List.mem_cons_self)
    rw [closeQuoted, if_pos rfl, if_neg hd]
    rfl

variable {a b : List Char}

theorem stripInlineComments_eq_self (h : ∀ c ∈ cs, c ≠ '/' ∧ c ≠ '#' ∧ c ≠ '-') : stripInlineComments cs = cs := by
  rw [stripInlineComments, sub_eq_self forward_blockComment fun c hc => blockComment_none (h c hc).1,
    sub_eq_self forward_lineComment fun c hc => lineComment_none (h c hc).2.1 (h c hc).2.2]

theorem stripStringLiterals_eq_self (ha : '\'' ∉ a) (hb : '\'' ∉ b) (hdouble : '"' ∉ a ++ '\'' :: '\'' :: b) :
    stripStringLiterals (a ++ '\'' :: '\'' :: b) = a ++ '\'' :: '\'' :: b := by
  have hp := forward_stringLiteral '\''
  have hmiss {ds : List Char} (hds : '\'' ∉ ds) : ∀ c ∈ ds, ∀ rest, stringLiteral '\'' none (c :: rest) = none :=
    fun c hc => stringLiteral_none fun h => hds (h ▸ hc)
  have hbehind : sub (stringLiteral '\'') ['\'', '\''] b = b := sub_eq_self hp (hmiss hb)
  have hsingle : sub (stringLiteral '\'') ['\'', '\''] (a ++ '\'' :: '\'' :: b) = a ++ '\'' :: '\'' :: b := by
    have hrest : subFrom (stringLiteral '\'') ['\'', '\''] (some '\'') 0 b = b := hp.subFrom.trans hbehind
    rw [sub, hp.subFrom_quiet (quiet_of_forall (hmiss ha)), subFrom_match (stringLiteral_empty hb), subFrom_skip, hrest]
    rfl
  rw [stripStringLiterals, hsingle]
  exact sub_eq_self (forward_stringLiteral '"') fun c hc => stringLiteral_none fun h => hdouble (h ▸ hc)

end Passes

section Checks

variable {p : Platform} {a b cs : List Char}

theorem foldsToPrefix_eq (w cs : List Char) : foldsToPrefix w cs = begins foldsTo w cs := by
  induction w generalizing cs with
  | nil =>
    rw [foldsToPrefix, begins]
  | cons x xs ih =>
    cases cs with
    | nil => rfl
    | cons c cs => rw [foldsToPrefix, begins, ih]

theorem search_dangerous_none (h : ∀ k ∈ dangerousKeywords, occurs foldsTo k cs = false) :
    search (dangerous p) cs = none := by
  rw [search]
  generalize (none : Option Char) = prev
  induction cs generalizing prev with
  | nil => rfl
  | cons c cs ih =>
    have hsplit : ∀ k ∈ dangerousKeywords, begins foldsTo k (c :: cs) = false ∧ occurs foldsTo k cs = false :=
      fun k hk => Bool.or_eq_false_iff.mp (h k hk)
    have hmiss : dangerous p prev (c :: cs) = none := by
      rw [dangerous]
      split
      · rw [Option.map_eq_none_iff, List.find?_eq_none]
        intro k hk
        rw [foldsToPrefix_eq, (hsplit k hk).1]
        exact Bool.false_ne_true
      · rfl
    rw [searchFrom, hmiss]
    exact ih (fun k hk => (hsplit k hk).2) (some c)

theorem mem_rdropWhile {q : Char → Bool} {c : Char} (hc : q c = false) (h : c ∈ cs) : c ∈ cs.rdropWhile q := by
  rw [← List.rdropWhile_append_rtakeWhile (p := q) (l := cs)] at h
  obtain h | h := List.mem_append.mp h
  · exact h
  · rw [List.mem_rtakeWhile_imp h] at hc
    cases hc

theorem mem_of_mem_strip {c : Char} (h : c ∈ strip cs) : c ∈ cs :=
  (List.dropWhile_suffix isSpace).subset ((List.rdropWhile_prefix isSpace _).subset h)

theorem countStatements_eq_one {c : Char} (hc : isSpace c = false) (hmem : c ∈ cs) (hsemi : ';' ∉ cs) :
    countStatements cs = 1 := by
  have htrimmed : c ∈ trimmed cs := by
    refine mem_strip hc (mem_rdropWhile ?_ (mem_rdropWhile hc hmem))
    exact decide_eq_false fun h => hsemi (h ▸ hmem)
  have hne : (trimmed cs).isEmpty = false := by
    cases htext : trimmed cs with
    | nil =>
      rw [htext] at htrimmed
      cases htrimmed
    | cons d ds => rfl
  have hcount : (trimmed cs).count ';' = 0 := by
    refine List.count_eq_zero.mpr fun h => hsemi ?_
    exact (List.rdropWhile_prefix isSpace cs).subset ((List.rdropWhile_prefix _ _).subset (mem_of_mem_strip h))
  rw [countStatements, hne, hcount]
  rfl

theorem leadingComment_of_head {c : Char} (hspace : isSpace c = false) (hc : c ≠ '/' ∧ c ≠ '-' ∧ c ≠ '#') (cs : List Char) :
    leadingComment (c :: cs) = none := by
  rw [leadingComment, List.dropWhile_cons_of_neg (by rw [hspace]; exact Bool.false_ne_true)]
  split
  · next h => exact absurd (List.cons.inj h).1 hc.1
  · next h => exact absurd (List.cons.inj h).1 hc.2.1
  · next h => exact absurd (List.cons.inj h).1 hc.2.2
  · rfl

theorem firstToken_select (t : List Char) : firstToken ("SELECT".toList ++ '\n' :: t) = "SELECT".toList := by
  have htext : "SELECT".toList = 'S' :: ['E', 'L', 'E', 'C', 'T'] := by decide
  have hdrop : (('S' :: ['E', 'L', 'E', 'C', 'T']) ++ '\n' :: t).dropWhile isSpace =
      ('S' :: ['E', 'L', 'E', 'C', 'T']) ++ '\n' :: t := List.dropWhile_cons_of_neg (by decide)
  have hcomments : stripLeadingComments (('S' :: ['E', 'L', 'E', 'C', 'T']) ++ '\n' :: t) =
      ('S' :: ['E', 'L', 'E', 'C', 'T']) ++ '\n' :: t := by
    rw [stripLeadingComments, List.cons_append, List.length_cons, dropLeadingComments,
      leadingComment_of_head (by decide) (by decide), ← List.cons_append, hdrop]
  rw [htext, firstToken, hcomments, hdrop]
  exact takeWhile_append_stop (a := ['S', 'E', 'L', 'E', 'C', 'T']) (by simp; decide)

/-- A selection without comments, semicolons and dangerous words, and with an empty literal at most, is let through. -/
theorem validateSafeSelect_accepts (p : Platform) {t : List Char} (ha : Harmless dangerousKeywords a)
    (hb : Harmless dangerousKeywords b) (hselect : a = "SELECT".toList ++ '\n' :: t) :
    validateSafeSelect p (a ++ '\'' :: '\'' :: b) = .ok () := by
  have hmem {c : Char} (hc : calm c = false) (hquote : c ≠ '\'') : c ∉ a ++ '\'' :: '\'' :: b := by
    intro h
    rw [List.mem_append, List.mem_cons, List.mem_cons] at h
    obtain h | h | h | h := h
    · rw [ha.calm c h] at hc
      cases hc
    · exact hquote h
    · exact hquote h
    · rw [hb.calm c h] at hc
      cases hc
  have hcomments : stripInlineComments (a ++ '\'' :: '\'' :: b) = a ++ '\'' :: '\'' :: b :=
    stripInlineComments_eq_self fun c hc =>
      ⟨fun h => hmem (by decide) (by decide) (h ▸ hc), fun h => hmem (by decide) (by decide) (h ▸ hc),
        fun h => hmem (by decide) (by decide) (h ▸ hc)⟩
  have hsingle {ds : List Char} (hds : Harmless dangerousKeywords ds) : '\'' ∉ ds :=
    fun h => absurd (hds.calm _ h) (by decide)
  have hliterals := stripStringLiterals_eq_self (hsingle ha) (hsingle hb) (hmem (by decide) (by decide))
  have hsanitise : sanitise (a ++ '\'' :: '\'' :: b) = a ++ '\'' :: '\'' :: b := by
    rw [sanitise, hcomments, hliterals]
  have hstart : 'S' ∈ a ++ '\'' :: '\'' :: b := by
    rw [hselect]
    exact List.mem_append_left _ (List.mem_append_left _ (by decide))
  have hcount : countStatements (a ++ '\'' :: '\'' :: b) = 1 :=
    countStatements_eq_one (by decide) hstart (hmem (by decide) (by decide))
  have hseparates : Separates dangerousKeywords '\'' := by decide
  have hsearch : search (dangerous p) (a ++ '\'' :: '\'' :: b) = none := by
    refine search_dangerous_none fun k hk => occurs_append_separator hseparates hk (ha.words k hk) ?_
    exact occurs_append_separator (a := []) hseparates hk (by revert k; decide) (hb.words k hk)
  have htoken : firstToken (a ++ '\'' :: '\'' :: b) = "SELECT".toList := by
    rw [hselect, List.append_assoc, List.cons_append]
    exact firstToken_select _
  have hempty : (a ++ '\'' :: '\'' :: b).isEmpty = false := by simp
  rw [validateSafeSelect, hempty, if_neg Bool.false_ne_true, hsanitise]
  dsimp only
  rw [hcount, if_neg Nat.one_ne_zero, if_neg (Nat.lt_irrefl 1), hsearch, htoken]
  dsimp only
  rw [if_neg (by decide), if_pos (by decide)]

end Checks

end AlfredProcessing.Security.SqlAcceptance
