import AlfredProcessing.Lib.Brackets
import Mathlib.Data.List.TakeWhile

namespace AlfredProcessing.Lib.Brackets

open Json

/-- A stretch of text that ends in the state it starts in. -/
def Balanced (cs : List Char) : Prop := ∀ s : Scan, s.code → s.run cs = s

/-- A scanner read some balanced text and left `rest`. -/
def Reads (cs rest : List Char) : Prop := ∃ u, cs = u ++ rest ∧ u ≠ [] ∧ Balanced u

variable {s : Scan} {cs ds rest : List Char} {c : Char}

theorem Balanced.append (hc : Balanced cs) (hd : Balanced ds) : Balanced (cs ++ ds) :=
  fun s hs => by rw [run_append, hc s hs, hd s hs]

theorem balanced_neutral (h : ∀ c ∈ cs, neutral c) : Balanced cs := fun _ hs => run_neutral hs.2 h

theorem Reads.append (h : Reads cs ds) (h' : Reads ds rest) : Reads cs rest := by
  obtain ⟨u, rfl, hu, hb⟩ := h
  obtain ⟨v, rfl, -, hb'⟩ := h'
  exact ⟨u ++ v, by simp, by simp [hu], hb.append hb'⟩

theorem reads_one (h : neutral c) : Reads (c :: rest) rest :=
  ⟨[c], rfl, by simp, balanced_neutral (by simpa using h)⟩

theorem reads_neutral (cs : List Char) (hu : cs ≠ []) (h : ∀ c ∈ cs, neutral c) :
    Reads (cs ++ rest) rest :=
  ⟨cs, rfl, hu, balanced_neutral h⟩

theorem skipWs_split (cs : List Char) : ∃ u, cs = u ++ skipWs cs ∧ Balanced u := by
  refine ⟨cs.takeWhile isWs, List.takeWhile_append_dropWhile.symm, balanced_neutral fun c hc => ?_⟩
  have hw := List.mem_takeWhile_imp hc
  simp only [isWs, Bool.or_eq_true, decide_eq_true_eq] at hw
  rcases hw with ((hw | hw) | hw) | hw <;> rw [hw] <;> decide

theorem Reads.skipWs_right (h : Reads cs rest) : Reads cs (skipWs rest) := by
  obtain ⟨u, rfl, hu, hb⟩ := h
  obtain ⟨w, hw, hbw⟩ := skipWs_split rest
  refine ⟨u ++ w, ?_, by simp [hu], hb.append hbw⟩
  rw [List.append_assoc, ← hw]

theorem span_isDigit {ds rest : List Char} (h : cs.span Char.isDigit = (ds, rest)) :
    cs = ds ++ rest ∧ ∀ c ∈ ds, neutral c := by
  rw [List.span_eq_takeWhile_dropWhile] at h
  obtain ⟨rfl, rfl⟩ := Prod.mk.inj h
  exact ⟨List.takeWhile_append_dropWhile.symm, fun c hc =>
    (digit_neutral (List.mem_takeWhile_imp hc)).1⟩

theorem scanInt_reads {ds : List Char} (h : scanInt cs = some (ds, rest)) : Reads cs rest := by
  unfold scanInt at h
  split at h
  · cases h
    exact reads_one (by decide)
  · split at h
    · cases h
    · next hne hs =>
      cases h
      obtain ⟨rfl, hn⟩ := span_isDigit hs
      exact reads_neutral _ hne hn

/-- The optional parts of a number read balanced text or nothing. -/
theorem scanFrac_split (cs : List Char) : ∃ u, cs = u ++ (scanFrac cs).2 ∧ Balanced u := by
  have hnil : ∃ u, cs = u ++ cs ∧ Balanced u := ⟨[], rfl, fun _ _ => rfl⟩
  unfold scanFrac
  split
  · next cs =>
    split
    · exact hnil
    · next hs =>
      obtain ⟨rfl, hn⟩ := span_isDigit hs
      exact ⟨'.' :: _, rfl, balanced_neutral (List.forall_mem_cons.mpr ⟨by decide, hn⟩)⟩
  · exact hnil

theorem scanSign_split (cs : List Char) : ∃ u, cs = u ++ (scanSign cs).2 ∧ ∀ c ∈ u, neutral c := by
  unfold scanSign
  split
  · exact ⟨['-'], rfl, by decide⟩
  · exact ⟨['+'], rfl, by decide⟩
  · exact ⟨[], rfl, by simp⟩

theorem scanExp_split (cs : List Char) : ∃ u, cs = u ++ (scanExp cs).2 ∧ Balanced u := by
  have hnil : ∃ u, cs = u ++ cs ∧ Balanced u := ⟨[], rfl, fun _ _ => rfl⟩
  cases cs with
  | nil => exact hnil
  | cons e cs =>
    by_cases he : e = 'e' ∨ e = 'E'
    · obtain ⟨v, hv, hvn⟩ := scanSign_split cs
      simp only [scanExp, if_pos he]
      split
      · exact hnil
      · next hs =>
        obtain ⟨hd, hn⟩ := span_isDigit hs
        refine ⟨e :: (v ++ _), by rw [List.cons_append, List.append_assoc, ← hd, ← hv], ?_⟩
        refine balanced_neutral (List.forall_mem_cons.mpr ⟨?_, fun c hc => ?_⟩)
        · rcases he with rfl | rfl <;> decide
        · exact (List.mem_append.mp hc).elim (hvn c) (hn c)
    · simpa only [scanExp, if_neg he] using hnil

theorem scanNumber_reads {negative : Bool} {v : Value}
    (h : scanNumber negative cs = some (v, rest)) : Reads cs rest := by
  unfold scanNumber at h
  obtain ⟨⟨ds, r⟩, hi, he⟩ := Option.map_eq_some_iff.mp h
  have hint := scanInt_reads hi
  obtain ⟨u, hu, hub⟩ := scanFrac_split r
  obtain ⟨w, hw, hwb⟩ := scanExp_split (scanFrac r).2
  have hrest : (scanExp (scanFrac r).2).2 = rest := by
    dsimp only at he
    split at he <;> exact congrArg Prod.snd he
  obtain ⟨x, rfl, hx, hxb⟩ := hint
  refine ⟨x ++ (u ++ w), ?_, by simp [hx], hxb.append (hub.append hwb)⟩
  rw [List.append_assoc, List.append_assoc, ← hrest, ← hw, ← hu]

theorem quoted_step (hs : s.code) (hq : c ≠ '"') (hb : c ≠ '\\') : s.quoted.step c = s.quoted := by
  simp [Scan.step, Scan.quoted, hs.2, hq, hb]

theorem quoted_escape (hs : s.code) (e : Char) :
    (s.quoted.step '\\').step e = s.quoted := by
  simp [Scan.step, Scan.quoted, hs.2]

theorem hexVal_ne {h : Char} (hh : (hexVal h).isSome) : h ≠ '"' ∧ h ≠ '\\' := by
  constructor <;> rintro rfl <;> exact absurd hh (by decide)

theorem hexUnit_isSome {a b c d : Char} {n : Nat} (h : hexUnit a b c d = some n) :
    (hexVal a).isSome ∧ (hexVal b).isSome ∧ (hexVal c).isSome ∧ (hexVal d).isSome := by
  simp only [hexUnit, Option.bind_eq_bind, Option.bind_eq_some_iff] at h
  obtain ⟨_, ha, _, hb, _, hc, _, hd, -⟩ := h
  simp [ha, hb, hc, hd]

theorem scanUnits_split {us : Str} (h : scanUnits cs = some (us, rest)) :
    ∃ u, cs = u ++ rest ∧ ∀ s : Scan, s.code → s.quoted.run u = s := by
  induction cs using scanUnits.induct generalizing us with
  | case1 => simp [scanUnits] at h
  | case2 cs =>
    simp only [scanUnits, Option.some.injEq, Prod.mk.injEq] at h
    obtain ⟨-, rfl⟩ := h
    refine ⟨['"'], rfl, fun s hs => ?_⟩
    ext <;> simp [Scan.step, Scan.quoted, hs.1, hs.2]
  | case3 a b c d cs ih =>
    simp only [scanUnits, Option.bind_eq_bind, Option.bind_eq_some_iff] at h
    obtain ⟨n, hu, ⟨us', r⟩, hr, he⟩ := h
    cases he
    obtain ⟨u, rfl, hrun⟩ := ih hr
    obtain ⟨ha, hb, hc, hd⟩ := hexUnit_isSome hu
    refine ⟨'\\' :: 'u' :: a :: b :: c :: d :: u, rfl, fun s hs => ?_⟩
    have hplain {h : Char} (hh : (hexVal h).isSome) : s.quoted.step h = s.quoted :=
      quoted_step hs (hexVal_ne hh).1 (hexVal_ne hh).2
    simp only [run_cons, quoted_escape hs, hplain ha, hplain hb, hplain hc, hplain hd, hrun s hs]
  | case4 e cs hshort ih =>
    rw [scanUnits] at h
    · simp only [Option.bind_eq_bind, Option.bind_eq_some_iff] at h
      obtain ⟨n, -, ⟨us', r⟩, hr, he⟩ := h
      cases he
      obtain ⟨u, rfl, hrun⟩ := ih hr
      refine ⟨'\\' :: e :: u, rfl, fun s hs => ?_⟩
      simp only [run_cons, quoted_escape hs, hrun s hs]
    · exact hshort
  | case5 c cs hq hu hb hbad ih =>
    rw [scanUnits] at h
    · rw [if_pos hbad] at h
      cases h
    all_goals assumption
  | case6 c cs hq hu hb hgood ih =>
    rw [scanUnits] at h
    · rw [if_neg hgood] at h
      simp only [Option.bind_eq_bind, Option.bind_eq_some_iff] at h
      obtain ⟨⟨us', r⟩, hr, he⟩ := h
      cases he
      obtain ⟨u, rfl, hrun⟩ := ih hr
      refine ⟨c :: u, rfl, fun s hs => ?_⟩
      rw [run_cons, quoted_step hs hq fun he => hgood (.inr he), hrun s hs]
    all_goals assumption

theorem scanString_reads {us : Str} (h : scanString cs = some (us, rest)) :
    Reads ('"' :: cs) rest := by
  obtain ⟨⟨us', r⟩, hu, he⟩ := Option.map_eq_some_iff.mp h
  cases he
  obtain ⟨u, rfl, hrun⟩ := scanUnits_split hu
  refine ⟨'"' :: u, rfl, by simp, fun s hs => ?_⟩
  have hopen : s.step '"' = s.quoted := by simp [Scan.step, Scan.quoted, hs.1, hs.2]
  rw [run_cons, hopen, hrun s hs]

/-- What the decoder reads inside an open bracket, up to and with the closing
one. -/
def Closes (close : Char) (cs rest : List Char) : Prop :=
  ∃ u, cs = u ++ close :: rest ∧ Balanced u

theorem Closes.square (h : Closes ']' cs rest) : Reads ('[' :: cs) rest := by
  obtain ⟨u, rfl, hb⟩ := h
  refine ⟨'[' :: (u ++ [']']), by simp, by simp, fun s hs => ?_⟩
  rw [run_cons, step_square hs, run_append, hb { s with square := s.square + 1 } hs]
  ext <;> simp [Scan.step, hs.1, hs.2]

theorem Closes.curly (h : Closes '}' cs rest) : Reads ('{' :: cs) rest := by
  obtain ⟨u, rfl, hb⟩ := h
  refine ⟨'{' :: (u ++ ['}']), by simp, by simp, fun s hs => ?_⟩
  rw [run_cons, step_curly hs, run_append, hb { s with curly := s.curly + 1 } hs]
  ext <;> simp [Scan.step, hs.1, hs.2]

theorem closes_of_skipWs {close : Char} (h : Closes close (skipWs cs) rest) :
    Closes close cs rest := by
  obtain ⟨u, hu, hb⟩ := h
  obtain ⟨w, hw, hbw⟩ := skipWs_split cs
  exact ⟨w ++ u, by rw [List.append_assoc, ← hu, ← hw], hbw.append hb⟩

theorem Reads.closes {close : Char} (h : Reads cs ds) (h' : Closes close ds rest) :
    Closes close cs rest := by
  obtain ⟨u, rfl, -, hb⟩ := h
  obtain ⟨v, rfl, hb'⟩ := h'
  exact ⟨u ++ v, by simp, hb.append hb'⟩

theorem closes_here {close : Char} : Closes close (close :: rest) rest :=
  ⟨[], rfl, fun _ _ => rfl⟩

theorem scan_reads (n : Nat) :
    (∀ cs v rest, scanOnce n cs = some (v, rest) → Reads cs rest) ∧
      (∀ acc cs v rest, scanItems n acc cs = some (v, rest) → Closes ']' cs rest) ∧
      ∀ acc cs v rest, scanMembers n acc cs = some (v, rest) → Closes '}' cs rest := by
  induction n with
  | zero => simp [scanOnce, scanItems, scanMembers]
  | succ n ih =>
    obtain ⟨ihOnce, ihItems, ihMembers⟩ := ih
    refine ⟨fun cs v rest h => ?_, fun acc cs v rest h => ?_, fun acc cs v rest h => ?_⟩
    · unfold scanOnce at h
      split at h
      · obtain ⟨⟨us, r⟩, hs, he⟩ := Option.map_eq_some_iff.mp h
        cases he
        exact scanString_reads hs
      · refine (closes_of_skipWs ?_).curly
        split at h
        · next hw =>
          cases h
          exact hw ▸ closes_here
        · exact ihMembers _ _ _ _ h
      · refine (closes_of_skipWs ?_).square
        split at h
        · next hw =>
          cases h
          exact hw ▸ closes_here
        · exact ihItems _ _ _ _ h
      · cases h
        exact reads_neutral ['n', 'u', 'l', 'l'] (by simp) (by decide)
      · cases h
        exact reads_neutral ['t', 'r', 'u', 'e'] (by simp) (by decide)
      · cases h
        exact reads_neutral ['f', 'a', 'l', 's', 'e'] (by simp) (by decide)
      · cases h
        exact reads_neutral ['N', 'a', 'N'] (by simp) (by decide)
      · cases h
        exact reads_neutral ['I', 'n', 'f', 'i', 'n', 'i', 't', 'y'] (by simp) (by decide)
      · cases h
        exact reads_neutral ['-', 'I', 'n', 'f', 'i', 'n', 'i', 't', 'y'] (by simp) (by decide)
      · exact (reads_one (by decide)).append (scanNumber_reads h)
      · exact scanNumber_reads h
    · unfold scanItems at h
      split at h
      · cases h
      · next v' r hv =>
        refine (ihOnce _ _ _ hv).closes (closes_of_skipWs ?_)
        split at h
        · next hw =>
          cases h
          exact hw ▸ closes_here
        · next hw =>
          rw [hw]
          exact (reads_one (by decide)).skipWs_right.closes (ihItems _ _ _ _ h)
        · cases h
    · unfold scanMembers at h
      split at h
      · split at h
        · cases h
        · next key r hk =>
          have hkey := scanString_reads hk
          split at h
          · next r' hcolon =>
            split at h
            · cases h
            · next v' r'' hv =>
              have hvalue : Reads (':' :: r') r'' :=
                (reads_one (by decide)).skipWs_right.append (ihOnce _ _ _ hv)
              refine hkey.closes (closes_of_skipWs ?_)
              rw [hcolon]
              refine hvalue.closes (closes_of_skipWs ?_)
              split at h
              · next hw =>
                cases h
                exact hw ▸ closes_here
              · next hw =>
                rw [hw]
                exact (reads_one (by decide)).skipWs_right.closes (ihMembers _ _ _ _ h)
              · cases h
          · cases h
      · cases h

theorem scanOnce_unclosed {n : Nat} {v : Value} (hs : s.code)
    (h : scanOnce n cs = some (v, rest)) :
    ∃ u, cs = u ++ rest ∧ u ≠ [] ∧ s.run u = s := by
  obtain ⟨u, hu, hne, hb⟩ := (scan_reads n).1 cs v rest h
  exact ⟨u, hu, hne, hb s hs⟩

end AlfredProcessing.Lib.Brackets
