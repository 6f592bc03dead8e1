import AlfredProcessing.Lib.JsonText
import Mathlib.Data.List.TakeDrop

namespace AlfredProcessing.Lib.JsonText

open Json

theorem scanOnce_digit {c : Char} (hc : c.isDigit) (n : Nat) (cs : List Char) :
    scanOnce (n + 1) (c :: cs) = scanNumber false (c :: cs) := by
  rw [scanOnce]
  all_goals
    intro _ h
    obtain ⟨rfl, -⟩ := List.cons.inj h
    exact absurd hc (by decide)

theorem scanUnits_body (b : Body) (rest : List Char) :
    scanUnits (b.render ++ '"' :: rest) = some (b.units, rest) := by
  induction b with
  | nil => rfl
  | cons p b ih =>
    simp only [Body.render, Body.units] at ih
    simp only [Body.render, List.flatMap_cons, List.append_assoc, Body.units, List.map_cons]
    cases p with
    | raw c =>
      obtain ⟨c, hc⟩ := c
      simp only [plain, Bool.and_eq_true, decide_eq_true_eq] at hc
      have h32 : ¬ c.toNat < 32 := by omega
      simp [Piece.render, Piece.unit, scanUnits, hc.1.2, hc.2, h32, ih]
    | escape e =>
      obtain ⟨e, he⟩ := e
      obtain ⟨u, hu⟩ := Option.isSome_iff_exists.mp he
      have hne : e ≠ 'u' := by
        rintro rfl
        exact absurd he (by decide)
      simp [Piece.render, Piece.unit, scanUnits, hu, ih, hne]
    | unicode a b c d =>
      obtain ⟨u, hu⟩ : ∃ u, hexUnit a.1 b.1 c.1 d.1 = some u := by
        obtain ⟨_, ha⟩ := Option.isSome_iff_exists.mp a.2
        obtain ⟨_, hb⟩ := Option.isSome_iff_exists.mp b.2
        obtain ⟨_, hc⟩ := Option.isSome_iff_exists.mp c.2
        obtain ⟨_, hd⟩ := Option.isSome_iff_exists.mp d.2
        exact ⟨_, by simp only [hexUnit, ha, hb, hc, hd]; rfl⟩
      simp [Piece.render, Piece.unit, scanUnits, hu, ih]

def stops (rest : List Char) : Prop :=
  ∀ c ∈ rest.head?, c.isDigit = false ∧ c ≠ '.' ∧ c ≠ 'e' ∧ c ≠ 'E'

theorem span_digits (ds : Digits) (rest : List Char) (h : ∀ c ∈ rest.head?, c.isDigit = false) :
    (Digits.render ds ++ rest).span Char.isDigit = (Digits.render ds, rest) := by
  have hall : ∀ c ∈ Digits.render ds, Char.isDigit c = true := by
    intro c hc
    obtain ⟨d, -, rfl⟩ := List.mem_map.mp hc
    exact d.2
  rw [List.span_eq_takeWhile_dropWhile, List.takeWhile_append_of_pos hall,
    List.dropWhile_append_of_pos hall]
  cases rest with
  | nil => simp
  | cons c rest =>
    have hc := h c rfl
    simp [hc]

theorem span_first (d : { c : Char // c.isDigit }) (ds : Digits) (rest : List Char)
    (h : ∀ c ∈ rest.head?, c.isDigit = false) :
    (d.1 :: (Digits.render ds ++ rest)).span Char.isDigit = (d.1 :: Digits.render ds, rest) :=
  span_digits (d :: ds) rest h

theorem scanInt_render (n : IntPart) (rest : List Char) (h : ∀ c ∈ rest.head?, c.isDigit = false) :
    scanInt (n.render ++ rest) = some (n.render, rest) := by
  cases n with
  | zero => rfl
  | digits d ds =>
    have hspan := span_first ⟨d.1, d.2.1⟩ ds rest h
    simp only [IntPart.render, List.cons_append]
    rw [scanInt]
    · rw [hspan]
    · intro _ h0
      exact d.2.2 (List.cons.inj h0).1

theorem scanFrac_render (f : Option ({ c : Char // c.isDigit } × Digits)) (rest : List Char)
    (h : ∀ c ∈ rest.head?, c.isDigit = false ∧ c ≠ '.') :
    scanFrac (fracRender f ++ rest) = (fracDigits f, rest) := by
  cases f with
  | none =>
    cases rest with
    | nil => rfl
    | cons c rest =>
      have hc := (h c rfl).2
      simp [scanFrac, fracRender, fracDigits, hc]
  | some p =>
    obtain ⟨d, ds⟩ := p
    have hspan := span_first d ds rest fun c hc => (h c hc).1
    simp only [fracRender, fracDigits, List.cons_append, scanFrac, hspan]

theorem scanExp_render (e : Option Exponent) (rest : List Char) (h : stops rest) :
    scanExp (expRender e ++ rest) = (e.map Exponent.value, rest) := by
  cases e with
  | none =>
    cases rest with
    | nil => rfl
    | cons c rest =>
      obtain ⟨-, -, he, hE⟩ := h c rfl
      simp [scanExp, expRender, he, hE]
  | some e =>
    obtain ⟨upper, sign, d, ds⟩ := e
    have hspan := span_first d ds rest fun c hc => (h c hc).1
    have hsign : scanSign (signRender sign ++ d.1 :: (Digits.render ds ++ rest)) =
        (decide (sign = some true), d.1 :: (Digits.render ds ++ rest)) := by
      have hd := d.2
      rcases sign with _ | _ | _
      · have hm : d.1 ≠ '-' := by
          intro hm
          rw [hm] at hd
          exact absurd hd (by decide)
        have hp : d.1 ≠ '+' := by
          intro hp
          rw [hp] at hd
          exact absurd hd (by decide)
        simp [scanSign, signRender, hm, hp]
      · rfl
      · rfl
    have hhead : (if upper = true then 'E' else 'e') = 'e' ∨ (if upper = true then 'E' else 'e') = 'E' := by
      cases upper <;> simp
    simp only [expRender, Exponent.render, List.cons_append, List.append_assoc, scanExp, hhead,
      if_true, hsign, hspan, Option.map_some, Exponent.value, signed]

theorem scanNumber_render (n : Number) (rest : List Char) (h : stops rest) :
    scanNumber n.negative (n.unsigned ++ rest) = some (n.value, rest) := by
  have hdot : ∀ c ∈ (expRender n.exp ++ rest).head?, c.isDigit = false ∧ c ≠ '.' := by
    intro c hc
    cases he : n.exp with
    | none =>
      rw [he] at hc
      exact ⟨(h c hc).1, (h c hc).2.1⟩
    | some e =>
      rw [he] at hc
      cases hu : e.upper <;> simp [expRender, Exponent.render, hu] at hc <;> subst hc <;> decide
  have hint : ∀ c ∈ (fracRender n.frac ++ (expRender n.exp ++ rest)).head?, c.isDigit = false := by
    intro c hc
    cases hf : n.frac with
    | none =>
      rw [hf] at hc
      exact (hdot c hc).1
    | some p =>
      rw [hf] at hc
      simp [fracRender] at hc
      subst hc
      decide
  simp only [scanNumber, Number.unsigned, List.append_assoc, scanInt_render n.int _ hint,
    scanFrac_render n.frac _ hdot, scanExp_render n.exp rest h, Option.map_some, Number.value]
  cases hf : n.frac with
  | none => cases he : n.exp <;> simp [fracDigits, signed]
  | some p => simp [fracDigits]

theorem skipWs_render (w : Space) {t : List Char} (h : ∀ c ∈ t.head?, isWs c = false) :
    skipWs (w.render ++ t) = t := by
  have hall : ∀ c ∈ w.render, isWs c = true := by
    intro c hc
    obtain ⟨d, -, rfl⟩ := List.mem_map.mp hc
    exact d.2
  rw [skipWs, List.dropWhile_append_of_pos hall]
  cases t with
  | nil => rfl
  | cons c t =>
    have hc := h c rfl
    simp [hc]

theorem stops_space (w : Space) {c : Char} (t : List Char)
    (h : c.isDigit = false ∧ c ≠ '.' ∧ c ≠ 'e' ∧ c ≠ 'E') : stops (w.render ++ c :: t) := by
  intro b hb
  cases w with
  | nil =>
    obtain rfl : c = b := by simpa [Space.render] using hb
    exact h
  | cons d w =>
    obtain rfl : d.1 = b := by simpa [Space.render] using hb
    have hd := d.2
    simp only [isWs, Bool.or_eq_true, decide_eq_true_eq] at hd
    rcases hd with ((hd | hd) | hd) | hd <;> rw [hd] <;> decide

/-- A value starts with none of the characters that end or separate values. -/
def opens (c : Char) : Bool := !isWs c && c ≠ ']' && c ≠ '}'

theorem opens_digit {c : Char} (h : c.isDigit) : opens c := by
  simp only [opens, isWs, Bool.and_eq_true, Bool.not_eq_true', Bool.or_eq_false_iff,
    decide_eq_false_iff_not, decide_eq_true_eq]
  refine ⟨⟨⟨⟨⟨?_, ?_⟩, ?_⟩, ?_⟩, ?_⟩, ?_⟩ <;> rintro rfl <;> exact absurd h (by decide)

theorem unsigned_head (n : Number) : ∃ c t, n.unsigned = c :: t ∧ c.isDigit := by
  obtain ⟨negative, int, frac, exp⟩ := n
  cases int with
  | zero => exact ⟨'0', _, rfl, rfl⟩
  | digits d ds => exact ⟨d.1, _, rfl, d.2.1⟩

theorem Doc.render_head (d : Doc) : ∃ c t, d.render = c :: t ∧ opens c := by
  cases d with
  | null => exact ⟨_, _, rfl, rfl⟩
  | bool b => cases b <;> exact ⟨_, _, rfl, rfl⟩
  | number n =>
    obtain ⟨c, t, h, hc⟩ := unsigned_head n
    cases hn : n.negative with
    | false => exact ⟨c, t, by simp [Doc.render, Number.render, hn, h], opens_digit hc⟩
    | true => exact ⟨'-', n.unsigned, by simp [Doc.render, Number.render, hn], rfl⟩
  | string b => exact ⟨_, _, rfl, rfl⟩
  | emptyArray w => exact ⟨_, _, rfl, rfl⟩
  | array w xs => exact ⟨_, _, rfl, rfl⟩
  | emptyObject w => exact ⟨_, _, rfl, rfl⟩
  | object w ms => exact ⟨_, _, rfl, rfl⟩

theorem Items.render_head (xs : Items) : ∃ c t, xs.render = c :: t ∧ opens c := by
  cases xs with
  | last d after =>
    obtain ⟨c, t, h, hc⟩ := d.render_head
    exact ⟨c, _, by rw [Items.render, h]; rfl, hc⟩
  | cons d after lead rest =>
    obtain ⟨c, t, h, hc⟩ := d.render_head
    exact ⟨c, _, by rw [Items.render, h]; rfl, hc⟩

theorem Members.render_head (ms : Members) : ∃ t, ms.render = '"' :: t := by
  cases ms <;> exact ⟨_, rfl⟩

theorem scanOnce_number (n : Number) (k : Nat) (rest : List Char) (h : stops rest) :
    scanOnce (k + 1) (n.render ++ rest) = some (n.value, rest) := by
  have hn := scanNumber_render n rest h
  obtain ⟨c, t, hc, hd⟩ := unsigned_head n
  cases hneg : n.negative with
  | false =>
    rw [hneg] at hn
    simp only [Number.render, hneg, Bool.false_eq_true, if_false]
    rw [hc] at hn ⊢
    rw [List.cons_append, scanOnce_digit hd]
    exact hn
  | true =>
    rw [hneg] at hn
    simp only [Number.render, hneg, if_true]
    rw [hc] at hn ⊢
    rw [List.cons_append, List.cons_append, scanOnce]
    · exact hn
    · intro _ hI
      have hcI := (List.cons.inj hI).1
      rw [hcI] at hd
      exact absurd hd (by decide)

theorem scanString_body (b : Body) (rest : List Char) :
    scanString (b.render ++ '"' :: rest) = some (joinSurrogates b.units, rest) := by
  simp [scanString, scanUnits_body]

theorem opens_ws {c : Char} (h : opens c) : isWs c = false := by
  simp only [opens, Bool.and_eq_true, Bool.not_eq_true'] at h
  exact h.1.1

mutual

theorem scanOnce_render : ∀ (d : Doc) (n : Nat) (rest : List Char), 2 * d.render.length ≤ n →
    (∀ m, d = .number m → stops rest) → scanOnce n (d.render ++ rest) = some (d.value, rest)
  | .null, 0, _, hn, _ | .bool true, 0, _, hn, _ | .bool false, 0, _, hn, _
  | .string _, 0, _, hn, _ | .emptyArray _, 0, _, hn, _ | .array _ _, 0, _, hn, _
  | .emptyObject _, 0, _, hn, _ | .object _ _, 0, _, hn, _ => by simp [Doc.render] at hn
  | .number m, 0, _, hn, _ => by
    obtain ⟨c, t, h, -⟩ := Doc.render_head (.number m)
    rw [h] at hn
    simp at hn
  | .null, n + 1, _, _, _ => rfl
  | .bool true, n + 1, _, _, _ => rfl
  | .bool false, n + 1, _, _, _ => rfl
  | .number m, n + 1, rest, _, hs => scanOnce_number m n rest (hs m rfl)
  | .string b, n + 1, rest, _, _ => by
    simp only [Doc.render, List.cons_append, List.append_assoc, List.nil_append, scanOnce,
      scanString_body, Option.map_some, Doc.value]
  | .emptyArray w, n + 1, rest, _, _ => by
    have hw := skipWs_render w (t := ']' :: rest) (by simp; rfl)
    simp only [Doc.render, List.cons_append, List.append_assoc, List.nil_append, scanOnce, hw,
      Doc.value]
  | .emptyObject w, n + 1, rest, _, _ => by
    have hw := skipWs_render w (t := '}' :: rest) (by simp; rfl)
    simp only [Doc.render, List.cons_append, List.append_assoc, List.nil_append, scanOnce, hw,
      Doc.value]
  | .array w xs, n + 1, rest, hn, _ => by
    obtain ⟨c, t, hx, hc⟩ := xs.render_head
    have hw := skipWs_render w (t := xs.render ++ rest) (by simp [hx, opens_ws hc])
    have hlen : 2 * xs.render.length ≤ n := by
      simp only [Doc.render, List.length_cons, List.length_append] at hn
      omega
    have hi := scanItems_render xs n [] rest hlen
    have hclose : c ≠ ']' := by
      rintro rfl
      exact absurd hc (by decide)
    simp only [Doc.render, List.cons_append, List.append_assoc, Doc.value]
    rw [scanOnce, hw]
    rw [hx] at hi ⊢
    simp only [List.cons_append] at hi ⊢
    split
    · next h => exact absurd (List.cons.inj h).1 hclose
    · exact hi
  | .object w ms, n + 1, rest, hn, _ => by
    obtain ⟨t, hm⟩ := ms.render_head
    have hw := skipWs_render w (t := ms.render ++ rest) (by rw [hm]; simp; rfl)
    have hlen : 2 * ms.render.length ≤ n := by
      simp only [Doc.render, List.length_cons, List.length_append] at hn
      omega
    have hi := scanMembers_render ms n [] rest hlen
    simp only [Doc.render, List.cons_append, List.append_assoc, Doc.value]
    rw [scanOnce, hw]
    rw [hm] at hi ⊢
    exact hi

theorem scanItems_render : ∀ (xs : Items) (n : Nat) (acc : List Value) (rest : List Char),
    2 * xs.render.length ≤ n →
      scanItems n acc (xs.render ++ rest) = some (.list (acc ++ xs.values), rest)
  | .last d after, 0, _, _, hn | .cons d after _ _, 0, _, _, hn => by
    simp [Items.render] at hn
  | .last d after, n + 1, acc, rest, hn => by
    have hlen : 2 * d.render.length ≤ n := by
      simp only [Items.render, List.length_append, List.length_cons, List.length_nil] at hn
      omega
    have hd := scanOnce_render d n (after.render ++ ']' :: rest) hlen
      fun _ _ => stops_space after _ (by decide)
    have hw := skipWs_render after (t := ']' :: rest) (by simp; rfl)
    simp only [Items.render, List.append_assoc, List.singleton_append, scanItems, hd, hw,
      Items.values]
  | .cons d after lead xs, n + 1, acc, rest, hn => by
    have hlen : 2 * d.render.length ≤ n ∧ 2 * xs.render.length ≤ n := by
      simp only [Items.render, List.length_append, List.length_cons] at hn
      omega
    have hd := scanOnce_render d n (after.render ++ ',' :: (lead.render ++ (xs.render ++ rest)))
      hlen.1 fun _ _ => stops_space after _ (by decide)
    have hw := skipWs_render after (t := ',' :: (lead.render ++ (xs.render ++ rest))) (by simp; rfl)
    obtain ⟨c, t, hx, hc⟩ := xs.render_head
    have hl := skipWs_render lead (t := xs.render ++ rest) (by simp [hx, opens_ws hc])
    have hi := scanItems_render xs n (acc ++ [d.value]) rest hlen.2
    simp only [Items.render, List.append_assoc, List.cons_append, scanItems, hd, hw, hl, hi,
      Items.values, List.append_assoc, List.nil_append]

theorem scanMembers_render : ∀ (ms : Members) (n : Nat) (acc : List (Str × Value))
    (rest : List Char), 2 * ms.render.length ≤ n →
      scanMembers n acc (ms.render ++ rest) = some (.dict (ms.entries acc) .none, rest)
  | .last .., 0, _, _, hn | .cons .., 0, _, _, hn => by
    simp [Members.render] at hn
  | .last key w₁ w₂ d after, n + 1, acc, rest, hn => by
    have hlen : 2 * d.render.length ≤ n := by
      simp only [Members.render, List.length_append, List.length_cons, List.length_nil] at hn
      omega
    have hk := scanString_body key (w₁.render ++ ':' :: (w₂.render ++ (d.render ++
      (after.render ++ '}' :: rest))))
    have h₁ := skipWs_render w₁ (t := ':' :: (w₂.render ++ (d.render ++
      (after.render ++ '}' :: rest)))) (by simp; rfl)
    obtain ⟨c, t, hx, hc⟩ := d.render_head
    have h₂ := skipWs_render w₂ (t := d.render ++ (after.render ++ '}' :: rest))
      (by simp [hx, opens_ws hc])
    have hd := scanOnce_render d n (after.render ++ '}' :: rest) hlen
      fun _ _ => stops_space after _ (by decide)
    have hw := skipWs_render after (t := '}' :: rest) (by simp; rfl)
    simp only [Members.render, List.append_assoc, List.cons_append, List.nil_append,
      scanMembers, hk, h₁, h₂, hd, hw, Members.entries]
  | .cons key w₁ w₂ d after lead ms, n + 1, acc, rest, hn => by
    have hlen : 2 * d.render.length ≤ n ∧ 2 * ms.render.length ≤ n := by
      simp only [Members.render, List.length_append, List.length_cons] at hn
      omega
    have hk := scanString_body key (w₁.render ++ ':' :: (w₂.render ++ (d.render ++
      (after.render ++ ',' :: (lead.render ++ (ms.render ++ rest))))))
    have h₁ := skipWs_render w₁ (t := ':' :: (w₂.render ++ (d.render ++
      (after.render ++ ',' :: (lead.render ++ (ms.render ++ rest)))))) (by simp; rfl)
    obtain ⟨c, t, hx, hc⟩ := d.render_head
    have h₂ := skipWs_render w₂ (t := d.render ++ (after.render ++ ',' :: (lead.render ++
      (ms.render ++ rest)))) (by simp [hx, opens_ws hc])
    have hd := scanOnce_render d n (after.render ++ ',' :: (lead.render ++ (ms.render ++ rest)))
      hlen.1 fun _ _ => stops_space after _ (by decide)
    have hw := skipWs_render after (t := ',' :: (lead.render ++ (ms.render ++ rest))) (by simp; rfl)
    obtain ⟨u, hm⟩ := ms.render_head
    have hl := skipWs_render lead (t := ms.render ++ rest) (by rw [hm]; simp; rfl)
    have hi := scanMembers_render ms n (insert (joinSurrogates key.units) d.value acc) rest hlen.2
    simp only [Members.render, List.append_assoc, List.cons_append, scanMembers, hk, h₁, h₂, hd, hw,
      hl, hi, Members.entries]

end

/-- Decoding reads back what was written, whatever follows it. Only a number
has to end where other text begins. -/
theorem rawDecode_render (d : Doc) (rest : List Char) (h : ∀ m, d = .number m → stops rest) :
    rawDecode (d.render ++ rest) = some (d.value, rest) :=
  scanOnce_render d _ rest (by simp; omega) h

section Opening

variable {cs : List Char} {o : List (Str × Value)}

theorem scanNumber_ne_dict {negative : Bool} {strays : Strays} {rest : List Char} :
    scanNumber negative cs ≠ some (.dict o strays, rest) := by
  intro h
  obtain ⟨p, -, hp⟩ := Option.map_eq_some_iff.mp h
  dsimp only at hp
  split_ifs at hp
  · cases hp
  · obtain hfloat | ⟨x, hfloat⟩ := floatOf_cases (signed negative (natOf (p.1 ++ (scanFrac p.2).1)))
      ((scanExp (scanFrac p.2).2).1.getD 0 - (scanFrac p.2).1.length)
    · rw [hfloat] at hp
      cases hp
    · rw [hfloat] at hp
      cases hp

theorem scanItems_ne_dict {n : Nat} {acc : List Value} {strays : Strays} {rest : List Char} :
    scanItems n acc cs ≠ some (.dict o strays, rest) := by
  induction n generalizing acc cs with
  | zero => exact fun h => by cases h
  | succ n ih =>
    intro h
    rw [scanItems] at h
    split at h
    · cases h
    · split at h
      · cases h
      · exact ih h
      · cases h

theorem scanOnce_dict {n : Nat} {strays : Strays} {rest : List Char} (h : scanOnce n cs = some (.dict o strays, rest)) :
    ∃ t, cs = '{' :: t := by
  cases n with
  | zero => cases h
  | succ n =>
    unfold scanOnce at h
    split at h
    · obtain ⟨p, -, hp⟩ := Option.map_eq_some_iff.mp h
      cases hp
    · exact ⟨_, rfl⟩
    · split at h
      · cases h
      · exact absurd h scanItems_ne_dict
    · cases h
    · cases h
    · cases h
    · cases h
    · cases h
    · cases h
    · exact absurd h scanNumber_ne_dict
    · exact absurd h scanNumber_ne_dict

end Opening

end AlfredProcessing.Lib.JsonText
