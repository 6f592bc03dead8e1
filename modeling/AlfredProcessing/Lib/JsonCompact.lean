import AlfredProcessing.Lib.JsonDecode
import AlfredProcessing.Lib.JsonDump

namespace AlfredProcessing.Lib.JsonCompact

open Json JsonText JsonDump

section Texts

/-- Floats. A decimal stands for the float next to it, which is known by a decimal of its own, or for an
infinity; the text of a float is read as that float again. -/
structure Floats where
  read : Int → Int → Value
  text : Int → Int → List Char
  read_cases : ∀ m e, (∃ m' e', read m e = .float m' e') ∨ ∃ x, read m e = .nonFinite x
  read_read : ∀ m e m' e', read m e = .float m' e' → read m' e' = .float m' e'
  text_number : ∀ m e, read m e = .float m e →
    ∃ (n : Number) (m' e' : Int), n.render = text m e ∧ n.value = .float m' e' ∧ read m' e' = .float m e

def nonFiniteText : NonFinite → List Char
  | .nan => ['N', 'a', 'N']
  | .inf => ['I', 'n', 'f', 'i', 'n', 'i', 't', 'y']
  | .negInf => ['-', 'I', 'n', 'f', 'i', 'n', 'i', 't', 'y']

variable (f : Floats)

mutual

def settle : Value → Value
  | .float m e => f.read m e
  | .list xs => .list (settleItems xs)
  | .dict es strays => .dict (settleMembers es) strays
  | v => v

def settleItems : List Value → List Value
  | [] => []
  | v :: vs => settle v :: settleItems vs

def settleMembers : List (Str × Value) → List (Str × Value)
  | [] => []
  | (k, v) :: es => (k, settle v) :: settleMembers es

end

mutual

/-- `json.dumps` with the separators `","` and `":"`. -/
def compact : Value → List Char
  | .null => ['n', 'u', 'l', 'l']
  | .bool true => ['t', 'r', 'u', 'e']
  | .bool false => ['f', 'a', 'l', 's', 'e']
  | .int n => intText n
  | .float m e => f.text m e
  | .nonFinite x => nonFiniteText x
  | .str s => quote s
  | .list [] => ['[', ']']
  | .list (v :: vs) => '[' :: (compact v ++ compactItems vs)
  | .dict [] _ => ['{', '}']
  | .dict ((k, v) :: es) _ => '{' :: (quote k ++ ':' :: (compact v ++ compactMembers es))
  | .other .. => []

/-- The elements behind the first one, up to and with the closing bracket. -/
def compactItems : List Value → List Char
  | [] => [']']
  | v :: vs => ',' :: (compact v ++ compactItems vs)

def compactMembers : List (Str × Value) → List Char
  | [] => ['}']
  | (k, v) :: es => ',' :: (quote k ++ ':' :: (compact v ++ compactMembers es))

end

mutual

def Decoded : Value → Prop
  | .str s => wellFormed s = true
  | .list xs => DecodedItems xs
  | .dict es strays => strays = .none ∧ (es.map Prod.fst).Nodup ∧ DecodedMembers es
  | .other .. => False
  | _ => True

def DecodedItems : List Value → Prop
  | [] => True
  | v :: vs => Decoded v ∧ DecodedItems vs

def DecodedMembers : List (Str × Value) → Prop
  | [] => True
  | (k, v) :: es => wellFormed k = true ∧ Decoded v ∧ DecodedMembers es

end

end Texts

section Numbers

theorem natOf_eq (ds : List Char) : natOf ds = Nat.ofDigitChars 10 ds 0 := by
  rw [Nat.ofDigitChars_eq_foldl]
  rfl

theorem toDigits_head (n : Nat) (hn : 0 < n) : ∃ d ds, Nat.toDigits 10 n = d :: ds ∧ d ≠ '0' := by
  induction n using Nat.strongRecOn with
  | ind n ih =>
    by_cases hlt : n < 10
    · refine ⟨n.digitChar, [], Nat.toDigits_of_lt_base hlt, ?_⟩
      have hdigits : ∀ k < 10, 0 < k → k.digitChar ≠ '0' := by decide
      exact hdigits n hlt hn
    · obtain ⟨d, ds, hds, hd⟩ := ih (n / 10) (by omega) (by omega)
      refine ⟨d, ds ++ [(n % 10).digitChar], ?_, hd⟩
      rw [Nat.toDigits_of_base_le (by decide) (by omega), hds, List.cons_append]

theorem intPart_exists (n : Nat) : ∃ i : IntPart, i.render = Nat.toDigits 10 n := by
  obtain rfl | hn := Nat.eq_zero_or_pos n
  · exact ⟨.zero, rfl⟩
  · obtain ⟨d, ds, hds, hd⟩ := toDigits_head n hn
    have hall : ∀ c ∈ d :: ds, c.isDigit := hds ▸ digits_toDigits n
    obtain ⟨hdigit, hrest⟩ := List.forall_mem_cons.mp hall
    refine ⟨.digits ⟨d, hdigit, hd⟩ (ds.attach.map fun c => ⟨c.1, hrest c.1 c.2⟩), ?_⟩
    rw [IntPart.render, Digits.render, List.map_map, hds]
    simp

theorem number_int (z : Int) : ∃ n : Number, n.render = intText z ∧ n.value = .int z := by
  obtain ⟨i, hi⟩ := intPart_exists z.natAbs
  refine ⟨⟨decide (z < 0), i, none, none⟩, ?_, ?_⟩
  · by_cases hz : z < 0
    · simp [Number.render, Number.unsigned, intText, hz, hi, fracRender, expRender]
    · simp [Number.render, Number.unsigned, intText, hz, hi, fracRender, expRender]
  · have hnat : natOf i.render = z.natAbs := by
      rw [hi, natOf_eq, Nat.ofDigitChars_ten_toDigits]
    have hsigned : signed (decide (z < 0)) z.natAbs = z := by
      by_cases hneg : z < 0
      · rw [signed, decide_eq_true hneg, if_pos rfl]
        omega
      · rw [signed, decide_eq_false hneg, if_neg Bool.false_ne_true]
        omega
    simp [Number.value, hnat, hsigned]

theorem scan_int (z : Int) (n : Nat) (rest : List Char) (h : stops rest) :
    scanOnce (n + 1) (intText z ++ rest) = some (.int z, rest) := by
  obtain ⟨m, hrender, hvalue⟩ := number_int z
  rw [← hrender, scanOnce_number m n rest h, hvalue]

end Numbers

section Reading

variable {f : Floats} {v : Value} {vs : List Value} {es : List (Str × Value)} {s : Str}

theorem scanString_quote (hs : wellFormed s = true) (rest : List Char) :
    ∃ t, quote s ++ rest = '"' :: t ∧ scanString t = some (s, rest) := by
  refine ⟨(units s).flatMap escape ++ '"' :: rest, ?_, ?_⟩
  · rw [quote, List.cons_append, List.append_assoc]
    rfl
  · rw [scanString, scanUnits_flatMap_escape (units_lt hs), Option.map_some, joinSurrogates_units hs]

theorem number_head (n : Number) : ∃ c t, n.render = c :: t ∧ opens c = true := by
  obtain ⟨c, t, h, hc⟩ := unsigned_head n
  cases hn : n.negative with
  | false => exact ⟨c, t, by simp [Number.render, hn, h], opens_digit hc⟩
  | true => exact ⟨'-', n.unsigned, by simp [Number.render, hn], rfl⟩

theorem settle_float {m e : Int} (h : settle f v = .float m e) : f.read m e = .float m e := by
  cases v with
  | float m' e' => exact f.read_read m' e' m e h
  | _ => cases h

theorem compact_head (hsettled : settle f v = v) (h : Decoded v) : ∃ c t, compact f v = c :: t ∧ opens c = true := by
  cases v with
  | null => exact ⟨_, _, rfl, rfl⟩
  | bool b => cases b <;> exact ⟨_, _, rfl, rfl⟩
  | int n =>
    obtain ⟨m, hm, -⟩ := number_int n
    obtain ⟨c, t, hc, hopens⟩ := number_head m
    exact ⟨c, t, hm.symm.trans hc, hopens⟩
  | float m e =>
    obtain ⟨n, -, -, hn, -⟩ := f.text_number m e (settle_float hsettled)
    obtain ⟨c, t, hc, hopens⟩ := number_head n
    exact ⟨c, t, hn.symm.trans hc, hopens⟩
  | nonFinite x => cases x <;> exact ⟨_, _, rfl, rfl⟩
  | str s => exact ⟨_, _, rfl, rfl⟩
  | list xs => cases xs <;> exact ⟨_, _, rfl, rfl⟩
  | dict es strays => cases es <;> exact ⟨_, _, rfl, rfl⟩
  | other => exact h.elim

theorem skipWs_opens {c : Char} {t : List Char} (h : opens c = true) : skipWs (c :: t) = c :: t :=
  List.dropWhile_cons_of_neg (by simp [opens_ws h])

theorem stops_cons {c : Char} (rest : List Char) (h : c.isDigit = false ∧ c ≠ '.' ∧ c ≠ 'e' ∧ c ≠ 'E') :
    stops (c :: rest) := by
  intro d hd
  cases hd
  exact h

theorem stops_items (vs : List Value) (rest : List Char) : stops (compactItems f vs ++ rest) := by
  cases vs <;> exact stops_cons _ (by decide)

theorem stops_members (es : List (Str × Value)) (rest : List Char) : stops (compactMembers f es ++ rest) := by
  cases es <;> exact stops_cons _ (by decide)

theorem insert_new {k : Str} {acc : List (Str × Value)} (hk : k ∉ acc.map Prod.fst) (v : Value) :
    insert k v acc = acc ++ [(k, v)] := by
  induction acc with
  | nil => rfl
  | cons e acc ih =>
    obtain ⟨k', v'⟩ := e
    rw [List.map_cons, List.mem_cons, not_or] at hk
    rw [Json.insert, if_neg (Ne.symm hk.1), ih hk.2, List.cons_append]

mutual

theorem scan_compact : ∀ (v : Value) (n : Nat) (rest : List Char), settle f v = v → Decoded v →
    2 * (compact f v).length ≤ n → stops rest →
    ∃ w, scanOnce n (compact f v ++ rest) = some (w, rest) ∧ settle f w = v
  | v, 0, rest, hsettled, hdecoded, hn, _ => by
    obtain ⟨c, t, hc, -⟩ := compact_head hsettled hdecoded
    rw [hc] at hn
    simp at hn
  | .null, n + 1, rest, _, _, _, _ => ⟨.null, rfl, rfl⟩
  | .bool true, n + 1, rest, _, _, _, _ => ⟨.bool true, rfl, rfl⟩
  | .bool false, n + 1, rest, _, _, _, _ => ⟨.bool false, rfl, rfl⟩
  | .int z, n + 1, rest, _, _, _, hstops => ⟨.int z, scan_int z n rest hstops, rfl⟩
  | .float m e, n + 1, rest, hsettled, _, _, hstops => by
    obtain ⟨number, m', e', hrender, hvalue, hread⟩ := f.text_number m e (settle_float hsettled)
    refine ⟨.float m' e', ?_, hread⟩
    rw [compact, ← hrender, scanOnce_number number n rest hstops, hvalue]
  | .nonFinite .nan, n + 1, rest, _, _, _, _ => ⟨.nonFinite .nan, rfl, rfl⟩
  | .nonFinite .inf, n + 1, rest, _, _, _, _ => ⟨.nonFinite .inf, rfl, rfl⟩
  | .nonFinite .negInf, n + 1, rest, _, _, _, _ => ⟨.nonFinite .negInf, rfl, rfl⟩
  | .str s, n + 1, rest, _, hdecoded, _, _ => by
    obtain ⟨t, ht, hscan⟩ := scanString_quote hdecoded rest
    refine ⟨.str s, ?_, rfl⟩
    rw [compact, ht, scanOnce, hscan]
    rfl
  | .list [], n + 1, rest, _, _, _, _ => ⟨.list [], rfl, rfl⟩
  | .list (v :: vs), n + 1, rest, hsettled, hdecoded, hn, _ => by
    have hitems : settleItems f (v :: vs) = v :: vs := by simpa only [settle, Value.list.injEq] using hsettled
    have hlen : 2 * (compactItems f (v :: vs)).tail.length ≤ n := by
      simp only [compact, List.length_cons] at hn
      simp only [compactItems, List.tail_cons]
      omega
    obtain ⟨ws, hscan, hws⟩ := scan_items (v :: vs) n [] rest (by simp) hitems hdecoded hlen
    obtain ⟨c, t, hc, hopens⟩ := compact_head (List.cons.inj hitems).1 hdecoded.1
    have hclose : c ≠ ']' := by
      rintro rfl
      exact absurd hopens (by decide)
    refine ⟨.list ws, ?_, by rw [settle, hws]⟩
    simp only [compactItems, List.tail_cons, hc, List.cons_append, List.nil_append] at hscan
    simp only [compact, hc, List.cons_append, scanOnce, skipWs_opens hopens]
    split
    · next heq => exact absurd (List.cons.inj heq).1 hclose
    · exact hscan
  | .dict [] strays, n + 1, rest, _, hdecoded, _, _ => by
    obtain ⟨rfl, -⟩ := hdecoded
    exact ⟨.dict [] .none, rfl, rfl⟩
  | .dict ((k, v) :: es) strays, n + 1, rest, hsettled, hdecoded, hn, _ => by
    obtain ⟨rfl, hnodup, hmembers⟩ := hdecoded
    have hentries : settleMembers f ((k, v) :: es) = (k, v) :: es := by
      simpa only [settle, Value.dict.injEq, and_true] using hsettled
    have hlen : 2 * (compactMembers f ((k, v) :: es)).tail.length ≤ n := by
      simp only [compact, List.length_cons] at hn
      simp only [compactMembers, List.tail_cons]
      omega
    obtain ⟨fs, hscan, hfs⟩ := scan_members ((k, v) :: es) n [] rest (by simp) hentries hmembers hnodup (by simp) hlen
    refine ⟨.dict fs .none, ?_, by rw [settle, hfs]⟩
    simp only [compactMembers, List.tail_cons, quote, List.cons_append, List.nil_append] at hscan
    simp only [compact, quote, List.cons_append, scanOnce, skipWs_opens (show opens '"' = true from rfl)]
    split
    · next heq => exact absurd (List.cons.inj heq).1 (by decide)
    · exact hscan
  | .other .., n + 1, _, _, hdecoded, _, _ => hdecoded.elim

theorem scan_items : ∀ (vs : List Value) (n : Nat) (acc : List Value) (rest : List Char), vs ≠ [] →
    settleItems f vs = vs → DecodedItems vs → 2 * (compactItems f vs).tail.length ≤ n →
    ∃ ws, scanItems n acc ((compactItems f vs).tail ++ rest) = some (.list (acc ++ ws), rest) ∧ settleItems f ws = vs
  | [], _, _, _, hne, _, _, _ => absurd rfl hne
  | v :: vs, 0, _, _, _, hsettled, hdecoded, hn => by
    obtain ⟨c, t, hc, -⟩ := compact_head (List.cons.inj hsettled).1 hdecoded.1
    simp [compactItems, hc] at hn
  | [v], n + 1, acc, rest, _, hsettled, hdecoded, hn => by
    have hlen : 2 * (compact f v).length ≤ n := by
      simp only [compactItems, List.tail_cons, List.length_append, List.length_singleton] at hn
      omega
    obtain ⟨w, hscan, hw⟩ := scan_compact v n (']' :: rest) (List.cons.inj hsettled).1 hdecoded.1 hlen
      (stops_cons rest (by decide))
    refine ⟨[w], ?_, by rw [settleItems, hw, settleItems]⟩
    simp only [compactItems, List.tail_cons, List.append_assoc, List.cons_append, List.nil_append, scanItems, hscan]
    rfl
  | v :: u :: us, n + 1, acc, rest, _, hsettled, hdecoded, hn => by
    have hlen : 2 * (compact f v).length ≤ n ∧ 2 * (compactItems f (u :: us)).tail.length ≤ n := by
      simp only [compactItems, List.tail_cons, List.length_append, List.length_cons] at hn ⊢
      omega
    obtain ⟨hv, hus⟩ := List.cons.inj hsettled
    obtain ⟨w, hscan, hw⟩ := scan_compact v n (compactItems f (u :: us) ++ rest) hv hdecoded.1 hlen.1
      (stops_items (u :: us) rest)
    obtain ⟨ws, hscans, hws⟩ := scan_items (u :: us) n (acc ++ [w]) rest (by simp) hus hdecoded.2 hlen.2
    obtain ⟨c, t, hc, hopens⟩ := compact_head (List.cons.inj hus).1 hdecoded.2.1
    refine ⟨w :: ws, ?_, by rw [settleItems, hw, hws]⟩
    have htail : (compactItems f (v :: u :: us)).tail ++ rest = compact f v ++ (compactItems f (u :: us) ++ rest) := by
      simp [compactItems]
    rw [htail, scanItems, hscan]
    simp only [compactItems, List.tail_cons, hc, List.cons_append, List.append_assoc, List.nil_append] at hscans ⊢
    simp only [skipWs_opens (show opens ',' = true from rfl), skipWs_opens hopens]
    exact hscans

theorem scan_members : ∀ (es : List (Str × Value)) (n : Nat) (acc : List (Str × Value)) (rest : List Char),
    es ≠ [] → settleMembers f es = es → DecodedMembers es → (es.map Prod.fst).Nodup →
    (∀ k ∈ es.map Prod.fst, k ∉ acc.map Prod.fst) → 2 * (compactMembers f es).tail.length ≤ n →
    ∃ fs, scanMembers n acc ((compactMembers f es).tail ++ rest) = some (.dict (acc ++ fs) .none, rest) ∧
      settleMembers f fs = es
  | [], _, _, _, hne, _, _, _, _, _ => absurd rfl hne
  | (k, v) :: es, 0, _, _, _, _, _, _, _, hn => by
    simp [compactMembers, quote] at hn
  | [(k, v)], n + 1, acc, rest, _, hsettled, hdecoded, _, hnew, hn => by
    have hlen : 2 * (compact f v).length ≤ n := by
      simp only [compactMembers, List.tail_cons, List.length_append, List.length_cons, List.length_nil] at hn
      omega
    have hv : settle f v = v := (Prod.mk.inj (List.cons.inj hsettled).1).2
    obtain ⟨w, hscan, hw⟩ := scan_compact v n ('}' :: rest) hv hdecoded.2.1 hlen (stops_cons rest (by decide))
    obtain ⟨t, ht, hkey⟩ := scanString_quote hdecoded.1 (':' :: (compact f v ++ '}' :: rest))
    obtain ⟨c, u, hc, hopens⟩ := compact_head hv hdecoded.2.1
    refine ⟨[(k, w)], ?_, by rw [settleMembers, hw, settleMembers]⟩
    have htail : (compactMembers f [(k, v)]).tail ++ rest = '"' :: t := by
      rw [← ht]
      simp [compactMembers]
    rw [htail, scanMembers, hkey]
    rw [hc, List.cons_append] at hscan ⊢
    simp only [skipWs_opens (show opens ':' = true from rfl), skipWs_opens hopens, hscan]
    rw [← insert_new (hnew k (by simp)) w]
    rfl
  | (k, v) :: (l, u) :: es, n + 1, acc, rest, _, hsettled, hdecoded, hnodup, hnew, hn => by
    have hlen : 2 * (compact f v).length ≤ n ∧ 2 * (compactMembers f ((l, u) :: es)).tail.length ≤ n := by
      simp only [compactMembers, List.tail_cons, List.length_append, List.length_cons] at hn ⊢
      omega
    obtain ⟨hfirst, hes⟩ := List.cons.inj hsettled
    have hv : settle f v = v := (Prod.mk.inj hfirst).2
    obtain ⟨hk, hrest⟩ := List.nodup_cons.mp hnodup
    obtain ⟨w, hscan, hw⟩ := scan_compact v n (compactMembers f ((l, u) :: es) ++ rest) hv hdecoded.2.1 hlen.1
      (stops_members ((l, u) :: es) rest)
    have hnew' : ∀ j ∈ ((l, u) :: es).map Prod.fst, j ∉ (acc ++ [(k, w)]).map Prod.fst := by
      intro j hj hmem
      rw [List.map_append, List.mem_append] at hmem
      obtain hmem | hmem := hmem
      · exact hnew j (List.mem_cons_of_mem k hj) hmem
      · cases List.mem_singleton.mp hmem
        exact hk hj
    obtain ⟨fs, hscans, hfs⟩ := scan_members ((l, u) :: es) n (acc ++ [(k, w)]) rest (by simp) hes hdecoded.2.2
      hrest hnew' hlen.2
    obtain ⟨t, ht, hkey⟩ := scanString_quote hdecoded.1
      (':' :: (compact f v ++ (compactMembers f ((l, u) :: es) ++ rest)))
    obtain ⟨c, x, hc, hopens⟩ := compact_head hv hdecoded.2.1
    refine ⟨(k, w) :: fs, ?_, by rw [settleMembers, hw, hfs]⟩
    have htail : (compactMembers f ((k, v) :: (l, u) :: es)).tail ++ rest = '"' :: t := by
      rw [← ht]
      simp [compactMembers]
    rw [htail, scanMembers, hkey]
    rw [hc, List.cons_append] at hscan ⊢
    simp only [skipWs_opens (show opens ':' = true from rfl), skipWs_opens hopens, hscan]
    simp only [compactMembers, List.tail_cons, quote, List.cons_append, List.append_assoc, List.nil_append] at hscans ⊢
    simp only [skipWs_opens (show opens ',' = true from rfl), skipWs_opens (show opens '"' = true from rfl)]
    rw [insert_new (hnew k (by simp)) w]
    exact hscans

end

theorem rawDecode_compact (hsettled : settle f v = v) (h : Decoded v) :
    ∃ w, rawDecode (compact f v) = some (w, []) ∧ settle f w = v := by
  obtain ⟨w, hscan, hw⟩ := scan_compact v (2 * (compact f v).length + 2) [] hsettled h (by omega) (by intro c hc; cases hc)
  rw [List.append_nil] at hscan
  exact ⟨w, hscan, hw⟩

end Reading

section Decoding

variable {cs rest : List Char}

theorem wellFormed_cons {n : Nat} {s : Str} (hn : n < 0x110000) (hs : wellFormed s = true)
    (h : ∀ m ∈ s.head?, ¬(isHigh n = true ∧ isLow m = true)) : wellFormed (n :: s) = true := by
  cases s with
  | nil => simpa [wellFormed] using hn
  | cons m s =>
    have hm := h m rfl
    simp only [wellFormed, Bool.and_eq_true, decide_eq_true_eq, Bool.not_eq_true', Bool.and_eq_false_iff]
    refine ⟨⟨hn, ?_⟩, hs⟩
    cases hhigh : isHigh n <;> cases hlow : isLow m <;> simp_all

theorem head_joinSurrogates {u m : Nat} {us : Str} (h : m ∈ (joinSurrogates (u :: us)).head?) : m = u ∨ 0x10000 ≤ m := by
  cases us with
  | nil =>
    cases h
    exact .inl rfl
  | cons l us =>
    rw [joinSurrogates] at h
    split at h
    · rw [List.head?_cons, Option.mem_some_iff] at h
      omega
    · rw [List.head?_cons, Option.mem_some_iff] at h
      exact .inl h.symm

theorem wellFormed_joinSurrogates {us : Str} (h : ∀ u ∈ us, u < 0x110000) : wellFormed (joinSurrogates us) = true := by
  induction us using joinSurrogates.induct with
  | case1 hi lo us hpair ih =>
    rw [joinSurrogates, if_pos hpair]
    refine wellFormed_cons (by omega) (ih fun u hu => h u (by simp [hu])) fun m _ hboth => ?_
    simp only [isHigh, Bool.and_eq_true, decide_eq_true_eq] at hboth
    omega
  | case2 hi lo us hpair ih =>
    rw [joinSurrogates, if_neg hpair]
    obtain ⟨hhi, hrest⟩ := List.forall_mem_cons.mp h
    refine wellFormed_cons hhi (ih hrest) fun m hm hboth => ?_
    simp only [isHigh, isLow, Bool.and_eq_true, decide_eq_true_eq] at hboth
    obtain rfl | hjoined := head_joinSurrogates hm
    · exact hpair (by omega)
    · omega
  | case3 us hshort =>
    cases us with
    | nil => rfl
    | cons u us =>
      cases us with
      | nil => simpa [joinSurrogates, wellFormed] using h
      | cons u' us => exact absurd rfl (hshort u u' us)

theorem hexVal_lt {c : Char} {n : Nat} (h : hexVal c = some n) : n < 16 := by
  rw [hexVal] at h
  split at h
  · next hc =>
    cases h
    have : c.toNat ≤ 57 := hc.2
    have : '0'.toNat = 48 := rfl
    omega
  · split at h
    · next hc =>
      cases h
      have : c.toNat ≤ 102 := hc.2
      have : 'a'.toNat = 97 := rfl
      omega
    · split at h
      · next hc =>
        cases h
        have : c.toNat ≤ 70 := hc.2
        have : 'A'.toNat = 65 := rfl
        omega
      · cases h

theorem hexUnit_lt {a b c d : Char} {n : Nat} (h : hexUnit a b c d = some n) : n < 0x110000 := by
  simp only [hexUnit, Option.bind_eq_bind, Option.bind_eq_some_iff] at h
  obtain ⟨a', ha, b', hb, c', hc, d', hd, hn⟩ := h
  have := hexVal_lt ha
  have := hexVal_lt hb
  have := hexVal_lt hc
  have := hexVal_lt hd
  cases hn
  omega

theorem escapeVal_lt {e : Char} {n : Nat} (h : escapeVal e = some n) : n < 0x110000 := by
  rw [escapeVal.eq_def] at h
  split at h <;> cases h <;> decide

theorem toNat_lt (c : Char) : c.toNat < 0x110000 := by
  obtain hlow | hhigh := c.valid
  · exact lt_of_lt_of_le hlow (by decide)
  · exact hhigh.2

theorem scanUnits_lt {us : Str} (h : scanUnits cs = some (us, rest)) : ∀ u ∈ us, u < 0x110000 := by
  induction cs using scanUnits.induct generalizing us with
  | case1 => simp [scanUnits] at h
  | case2 cs =>
    simp only [scanUnits, Option.some.injEq, Prod.mk.injEq] at h
    rw [← h.1]
    simp
  | case3 a b c d cs ih =>
    simp only [scanUnits, Option.bind_eq_bind, Option.bind_eq_some_iff] at h
    obtain ⟨n, hu, ⟨us', r⟩, hr, he⟩ := h
    cases he
    exact List.forall_mem_cons.mpr ⟨hexUnit_lt hu, ih hr⟩
  | case4 e cs hshort ih =>
    rw [scanUnits] at h
    · simp only [Option.bind_eq_bind, Option.bind_eq_some_iff] at h
      obtain ⟨n, hn, ⟨us', r⟩, hr, he⟩ := h
      cases he
      exact List.forall_mem_cons.mpr ⟨escapeVal_lt hn, ih hr⟩
    · exact hshort
  | case5 c cs hq hu hb hbad ih =>
    rw [scanUnits] at h
    · rw [if_pos hbad] at h
      cases h
    all_goals assumption
  | case6 c cs hq hu hb hgood ih =>
    rw [scanUnits] at h
    · rw [if_neg hgood] at h
      simp only [Option.bind_eq_bind, Option.bind_eq_some_iff] at h
      obtain ⟨⟨us', r⟩, hr, he⟩ := h
      cases he
      exact List.forall_mem_cons.mpr ⟨toNat_lt c, ih hr⟩
    all_goals assumption

theorem scanString_wellFormed {s : Str} (h : scanString cs = some (s, rest)) : wellFormed s = true := by
  obtain ⟨⟨us, r⟩, hu, he⟩ := Option.map_eq_some_iff.mp h
  cases he
  exact wellFormed_joinSurrogates (scanUnits_lt hu)

theorem scanNumber_decoded {negative : Bool} {v : Value} (h : scanNumber negative cs = some (v, rest)) : Decoded v := by
  obtain ⟨p, -, he⟩ := Option.map_eq_some_iff.mp h
  dsimp only at he
  split_ifs at he
  · cases he
    trivial
  · obtain hfloat | ⟨x, hfloat⟩ := floatOf_cases (signed negative (natOf (p.1 ++ (scanFrac p.2).1)))
      ((scanExp (scanFrac p.2).2).1.getD 0 - (scanFrac p.2).1.length)
    · rw [hfloat] at he
      cases he
      trivial
    · rw [hfloat] at he
      cases he
      trivial

theorem decodedItems_concat {acc : List Value} {v : Value} (hacc : DecodedItems acc) (hv : Decoded v) :
    DecodedItems (acc ++ [v]) := by
  induction acc with
  | nil => exact ⟨hv, trivial⟩
  | cons x acc ih => exact ⟨hacc.1, ih hacc.2⟩

theorem keys_insert {k j : Str} {v : Value} {acc : List (Str × Value)} (h : j ∈ (Json.insert k v acc).map Prod.fst) :
    j = k ∨ j ∈ acc.map Prod.fst := by
  induction acc with
  | nil => simpa [Json.insert] using h
  | cons e acc ih =>
    obtain ⟨k', v'⟩ := e
    rw [Json.insert] at h
    split at h
    · exact .inr h
    · obtain rfl | h := List.mem_cons.mp h
      · exact .inr List.mem_cons_self
      · obtain hk | hacc := ih h
        · exact .inl hk
        · exact .inr (List.mem_cons_of_mem k' hacc)

theorem decodedMembers_insert {k : Str} {v : Value} {acc : List (Str × Value)} (hk : wellFormed k = true)
    (hv : Decoded v) (hacc : DecodedMembers acc) (hnodup : (acc.map Prod.fst).Nodup) :
    DecodedMembers (Json.insert k v acc) ∧ ((Json.insert k v acc).map Prod.fst).Nodup := by
  induction acc with
  | nil => exact ⟨⟨hk, hv, trivial⟩, List.nodup_singleton k⟩
  | cons e acc ih =>
    obtain ⟨k', v'⟩ := e
    obtain ⟨hnew, hrest⟩ := List.nodup_cons.mp hnodup
    rw [Json.insert]
    split
    · exact ⟨⟨hacc.1, hv, hacc.2.2⟩, hnodup⟩
    · next hne =>
      obtain ⟨hmembers, hkeys⟩ := ih hacc.2.2 hrest
      refine ⟨⟨hacc.1, hacc.2.1, hmembers⟩, List.nodup_cons.mpr ⟨fun hmem => ?_, hkeys⟩⟩
      obtain hkey | hold := keys_insert hmem
      · exact hne hkey
      · exact hnew hold

theorem scan_decoded (n : Nat) :
    (∀ cs v rest, scanOnce n cs = some (v, rest) → Decoded v) ∧
      (∀ acc cs v rest, DecodedItems acc → scanItems n acc cs = some (v, rest) → Decoded v) ∧
      ∀ acc cs v rest, DecodedMembers acc → (acc.map Prod.fst).Nodup → scanMembers n acc cs = some (v, rest) →
        Decoded v := by
  induction n with
  | zero => simp [scanOnce, scanItems, scanMembers]
  | succ n ih =>
    obtain ⟨ihOnce, ihItems, ihMembers⟩ := ih
    refine ⟨fun cs v rest h => ?_, fun acc cs v rest hacc h => ?_, fun acc cs v rest hacc hnodup h => ?_⟩
    · rw [scanOnce.eq_def] at h
      dsimp only at h
      split at h
      · obtain ⟨⟨us, r⟩, hs, he⟩ := Option.map_eq_some_iff.mp h
        cases he
        exact scanString_wellFormed hs
      · split at h
        · cases h
          exact ⟨rfl, List.nodup_nil, trivial⟩
        · exact ihMembers [] _ _ _ trivial List.nodup_nil h
      · split at h
        · cases h
          trivial
        · exact ihItems [] _ _ _ trivial h
      · cases h
        trivial
      · cases h
        trivial
      · cases h
        trivial
      · cases h
        trivial
      · cases h
        trivial
      · cases h
        trivial
      · exact scanNumber_decoded h
      · exact scanNumber_decoded h
    · rw [scanItems] at h
      split at h
      · cases h
      · next v' r hv =>
        have hitems := decodedItems_concat hacc (ihOnce _ _ _ hv)
        split at h
        · cases h
          exact hitems
        · exact ihItems _ _ _ _ hitems h
        · cases h
    · rw [scanMembers.eq_def] at h
      dsimp only at h
      split at h
      · split at h
        · cases h
        · next key r hk =>
          split at h
          · split at h
            · cases h
            · next v' r' hv =>
              obtain ⟨hmembers, hkeys⟩ := decodedMembers_insert (scanString_wellFormed hk) (ihOnce _ _ _ hv) hacc hnodup
              split at h
              · cases h
                exact ⟨rfl, hkeys, hmembers⟩
              · exact ihMembers _ _ _ _ hmembers hkeys h
              · cases h
          · cases h
      · cases h

theorem rawDecode_decoded {v : Value} (h : rawDecode cs = some (v, rest)) : Decoded v := (scan_decoded _).1 _ _ _ h

mutual

theorem decoded_settle (f : Floats) : ∀ v, Decoded v → Decoded (settle f v) ∧ settle f (settle f v) = settle f v
  | .null, _ => ⟨trivial, rfl⟩
  | .bool _, _ => ⟨trivial, rfl⟩
  | .int _, _ => ⟨trivial, rfl⟩
  | .float m e, _ => by
    obtain ⟨m', e', hread⟩ | ⟨x, hread⟩ := f.read_cases m e
    · rw [settle, hread]
      exact ⟨trivial, f.read_read m e m' e' hread⟩
    · rw [settle, hread]
      exact ⟨trivial, rfl⟩
  | .nonFinite _, _ => ⟨trivial, rfl⟩
  | .str _, h => ⟨h, rfl⟩
  | .list xs, h => by
    obtain ⟨hdecoded, hsettled⟩ := decoded_settleItems f xs h
    exact ⟨hdecoded, by rw [settle, settle, hsettled]⟩
  | .dict es strays, h => by
    obtain ⟨hstrays, hnodup, hmembers⟩ := h
    obtain ⟨hdecoded, hsettled, hkeys⟩ := decoded_settleMembers f es hmembers
    exact ⟨⟨hstrays, by rw [hkeys]; exact hnodup, hdecoded⟩, by rw [settle, settle, hsettled]⟩
  | .other .., h => h.elim

theorem decoded_settleItems (f : Floats) : ∀ vs, DecodedItems vs →
    DecodedItems (settleItems f vs) ∧ settleItems f (settleItems f vs) = settleItems f vs
  | [], _ => ⟨trivial, rfl⟩
  | v :: vs, h => by
    obtain ⟨hv, hsettled⟩ := decoded_settle f v h.1
    obtain ⟨hvs, hsettleds⟩ := decoded_settleItems f vs h.2
    exact ⟨⟨hv, hvs⟩, by rw [settleItems, settleItems, hsettled, hsettleds]⟩

theorem decoded_settleMembers (f : Floats) : ∀ es, DecodedMembers es →
    DecodedMembers (settleMembers f es) ∧ settleMembers f (settleMembers f es) = settleMembers f es ∧
      (settleMembers f es).map Prod.fst = es.map Prod.fst
  | [], _ => ⟨trivial, rfl, rfl⟩
  | (k, v) :: es, h => by
    obtain ⟨hv, hsettled⟩ := decoded_settle f v h.2.1
    obtain ⟨hes, hsettleds, hkeys⟩ := decoded_settleMembers f es h.2.2
    exact ⟨⟨h.1, hv, hes⟩, by rw [settleMembers, settleMembers, hsettled, hsettleds],
      by rw [settleMembers, List.map_cons, hkeys]; rfl⟩

end

end Decoding

end AlfredProcessing.Lib.JsonCompact
