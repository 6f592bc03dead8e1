import AlfredProcessing.Lib.JsonDecode

namespace AlfredProcessing.Lib.Brackets

open Json JsonText

/-- What one pass over a text knows at a position: how many square and curly
brackets are open, and whether the position is in a string or behind a
backslash. -/
@[ext]
structure Scan where
  square : Int := 0
  curly : Int := 0
  inString : Bool := false
  escape : Bool := false

def Scan.step (s : Scan) (c : Char) : Scan :=
  if s.escape then { s with escape := false }
  else if c = '\\' then { s with escape := true }
  else if c = '"' then { s with inString := !s.inString }
  else if s.inString then s
  else if c = '[' then { s with square := s.square + 1 }
  else if c = ']' then { s with square := s.square - 1 }
  else if c = '{' then { s with curly := s.curly + 1 }
  else if c = '}' then { s with curly := s.curly - 1 }
  else s

def Scan.run (s : Scan) (cs : List Char) : Scan := cs.foldl Scan.step s

/-- `P` holds at every character of a text, in the state before it. -/
def Along (P : Scan → Char → Prop) : Scan → List Char → Prop
  | _, [] => True
  | s, c :: cs => P s c ∧ Along P (s.step c) cs

def Scan.code (s : Scan) : Prop := s.inString = false ∧ s.escape = false

def neutral (c : Char) : Bool :=
  c ≠ '\\' && c ≠ '"' && c ≠ '[' && c ≠ ']' && c ≠ '{' && c ≠ '}'

variable {P Q : Scan → Char → Prop} {s : Scan} {c : Char} {cs ds : List Char}

theorem run_append : s.run (cs ++ ds) = (s.run cs).run ds := List.foldl_append

@[simp] theorem run_nil : s.run [] = s := rfl

@[simp] theorem run_cons : s.run (c :: cs) = (s.step c).run cs := rfl

theorem along_append : Along P s (cs ++ ds) ↔ Along P s cs ∧ Along P (s.run cs) ds := by
  induction cs generalizing s with
  | nil => simp [Along]
  | cons c cs ih => simp [Along, ih, and_assoc]

theorem Along.mono (hPQ : ∀ s c, P s c → Q s c) (h : Along P s cs) : Along Q s cs := by
  induction cs generalizing s with
  | nil => trivial
  | cons c cs ih => exact ⟨hPQ _ _ h.1, ih h.2⟩

theorem Along.of_isPrefix (h : Along P s ds) (hp : cs <+: ds) : Along P s cs := by
  obtain ⟨es, rfl⟩ := hp
  exact (along_append.mp h).1

theorem step_neutral (hs : s.escape = false) (hc : neutral c) : s.step c = s := by
  simp only [neutral, Bool.and_eq_true, decide_eq_true_eq, ne_eq] at hc
  obtain ⟨⟨⟨⟨⟨h₁, h₂⟩, h₃⟩, h₄⟩, h₅⟩, h₆⟩ := hc
  simp [Scan.step, hs, h₁, h₂, h₃, h₄, h₅, h₆]

theorem run_neutral (hs : s.escape = false) (hc : ∀ c ∈ cs, neutral c) : s.run cs = s := by
  induction cs with
  | nil => rfl
  | cons c cs ih =>
    obtain ⟨hc, hcs⟩ := List.forall_mem_cons.mp hc
    rw [run_cons, step_neutral hs hc]
    exact ih hcs

theorem along_neutral (hs : s.escape = false) (hc : ∀ c ∈ cs, neutral c)
    (hP : ∀ c ∈ cs, P s c) : Along P s cs := by
  induction cs with
  | nil => trivial
  | cons c cs ih =>
    obtain ⟨hc, hcs⟩ := List.forall_mem_cons.mp hc
    obtain ⟨hp, hps⟩ := List.forall_mem_cons.mp hP
    refine ⟨hp, ?_⟩
    rw [step_neutral hs hc]
    exact ih hcs hps

def codeChar (c : Char) : Bool :=
  isWs c || c.isDigit || "[]{}:,\"-+.eEnultrfas".toList.contains c

/-- What JSON allows at a position: its own alphabet outside strings, no
control character in a string, and an escape behind a backslash. -/
def legal (s : Scan) (c : Char) : Prop :=
  (s.escape → (escapeVal c).isSome ∨ c = 'u') ∧ (s.inString = false → codeChar c) ∧
    (s.inString → 32 ≤ c.toNat)

/-- A legal position behind which at least `a` square and `b` curly brackets
are open. -/
def within (a b : Int) (s : Scan) (c : Char) : Prop :=
  legal s c ∧ a ≤ (s.step c).square ∧ b ≤ (s.step c).curly

theorem within_mono {a a' b b' : Int} (ha : a' ≤ a) (hb : b' ≤ b) (s : Scan) (c : Char)
    (h : within a b s c) : within a' b' s c :=
  ⟨h.1, Int.le_trans ha h.2.1, Int.le_trans hb h.2.2⟩

/-- A stretch of text that leaves the state as it was and never falls below it. -/
def Level (cs : List Char) : Prop :=
  ∀ s : Scan, s.code → s.run cs = s ∧ Along (within s.square s.curly) s cs

theorem Level.append (hc : Level cs) (hd : Level ds) : Level (cs ++ ds) := by
  intro s hs
  obtain ⟨hr, ha⟩ := hc s hs
  obtain ⟨hr', ha'⟩ := hd s hs
  exact ⟨by rw [run_append, hr, hr'], along_append.mpr ⟨ha, by rwa [hr]⟩⟩

theorem Level.nil : Level [] := fun _ _ => ⟨rfl, trivial⟩

theorem level_neutral (h : ∀ c ∈ cs, neutral c ∧ codeChar c) : Level cs := by
  intro s hs
  refine ⟨run_neutral hs.2 fun c hc => (h c hc).1, along_neutral hs.2 (fun c hc => (h c hc).1)
    fun c hc => ⟨⟨?_, fun _ => (h c hc).2, ?_⟩, ?_⟩⟩
  · intro he
    rw [hs.2] at he
    cases he
  · intro hi
    rw [hs.1] at hi
    cases hi
  · rw [step_neutral hs.2 (h c hc).1]
    exact ⟨Int.le_refl _, Int.le_refl _⟩

theorem level_one (h : neutral c ∧ codeChar c) : Level [c] :=
  level_neutral fun _ hd => List.mem_singleton.mp hd ▸ h

theorem level_space (w : Space) : Level w.render := by
  refine level_neutral fun c hc => ?_
  obtain ⟨d, -, rfl⟩ := List.mem_map.mp hc
  have hd := d.2
  simp only [isWs, Bool.or_eq_true, decide_eq_true_eq] at hd
  rcases hd with ((hd | hd) | hd) | hd <;> rw [hd] <;> decide

theorem digit_neutral {c : Char} (h : c.isDigit) : neutral c ∧ codeChar c := by
  refine ⟨?_, by simp [codeChar, h]⟩
  simp only [neutral, Bool.and_eq_true, decide_eq_true_eq, ne_eq]
  refine ⟨⟨⟨⟨⟨?_, ?_⟩, ?_⟩, ?_⟩, ?_⟩, ?_⟩ <;> rintro rfl <;> exact absurd h (by decide)

def numberChar (c : Char) : Bool := c.isDigit || "-+.eE".toList.contains c

theorem Digits.chars (ds : Digits) : ∀ c ∈ ds.render, c.isDigit := by
  intro c hc
  obtain ⟨d, -, rfl⟩ := List.mem_map.mp hc
  exact d.2

theorem Number.chars (n : Number) : ∀ c ∈ n.render, numberChar c := by
  have hdigit {c : Char} (h : c.isDigit) : numberChar c := by simp [numberChar, h]
  have hint : ∀ c ∈ n.int.render, numberChar c := by
    cases n.int with
    | zero => decide
    | digits d ds =>
      exact List.forall_mem_cons.mpr ⟨hdigit d.2.1, fun c hc => hdigit (Digits.chars ds c hc)⟩
  have hfrac : ∀ c ∈ fracRender n.frac, numberChar c := by
    cases n.frac with
    | none => simp [fracRender]
    | some p =>
      exact List.forall_mem_cons.mpr ⟨by decide,
        List.forall_mem_cons.mpr ⟨hdigit p.1.2, fun c hc => hdigit (Digits.chars p.2 c hc)⟩⟩
  have hexp : ∀ c ∈ expRender n.exp, numberChar c := by
    cases n.exp with
    | none => simp [expRender]
    | some e =>
      refine List.forall_mem_cons.mpr ⟨by cases e.upper <;> decide, fun c hc => ?_⟩
      rcases List.mem_append.mp hc with hc | hc
      · rcases hs : e.sign with _ | _ | _ <;> simp [hs, signRender] at hc <;> subst hc <;> decide
      · rcases List.mem_cons.mp hc with rfl | hc
        · exact hdigit e.first.2
        · exact hdigit (Digits.chars e.more c hc)
  have hunsigned : ∀ c ∈ n.unsigned, numberChar c := by
    intro c hc
    simp only [Number.unsigned, List.mem_append] at hc
    rcases hc with hc | hc | hc
    · exact hint c hc
    · exact hfrac c hc
    · exact hexp c hc
  unfold Number.render
  split
  · exact List.forall_mem_cons.mpr ⟨by decide, hunsigned⟩
  · exact hunsigned

theorem level_number (n : Number) : Level n.render := by
  refine level_neutral fun c hc => ?_
  have hnum := Number.chars n c hc
  simp only [numberChar, Bool.or_eq_true] at hnum
  rcases hnum with hd | ho
  · exact digit_neutral hd
  · have hall : ∀ o ∈ "-+.eE".toList, neutral o ∧ codeChar o := by decide
    exact hall c (List.contains_iff_mem.mp ho)

def Scan.quoted (s : Scan) : Scan := { s with inString := true }

theorem piece_quoted (s : Scan) (hs : s.code) (p : Piece) :
    s.quoted.run p.render = s.quoted ∧ Along (within s.square s.curly) s.quoted p.render := by
  have hesc : s.escape = false := hs.2
  cases p with
  | raw c =>
    have hc := c.2
    simp only [plain, Bool.and_eq_true, decide_eq_true_eq] at hc
    have hstep : s.quoted.step c.1 = s.quoted := by
      simp [Scan.step, Scan.quoted, hesc, hc.1.2, hc.2]
    refine ⟨hstep, ⟨⟨?_, ?_, fun _ => hc.1.1⟩, ?_⟩, trivial⟩
    · simp [Scan.quoted, hesc]
    · simp [Scan.quoted]
    · rw [hstep]
      exact ⟨Int.le_refl _, Int.le_refl _⟩
  | escape e =>
    have hfirst : s.quoted.step '\\' = { s.quoted with escape := true } := by
      simp [Scan.step, Scan.quoted, hesc]
    have hsecond : ({ s.quoted with escape := true } : Scan).step e.1 = s.quoted := by
      simp [Scan.step, Scan.quoted, hesc]
    have h32 : 32 ≤ e.1.toNat := by
      have he := e.2
      revert he
      generalize e.1 = d
      unfold escapeVal
      split <;> simp
    refine ⟨by simp only [Piece.render, run_cons, run_nil, hfirst, hsecond],
      ⟨⟨?_, ?_, fun _ => by decide⟩, ?_⟩, ⟨⟨fun _ => .inl e.2, ?_, fun _ => h32⟩, ?_⟩, trivial⟩
    · simp [Scan.quoted, hesc]
    · simp [Scan.quoted]
    · rw [hfirst]
      exact ⟨Int.le_refl _, Int.le_refl _⟩
    · rw [hfirst]
      simp [Scan.quoted]
    · rw [hfirst, hsecond]
      exact ⟨Int.le_refl _, Int.le_refl _⟩
  | unicode a b c d =>
    have hfirst : s.quoted.step '\\' = { s.quoted with escape := true } := by
      simp [Scan.step, Scan.quoted, hesc]
    have hsecond : ({ s.quoted with escape := true } : Scan).step 'u' = s.quoted := by
      simp [Scan.step, Scan.quoted, hesc]
    have hhex (h : { h : Char // (hexVal h).isSome }) :
        s.quoted.step h.1 = s.quoted ∧ within s.square s.curly s.quoted h.1 := by
      have hv := h.2
      have hne : h.1 ≠ '\\' ∧ h.1 ≠ '"' := by
        constructor <;> intro he <;> rw [he] at hv <;> exact absurd hv (by decide)
      have h32 : 32 ≤ h.1.toNat := by
        by_contra hlt
        have hlow (lo : Char) (hlo : lo ≤ h.1) : lo.toNat ≤ h.1.toNat := hlo
        unfold hexVal at hv
        split at hv
        · next hr => have := hlow _ hr.1; simp at this; omega
        · split at hv
          · next hr => have := hlow _ hr.1; simp at this; omega
          · split at hv
            · next hr => have := hlow _ hr.1; simp at this; omega
            · simp at hv
      have hstep : s.quoted.step h.1 = s.quoted := by
        simp [Scan.step, Scan.quoted, hesc, hne.1, hne.2]
      refine ⟨hstep, ⟨?_, ?_, fun _ => h32⟩, ?_⟩
      · simp [Scan.quoted, hesc]
      · simp [Scan.quoted]
      · rw [hstep]
        exact ⟨Int.le_refl _, Int.le_refl _⟩
    refine ⟨by simp only [Piece.render, run_cons, run_nil, hfirst, hsecond, (hhex _).1], ?_⟩
    simp only [Piece.render, Along, hfirst, hsecond, (hhex _).1]
    refine ⟨⟨⟨?_, ?_, fun _ => by decide⟩, ?_⟩, ⟨⟨fun _ => .inr rfl, ?_, fun _ => by decide⟩, ?_⟩,
      (hhex a).2, (hhex b).2, (hhex c).2, (hhex d).2, trivial⟩
    · simp [Scan.quoted, hesc]
    · simp [Scan.quoted]
    · rw [hfirst]
      exact ⟨Int.le_refl _, Int.le_refl _⟩
    · simp [Scan.quoted]
    · rw [hsecond]
      exact ⟨Int.le_refl _, Int.le_refl _⟩

theorem level_quoted (b : Body) : Level ('"' :: (b.render ++ ['"'])) := by
  intro s hs
  have hopen : s.step '"' = s.quoted := by simp [Scan.step, Scan.quoted, hs.1, hs.2]
  have hclose : s.quoted.step '"' = s := by
    ext <;> simp [Scan.step, Scan.quoted, hs.1, hs.2]
  have hbody : s.quoted.run b.render = s.quoted ∧
      Along (within s.square s.curly) s.quoted b.render := by
    induction b with
    | nil => exact ⟨rfl, trivial⟩
    | cons p b ih =>
      obtain ⟨hr, ha⟩ := piece_quoted s hs p
      simp only [Body.render] at ih
      simp only [Body.render, List.flatMap_cons]
      exact ⟨by rw [run_append, hr, ih.1], along_append.mpr ⟨ha, by rw [hr]; exact ih.2⟩⟩
  refine ⟨by rw [run_cons, hopen, run_append, hbody.1, run_cons, hclose, run_nil], ⟨⟨?_, ?_, ?_⟩, ?_⟩, ?_⟩
  · intro he
    rw [hs.2] at he
    cases he
  · exact fun _ => by decide
  · intro hi
    rw [hs.1] at hi
    cases hi
  · rw [hopen]
    exact ⟨Int.le_refl _, Int.le_refl _⟩
  · rw [hopen, along_append, hbody.1]
    refine ⟨hbody.2, ⟨⟨?_, ?_, fun _ => by decide⟩, ?_⟩, trivial⟩
    · simp [Scan.quoted, hs.2]
    · simp [Scan.quoted]
    · rw [hclose]
      exact ⟨Int.le_refl _, Int.le_refl _⟩

theorem step_square (hs : s.code) : s.step '[' = { s with square := s.square + 1 } := by
  simp [Scan.step, hs.1, hs.2]

theorem step_curly (hs : s.code) : s.step '{' = { s with curly := s.curly + 1 } := by
  simp [Scan.step, hs.1, hs.2]

theorem legal_code (hs : s.code) (hc : codeChar c) : legal s c := by
  refine ⟨fun he => ?_, fun _ => hc, fun hi => ?_⟩
  · rw [hs.2] at he
    cases he
  · rw [hs.1] at hi
    cases hi

theorem Level.unclosed_square (h : Level cs) (hs : s.code) :
    s.run ('[' :: cs) = { s with square := s.square + 1 } ∧
      Along (within (s.square + 1) s.curly) s ('[' :: cs) := by
  obtain ⟨hr, ha⟩ := h { s with square := s.square + 1 } hs
  refine ⟨by rw [run_cons, step_square hs]; exact hr, ⟨legal_code hs (by decide), ?_⟩, ?_⟩
  · rw [step_square hs]
    exact ⟨Int.le_refl _, Int.le_refl _⟩
  · rw [step_square hs]
    exact ha

theorem Level.unclosed_curly (h : Level cs) (hs : s.code) :
    s.run ('{' :: cs) = { s with curly := s.curly + 1 } ∧
      Along (within s.square (s.curly + 1)) s ('{' :: cs) := by
  obtain ⟨hr, ha⟩ := h { s with curly := s.curly + 1 } hs
  refine ⟨by rw [run_cons, step_curly hs]; exact hr, ⟨legal_code hs (by decide), ?_⟩, ?_⟩
  · rw [step_curly hs]
    exact ⟨Int.le_refl _, Int.le_refl _⟩
  · rw [step_curly hs]
    exact ha

theorem Level.brackets (h : Level cs) : Level ('[' :: (cs ++ [']'])) := by
  intro s hs
  obtain ⟨hr, ha⟩ := h.unclosed_square hs
  have hclose : ({ s with square := s.square + 1 } : Scan).step ']' = s := by
    ext <;> simp [Scan.step, hs.1, hs.2]
  rw [← List.cons_append]
  refine ⟨by rw [run_append, hr, run_cons, hclose, run_nil], along_append.mpr ⟨?_, ?_⟩⟩
  · exact ha.mono (within_mono (by omega) (Int.le_refl _))
  · rw [hr]
    refine ⟨⟨legal_code hs (by decide), ?_⟩, trivial⟩
    rw [hclose]
    exact ⟨Int.le_refl _, Int.le_refl _⟩

theorem Level.braces (h : Level cs) : Level ('{' :: (cs ++ ['}'])) := by
  intro s hs
  obtain ⟨hr, ha⟩ := h.unclosed_curly hs
  have hclose : ({ s with curly := s.curly + 1 } : Scan).step '}' = s := by
    ext <;> simp [Scan.step, hs.1, hs.2]
  rw [← List.cons_append]
  refine ⟨by rw [run_append, hr, run_cons, hclose, run_nil], along_append.mpr ⟨?_, ?_⟩⟩
  · exact ha.mono (within_mono (Int.le_refl _) (by omega))
  · rw [hr]
    refine ⟨⟨legal_code hs (by decide), ?_⟩, trivial⟩
    rw [hclose]
    exact ⟨Int.le_refl _, Int.le_refl _⟩

mutual

def itemsInit : Items → List Char
  | .last d after => d.render ++ after.render
  | .cons d after lead rest => d.render ++ (after.render ++ ',' :: (lead.render ++ itemsInit rest))

def membersInit : Members → List Char
  | .last key w₁ w₂ d after =>
    '"' :: (key.render ++ '"' :: (w₁.render ++ ':' :: (w₂.render ++ (d.render ++ after.render))))
  | .cons key w₁ w₂ d after lead rest =>
    '"' :: (key.render ++ '"' :: (w₁.render ++ ':' :: (w₂.render ++
      (d.render ++ (after.render ++ ',' :: (lead.render ++ membersInit rest))))))

end

theorem items_render : ∀ xs : Items, xs.render = itemsInit xs ++ [']']
  | .last d after => by simp [Items.render, itemsInit]
  | .cons d after lead rest => by simp [Items.render, itemsInit, items_render rest]

theorem members_render : ∀ ms : Members, ms.render = membersInit ms ++ ['}']
  | .last .. => by simp [Members.render, membersInit]
  | .cons _ _ _ _ _ _ rest => by simp [Members.render, membersInit, members_render rest]

theorem level_key (b : Body) {rest : List Char} (h : Level rest) :
    Level ('"' :: (b.render ++ '"' :: rest)) := by
  have hq := (level_quoted b).append h
  simpa using hq

mutual

theorem level_doc : ∀ d : Doc, Level d.render
  | .null => level_neutral (by decide)
  | .bool true => level_neutral (by decide)
  | .bool false => level_neutral (by decide)
  | .number n => level_number n
  | .string b => level_quoted b
  | .emptyArray w => (level_space w).brackets
  | .array w xs => by
    have h := ((level_space w).append (level_items xs)).brackets
    simpa [Doc.render, items_render] using h
  | .emptyObject w => (level_space w).braces
  | .object w ms => by
    have h := ((level_space w).append (level_members ms)).braces
    simpa [Doc.render, members_render] using h

theorem level_items : ∀ xs : Items, Level (itemsInit xs)
  | .last d after => (level_doc d).append (level_space after)
  | .cons d after lead rest => by
    have hcomma : Level (',' :: (lead.render ++ itemsInit rest)) :=
      (level_one (c := ',') (by decide)).append ((level_space lead).append (level_items rest))
    exact (level_doc d).append ((level_space after).append hcomma)

theorem level_members : ∀ ms : Members, Level (membersInit ms)
  | .last key w₁ w₂ d after => by
    have hcolon : Level (':' :: (w₂.render ++ (d.render ++ after.render))) :=
      (level_one (c := ':') (by decide)).append
        ((level_space w₂).append ((level_doc d).append (level_space after)))
    exact level_key key ((level_space w₁).append hcolon)
  | .cons key w₁ w₂ d after lead rest => by
    have hcomma : Level (',' :: (lead.render ++ membersInit rest)) :=
      (level_one (c := ',') (by decide)).append ((level_space lead).append (level_members rest))
    have hcolon : Level (':' :: (w₂.render ++ (d.render ++ (after.render ++
        ',' :: (lead.render ++ membersInit rest))))) :=
      (level_one (c := ':') (by decide)).append
        ((level_space w₂).append ((level_doc d).append ((level_space after).append hcomma)))
    exact level_key key ((level_space w₁).append hcolon)

end

end AlfredProcessing.Lib.Brackets
