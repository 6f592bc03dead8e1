namespace AlfredProcessing.Lib.Effects

/-- A computation on a state that may end in an exception. -/
abbrev Program (σ ε α : Type) := ExceptT ε (StateM σ) α

variable {σ ε α β : Type}

def exec (x : Program σ ε α) (s : σ) : Except ε α × σ := x.run.run s

/-- `Q` holds of how `x` ends from `s`, and of the state it leaves. -/
def Ends (x : Program σ ε α) (s : σ) (Q : Except ε α → σ → Prop) : Prop :=
  Q (exec x s).1 (exec x s).2

/-- What `X` and `S` say of a computation from `s` that raised or returned. -/
def Post (X : ε → σ → σ → Prop) (S : σ → σ → Prop) (s : σ) : Except ε α → σ → Prop
  | .ok _, t => S s t
  | .error e, t => X e s t

/-- When `x` returns, the states before and after are related by `S`, and when
it raises, by what `X` says of the exception. -/
def Yields (X : ε → σ → σ → Prop) (S : σ → σ → Prop) (x : Program σ ε α) : Prop :=
  ∀ s, Ends x s (Post X S s)

/-- `x` with its state kept in a part of a larger one. -/
def within {τ : Type} (part : τ → σ) (put : σ → τ → τ) (x : Program σ ε α) : Program τ ε α :=
  ExceptT.mk fun t => ((exec x (part t)).1, put (exec x (part t)).2 t)

/-- `try: x finally: g`. -/
def ensuring (x : Program σ ε α) (g : σ → σ) : Program σ ε α :=
  ExceptT.mk fun s => ((exec x s).1, g (exec x s).2)

variable {x : Program σ ε α} {f : α → Program σ ε β} {h : ε → Program σ ε α} {s : σ}
  {P Q : Except ε α → σ → Prop} {Q' : Except ε β → σ → Prop}
  {X X' : ε → σ → σ → Prop} {S S' T : σ → σ → Prop}

@[simp] theorem exec_pure (a : α) : exec (pure a : Program σ ε α) s = (.ok a, s) := rfl

@[simp] theorem exec_throw (e : ε) : exec (throw e : Program σ ε α) s = (.error e, s) := rfl

@[simp] theorem exec_get : exec (get : Program σ ε σ) s = (.ok s, s) := rfl

@[simp] theorem exec_modify (g : σ → σ) :
    exec (modify g : Program σ ε PUnit) s = (.ok ⟨⟩, g s) := rfl

@[simp] theorem exec_within {τ : Type} (part : τ → σ) (put : σ → τ → τ) (t : τ) :
    exec (within part put x) t = ((exec x (part t)).1, put (exec x (part t)).2 t) := rfl

@[simp] theorem exec_ensuring (g : σ → σ) :
    exec (ensuring x g) s = ((exec x s).1, g (exec x s).2) := rfl

theorem exec_bind : exec (x >>= f) s =
    match exec x s with
    | (.ok a, t) => exec (f a) t
    | (.error e, t) => (.error e, t) := by
  simp only [exec, ExceptT.run_bind, StateT.run_bind]
  rcases StateT.run (ExceptT.run x) s with ⟨r, t⟩
  cases r <;> rfl

theorem exec_tryCatch : exec (tryCatch x h) s =
    match exec x s with
    | (.ok a, t) => (.ok a, t)
    | (.error e, t) => exec (h e) t := by
  simp only [exec, ExceptT.run_tryCatch, StateT.run_bind]
  rcases StateT.run (ExceptT.run x) s with ⟨r, t⟩
  cases r <;> rfl

theorem Ends.of_exec (hx : Ends x s Q) {r : Except ε α} {t : σ} (hr : exec x s = (r, t)) :
    Q r t := by
  simpa only [Ends, hr] using hx

theorem Ends.mono (hx : Ends x s P) (hPQ : ∀ r t, P r t → Q r t) : Ends x s Q := hPQ _ _ hx

theorem Ends.and (hP : Ends x s P) (hQ : Ends x s Q) : Ends x s fun r t => P r t ∧ Q r t :=
  ⟨hP, hQ⟩

theorem Ends.bind (hx : Ends x s P) (hok : ∀ a t, P (.ok a) t → Ends (f a) t Q')
    (herror : ∀ e t, P (.error e) t → Q' (.error e) t) : Ends (x >>= f) s Q' := by
  unfold Ends at hx ⊢
  rw [exec_bind]
  rcases hr : exec x s with ⟨e | a, t⟩ <;> rw [hr] at hx
  · exact herror _ _ hx
  · exact hok _ _ hx

theorem Ends.bind_of_ok {a : α} {t : σ} (hx : exec x s = (.ok a, t)) (h : Ends (f a) t Q') :
    Ends (x >>= f) s Q' := by
  simpa only [Ends, exec_bind, hx] using h

theorem Ends.tryCatch (hx : Ends x s P) (hok : ∀ a t, P (.ok a) t → Q (.ok a) t)
    (herror : ∀ e t, P (.error e) t → Ends (h e) t Q) : Ends (tryCatch x h) s Q := by
  unfold Ends at hx ⊢
  rw [exec_tryCatch]
  rcases hr : exec x s with ⟨e | a, t⟩ <;> rw [hr] at hx
  · exact herror _ _ hx
  · exact hok _ _ hx

theorem Ends.pure {a : α} (h : Q (.ok a) s) : Ends (pure a) s Q := h

theorem Ends.throw {e : ε} (h : Q (.error e) s) : Ends (throw e) s Q := h

theorem Ends.get {Q : Except ε σ → σ → Prop} (h : Q (.ok s) s) : Ends get s Q := h

theorem Ends.get_bind {f : σ → Program σ ε β} (h : Ends (f s) s Q') :
    Ends (MonadState.get >>= f) s Q' := by
  simpa only [Ends, exec_bind, exec_get] using h

theorem Ends.modify_bind {g : σ → σ} {f : PUnit → Program σ ε β} (h : Ends (f ⟨⟩) (g s) Q') :
    Ends (modify g >>= f) s Q' := by
  simpa only [Ends, exec_bind, exec_modify] using h

theorem Ends.modify {g : σ → σ} {Q : Except ε PUnit → σ → Prop} (h : Q (.ok ⟨⟩) (g s)) :
    Ends (modify g) s Q := h

theorem Yields.pure (hS : ∀ s, S s s) (a : α) : Yields X S (pure a : Program σ ε α) := hS

theorem Yields.throw {e : ε} (hX : ∀ s, X e s s) : Yields X S (throw e : Program σ ε α) := hX

theorem Yields.get (hS : ∀ s, S s s) : Yields X S (get : Program σ ε σ) := hS

theorem Yields.modify {g : σ → σ} (h : ∀ s, S s (g s)) :
    Yields X S (modify g : Program σ ε PUnit) := h

theorem Yields.mono (hx : Yields X S x) (hX : ∀ e s t, X e s t → X' e s t)
    (hS : ∀ s t, S s t → S' s t) : Yields X' S' x := by
  intro s
  refine (hx s).mono fun r t hr => ?_
  cases r with
  | error e => exact hX e s t hr
  | ok a => exact hS s t hr

theorem Yields.bind (hx : Yields X S x) (hf : ∀ a, Yields X' S' (f a))
    (hX : ∀ e s t u, S s t → X' e t u → X e s u) (hT : ∀ s t u, S s t → S' t u → T s u) :
    Yields X T (x >>= f) := by
  intro s
  refine (hx s).bind (fun a t ht => (hf a t).mono fun r u hr => ?_) fun _ _ ht => ht
  cases r with
  | error e => exact hX e s t u ht hr
  | ok b => exact hT s t u ht hr

theorem Yields.tryCatch (hx : Yields X T x)
    (hh : ∀ e s t, X e s t → Ends (h e) t (Post X' T s)) : Yields X' T (tryCatch x h) :=
  fun s => (hx s).tryCatch (fun _ _ ht => ht) fun e t ht => hh e s t ht

theorem Yields.ite {c : Prop} [Decidable c] {y : Program σ ε α} (hx : c → Yields X S x)
    (hy : ¬c → Yields X S y) : Yields X S (if c then x else y) := by
  split
  · next hc => exact hx hc
  · next hc => exact hy hc

end AlfredProcessing.Lib.Effects
