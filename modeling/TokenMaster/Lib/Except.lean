import Mathlib.Data.List.Forall2

/-!
# TokenMaster.Lib.Except — inversion of `Except` computations

A successful `do` block is peeled apart one bind at a time.
-/

namespace TokenMaster

open List

universe u v

variable {ε : Type u} {α β' : Type v} {β : Type v} {k : β → β'}

variable {x : Except ε α} {f : α → Except ε β}

theorem Except.bind_eq_ok {b : β} : (x >>= f) = .ok b ↔ ∃ a, x = .ok a ∧ f a = .ok b := by
  cases x <;> simp [bind, Except.bind]

theorem Except.ok_bind (a : α) (f : α → Except ε β) : (Except.ok a >>= f) = f a := rfl

theorem Except.map_bind {γ : Type v} (x : Except ε α) (f : α → Except ε β) (g : β → γ) :
    (x >>= f).map g = x >>= fun a => (f a).map g := by
  cases x <;> rfl

/-- Two computations that agree step by step up to a translation of the results. -/
theorem Except.bind_eq_map {α' : Type v} {x' : Except ε α'} {f' : α' → Except ε β'} {g : α → α'}
    (hx : x' = x.map g) (hf : ∀ a, x = .ok a → f' (g a) = (f a).map k) :
    (x' >>= f') = (x >>= f).map k := by
  subst hx
  cases x with
  | error e => rfl
  | ok a => exact hf a rfl

theorem Except.bind_congr_map {f' : α → Except ε β'} (hf : ∀ a, x = .ok a → f' a = (f a).map k) :
    (x >>= f') = (x >>= f).map k := by
  cases x with
  | error e => rfl
  | ok a => exact hf a rfl

theorem Except.map_eq_ok {f : α → β} {b : β} : x.map f = .ok b ↔ ∃ a, x = .ok a ∧ f a = b := by
  cases x <;> simp [Except.map]

theorem Except.map_eq_error {f : α → β} {e : ε} : x.map f = .error e ↔ x = .error e := by
  cases x <;> simp [Except.map]

/-- Whether a computation fails with this error is decided whatever it returns otherwise. -/
instance Except.decidableEqError [DecidableEq ε] (e : ε) : Decidable (x = .error e) :=
  match x with
  | .ok _ => isFalse (by simp)
  | .error e' => decidable_of_iff (e' = e) (by simp)

variable {a : α}

theorem Except.mapError_eq_ok {ε' : Type u} {f : ε → ε'} : x.mapError f = .ok a ↔ x = .ok a := by
  cases x <;> simp [Except.mapError]

/-! ### Checks -/

/-- A check that fails with this error. -/
def Except.require (error : ε) (condition : Prop) [Decidable condition] : Except ε Unit :=
  if condition then .ok () else .error error

variable {condition : Prop}

theorem Except.require_eq_ok {error : ε} [Decidable condition] {u : Unit} :
    Except.require error condition = .ok u ↔ condition := by
  unfold Except.require
  split_ifs with h <;> simp [h]

theorem Except.require_pos {error : ε} [Decidable condition] (h : condition) :
    Except.require error condition = .ok () := if_pos h

/-- A block behind a check. -/
theorem Except.require_bind {error : ε} [Decidable condition] {β : Type} {f : Unit → Except ε β}
    {b : β} : (Except.require error condition >>= f) = .ok b ↔ condition ∧ f () = .ok b := by
  by_cases h : condition <;> simp [Except.require, h, bind, Except.bind]

theorem Except.require_neg {error : ε} [Decidable condition] (h : ¬ condition) :
    Except.require error condition = .error error := if_neg h

/-- `ok_or`. -/
def Except.okOr (error : ε) : Option α → Except ε α
  | some a => .ok a
  | none => .error error

@[simp] theorem Except.okOr_some {error : ε} : Except.okOr error (some a) = .ok a := rfl

theorem Except.okOr_eq_ok {error : ε} {o : Option α} :
    Except.okOr error o = .ok a ↔ o = some a := by
  cases o with
  | none | some b => simp [Except.okOr]

/-! ### Loops -/

section Loops

variable {σ τ : Type} {bs : List τ}

/-- What every iteration keeps holds after a loop that returns. -/
theorem Except.foldlM_keeps {P : τ → Prop} {f : τ → σ → Except ε τ} {l : List σ} {b b' : τ}
    (h : l.foldlM f b = .ok b') (h0 : P b)
    (hst : ∀ a ∈ l, ∀ b b', P b → f b a = .ok b' → P b') : P b' := by
  induction l generalizing b with
  | nil =>
    cases h
    exact h0
  | cons a l ih =>
    obtain ⟨c, hc, h⟩ := Except.bind_eq_ok.mp h
    refine ih h (hst a (mem_cons_self ..) b c h0 hc) ?_
    exact fun x hx => hst x (mem_cons_of_mem _ hx)

/-- A loop returns when every iteration does from what the remaining elements need. -/
theorem Except.foldlM_returns {P : List σ → τ → Prop} {f : τ → σ → Except ε τ} {l : List σ} {b : τ}
    (h0 : P l b) (hst : ∀ a l b, P (a :: l) b → ∃ b', f b a = .ok b' ∧ P l b') :
    ∃ b', l.foldlM f b = .ok b' ∧ P [] b' := by
  induction l generalizing b with
  | nil => exact ⟨b, rfl, h0⟩
  | cons a l ih =>
    obtain ⟨c, hc, hP⟩ := hst a l b h0
    obtain ⟨b', hb', hP'⟩ := ih hP
    refine ⟨b', ?_, hP'⟩
    exact Except.bind_eq_ok.mpr ⟨c, hc, hb'⟩

variable {f : σ → Except ε τ} {l : List σ}

/-- The results of a loop that maps a list, one for each element. -/
theorem Except.mapM_eq_ok (h : l.mapM f = .ok bs) :
    List.Forall₂ (fun a b => f a = .ok b) l bs := by
  induction l generalizing bs with
  | nil =>
    cases h
    exact .nil
  | cons a l ih =>
    rw [mapM_cons] at h
    obtain ⟨b, hb, h⟩ := Except.bind_eq_ok.mp h
    obtain ⟨rest, hrs, h⟩ := Except.bind_eq_ok.mp h
    cases h
    exact .cons hb (ih hrs)

variable {R : σ → τ → Prop} {l' : List τ}

theorem forall₂_mem_left (h : List.Forall₂ R l l') {a : σ} (ha : a ∈ l) : ∃ b ∈ l', R a b := by
  induction h with
  | nil => cases ha
  | @cons x y l l' hxy _ ih =>
    rcases mem_cons.mp ha with rfl | ha
    · exact ⟨y, mem_cons_self .., hxy⟩
    · obtain ⟨b, hb, hab⟩ := ih ha
      exact ⟨b, mem_cons_of_mem _ hb, hab⟩

theorem forall₂_mem_right (h : List.Forall₂ R l l') {b : τ} (hb : b ∈ l') :
    ∃ a ∈ l, R a b := forall₂_mem_left h.flip hb

theorem map_eq_of_forall₂ {υ : Type} (h : List.Forall₂ R l l') {f : σ → υ} {g : τ → υ}
    (hfg : ∀ a b, R a b → f a = g b) : l.map f = l'.map g := by
  induction h with
  | nil => rfl
  | cons hab _ ih => rw [map_cons, map_cons, ih, hfg _ _ hab]

/-- The results of a permuted list are the permuted results. -/
theorem Except.mapM_perm {l' : List σ} (hp : l.Perm l') (h : l.mapM f = .ok bs) :
    ∃ bs', l'.mapM f = .ok bs' ∧ bs.Perm bs' := by
  induction hp generalizing bs with
  | nil => exact ⟨bs, h, .refl _⟩
  | @cons a l l' _ ih =>
    rw [mapM_cons] at h
    obtain ⟨b, hb, h⟩ := Except.bind_eq_ok.mp h
    obtain ⟨rest, hrs, h⟩ := Except.bind_eq_ok.mp h
    cases h
    obtain ⟨rest', hrs', hp⟩ := ih hrs
    refine ⟨b :: rest', ?_, hp.cons b⟩
    rw [mapM_cons, hb, Except.ok_bind, hrs']
    rfl
  | swap a b l =>
    rw [mapM_cons, mapM_cons] at h
    obtain ⟨c, hc, h⟩ := Except.bind_eq_ok.mp h
    obtain ⟨tail, htl, h⟩ := Except.bind_eq_ok.mp h
    obtain ⟨d, hd, htl⟩ := Except.bind_eq_ok.mp htl
    obtain ⟨rest, hrs, htl⟩ := Except.bind_eq_ok.mp htl
    cases htl
    cases h
    refine ⟨d :: c :: rest, ?_, .swap ..⟩
    rw [mapM_cons, mapM_cons, hd, Except.ok_bind, hc, Except.ok_bind, hrs]
    rfl
  | trans _ _ ih ih' =>
    obtain ⟨bs', h', hp⟩ := ih h
    obtain ⟨bs'', h'', hp'⟩ := ih' h'
    exact ⟨bs'', h'', hp.trans hp'⟩

/-- A loop that maps a list returns when every element does. -/
theorem Except.mapM_returns (h : ∀ a ∈ l, ∃ b, f a = .ok b) : ∃ bs, l.mapM f = .ok bs := by
  induction l with
  | nil => exact ⟨[], rfl⟩
  | cons a l ih =>
    obtain ⟨b, hb⟩ := h a (mem_cons_self ..)
    obtain ⟨bs, hbs⟩ := ih fun x hx => h x (mem_cons_of_mem _ hx)
    refine ⟨b :: bs, ?_⟩
    rw [mapM_cons]
    exact Except.bind_eq_ok.mpr ⟨b, hb, Except.bind_eq_ok.mpr ⟨bs, hbs, rfl⟩⟩

theorem Except.mapM_returns_all {P : τ → Prop} (h : ∀ a ∈ l, ∃ b, f a = .ok b ∧ P b) :
    ∃ bs, l.mapM f = .ok bs ∧ ∀ b ∈ bs, P b := by
  obtain ⟨bs, hbs⟩ := Except.mapM_returns fun a ha => (h a ha).imp fun _ hb => hb.1
  refine ⟨bs, hbs, fun b hb => ?_⟩
  obtain ⟨a, ha, hab⟩ := forall₂_mem_right (Except.mapM_eq_ok hbs) hb
  obtain ⟨c, hc, hP⟩ := h a ha
  cases hab.symm.trans hc
  exact hP

end Loops

/-! ### Partial correctness with forbidden errors -/

/-- `x` does not fail with a bad error, and a result satisfies `post`. -/
def Except.Avoids (bad : ε → Prop) (x : Except ε α) (post : α → Prop) : Prop :=
  (∀ e, x = .error e → ¬ bad e) ∧ ∀ a, x = .ok a → post a

namespace Except.Avoids

variable {bad : ε → Prop} {x : Except ε α} {post : α → Prop} {post' : β → Prop}

theorem ok {a : α} (h : post a) : Except.Avoids bad (.ok a) post := by
  refine ⟨?_, ?_⟩
  · intro e he
    cases he
  · intro b hb
    cases hb
    exact h

theorem error {e : ε} (h : ¬ bad e) : Except.Avoids bad (.error e) post := by
  refine ⟨?_, ?_⟩
  · intro e' he
    cases he
    exact h
  · intro a ha
    cases ha

theorem mono {post' : α → Prop} (h : Except.Avoids bad x post) (hpo : ∀ a, post a → post' a) :
    Except.Avoids bad x post' :=
  ⟨h.1, fun a ha => hpo a (h.2 a ha)⟩

theorem bind {f : α → Except ε β} (hx : Except.Avoids bad x post)
    (hf : ∀ a, post a → Except.Avoids bad (f a) post') : Except.Avoids bad (x >>= f) post' := by
  cases x with
  | error e => exact error (hx.1 e rfl)
  | ok a => exact hf a (hx.2 a rfl)

/-- A step that never fails badly, whatever it returns. -/
theorem bind_of_safe {f : α → Except ε β} (hx : ∀ e, x = .error e → ¬ bad e)
    (hf : ∀ a, Except.Avoids bad (f a) post') : Except.Avoids bad (x >>= f) post' :=
  bind ⟨hx, fun _ _ => trivial⟩ fun a _ => hf a

end Except.Avoids

end TokenMaster
