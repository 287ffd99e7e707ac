import TokenMaster.Lib.Layout

/-!
# TokenMaster.Lib.PrefixCode — encodings that can be read from the front

An encoding is a prefix code on a set of values when the value and the rest of the input are
determined by the bytes.  Sequences of tagged records are then determined by theirs, up to where the
tag changes.
-/

namespace TokenMaster

open List

variable {α β : Type}

/-- Behind an encoded value that satisfies `P`, both the value and the rest can be told. -/
def PrefixCode (P : α → Prop) (encode : α → Bytes) : Prop :=
  ∀ a b s t, P a → P b → encode a ++ s = encode b ++ t → a = b ∧ s = t

variable {P : α → Prop} {f : α → Bytes}

theorem PrefixCode.append {Q : β → Prop} {g : β → Bytes} (hf : PrefixCode P f)
    (hg : PrefixCode Q g) :
    PrefixCode (fun x : α × β => P x.1 ∧ Q x.2) (fun x => f x.1 ++ g x.2) := by
  intro a b s t ha hb h
  rw [append_assoc, append_assoc] at h
  obtain ⟨hfir, hrs⟩ := hf _ _ _ _ ha.1 hb.1 h
  obtain ⟨hsd, htl⟩ := hg _ _ _ _ ha.2 hb.2 hrs
  exact ⟨Prod.ext hfir hsd, htl⟩

/-- Through an injective view of the values. -/
theorem PrefixCode.comap {P : β → Prop} {f : β → Bytes} (hf : PrefixCode P f) {view : α → β}
    (hview : Function.Injective view) : PrefixCode (fun a => P (view a)) fun a => f (view a) := by
  intro a b s t ha hb h
  obtain ⟨heq, hrs⟩ := hf _ _ _ _ ha hb h
  exact ⟨hview heq, hrs⟩

theorem PrefixCode.tag (hf : PrefixCode P f) (tag : Bytes) : PrefixCode P fun a => tag ++ f a := by
  intro a b s t ha hb h
  rw [append_assoc, append_assoc] at h
  exact hf _ _ _ _ ha hb (append_cancel_left h)

/-- A value of one width. -/
theorem PrefixCode.fixed (width : ℕ) (hwidth : ∀ a, P a → (f a).length = width)
    (hinj : ∀ a b, P a → P b → f a = f b → a = b) : PrefixCode P f := by
  intro a b s t ha hb h
  obtain ⟨heq, hrs⟩ := append_inj h ((hwidth a ha).trans (hwidth b hb).symm)
  exact ⟨hinj a b ha hb heq, hrs⟩

/-- Little-endian numbers. -/
theorem prefixCode_leBytes (w : ℕ) : PrefixCode (· < 256 ^ w) (leBytes w) := by
  refine .fixed w (fun n _ => length_leBytes w n) fun m n hm hn h => ?_
  rw [← leNat_leBytes hm, h, leNat_leBytes hn]

/-- Big-endian numbers. -/
theorem prefixCode_beBytes (w : ℕ) : PrefixCode (· < 256 ^ w) (beBytes w) :=
  .fixed w (fun n _ => length_beBytes w n) fun _ _ hm hn h => beBytes_inj hm hn h

/-- Bytes behind one byte of length. -/
theorem prefixCode_shortBytes :
    PrefixCode (fun b : Bytes => b.length < 256) fun b => UInt8.ofNat b.length :: b := by
  intro a b s t ha hb h
  simp only [cons_append, List.cons.injEq] at h
  obtain ⟨hlen, hrs⟩ := h
  have hlen : a.length = b.length := by
    have hnat := congrArg UInt8.toNat hlen
    simpa [Nat.mod_eq_of_lt ha, Nat.mod_eq_of_lt hb] using hnat
  exact append_inj hrs hlen

/-- An absent value is one zero byte, a present one follows a one. -/
def encodeOption (f : α → Bytes) : Option α → Bytes
  | none => [0]
  | some a => 1 :: f a

theorem PrefixCode.option (hf : PrefixCode P f) :
    PrefixCode (fun o : Option α => ∀ a, o = some a → P a) (encodeOption f) := by
  intro a b s t ha hb h
  cases a with
  | none =>
    cases b with
    | none => exact ⟨rfl, append_cancel_left h⟩
    | some b => simp [encodeOption] at h
  | some a =>
    cases b with
    | none => simp [encodeOption] at h
    | some b =>
      simp only [encodeOption, cons_append, List.cons.injEq, true_and] at h
      obtain ⟨rfl, hrs⟩ := hf _ _ _ _ (ha a rfl) (hb b rfl) h
      exact ⟨rfl, hrs⟩

/-- A fixed number of records. -/
theorem PrefixCode.flatMap (hf : PrefixCode P f) (n : ℕ) :
    PrefixCode (fun l : List α => l.length = n ∧ ∀ a ∈ l, P a) (·.flatMap f) := by
  intro l l' s t hl hl' h
  induction l generalizing l' n with
  | nil =>
    obtain rfl : l' = [] := length_eq_zero_iff.mp (hl'.1.trans hl.1.symm)
    exact ⟨rfl, h⟩
  | cons a l ih =>
    cases l' with
    | nil => cases hl.1.trans hl'.1.symm
    | cons b l' =>
      obtain ⟨hn, hl⟩ := hl
      obtain ⟨hn', hl'⟩ := hl'
      rw [forall_mem_cons] at hl hl'
      dsimp only at h
      rw [flatMap_cons, flatMap_cons, append_assoc, append_assoc] at h
      obtain ⟨rfl, hrs⟩ := hf _ _ _ _ hl.1 hl'.1 h
      rw [length_cons] at hn hn'
      obtain ⟨rfl, htl⟩ := ih (n - 1) l' ⟨by omega, hl.2⟩ ⟨by omega, hl'.2⟩ hrs
      exact ⟨rfl, htl⟩

/-- Records of a code up to a rest that no record starts. -/
theorem PrefixCode.flatMap_append (hf : PrefixCode P f) {l l' : List α} {s t : Bytes}
    (hl : ∀ a ∈ l, P a) (hl' : ∀ a ∈ l', P a) (hs : ∀ a r, P a → s ≠ f a ++ r)
    (ht : ∀ a r, P a → t ≠ f a ++ r) (h : l.flatMap f ++ s = l'.flatMap f ++ t) :
    l = l' ∧ s = t := by
  induction l generalizing l' with
  | nil =>
    cases l' with
    | nil => exact ⟨rfl, h⟩
    | cons b l' =>
      rw [flatMap_cons, append_assoc] at h
      exact absurd h (hs b _ (hl' b (mem_cons_self ..)))
  | cons a l ih =>
    cases l' with
    | nil =>
      rw [flatMap_cons, append_assoc] at h
      exact absurd h.symm (ht a _ (hl a (mem_cons_self ..)))
    | cons b l' =>
      simp only [mem_cons, forall_eq_or_imp] at hl hl'
      rw [flatMap_cons, flatMap_cons, append_assoc, append_assoc] at h
      obtain ⟨rfl, hrs⟩ := hf _ _ _ _ hl.1 hl'.1 h
      obtain ⟨rfl, htl⟩ := ih hl.2 hl'.2 hrs
      exact ⟨rfl, htl⟩

end TokenMaster
