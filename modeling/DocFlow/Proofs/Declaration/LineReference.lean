import DocFlow.Declaration.Layout
import DocFlow.Proofs.Declaration.Retargeting

namespace DocFlow

namespace Reference

/-- A text whose last character neither stands in a gap nor starts one. -/
def Sealed (t : Text) : Prop := ∀ c ∈ t.getLast?, Text.isBlank c = false ∧ c ≠ '?' ∧ c ≠ ':'

variable {name a u : Text}

theorem Sealed.of_suffix (h : Sealed a) (hu : u <:+ a) : Sealed u := by
  obtain ⟨front, rfl⟩ := hu
  intro c hc
  apply h c
  rw [List.getLast?_append, Option.mem_def.1 hc]
  rfl

theorem Sealed.gap_lt (h : Sealed a) (hne : a ≠ []) : gap a < a.length := by
  refine Nat.lt_of_le_of_ne (gap_le a) fun hall => ?_
  have hgap : IsGap (a.take (gap a)) := isGap_take (Nat.le_refl _)
  rw [hall, List.take_length] at hgap
  obtain ⟨visible, hquestion, -⟩ := h _ (List.getLast?_eq_some_getLast hne)
  rcases hgap.mem (List.getLast_mem hne) with hblank | hlast
  · rw [visible] at hblank
    exact Bool.false_ne_true hblank
  · exact hquestion hlast

/-- A gap that ends within a text is the same before any other text. -/
theorem gap_append_of_lt (h : gap a < a.length) (t : Text) : gap (a ++ t) = gap a := by
  have hbehind := not_isGap_behind a
  have hne : a.drop (gap a) ≠ [] := by
    rw [Ne, List.drop_eq_nil_iff]
    omega
  have hhead : (a.drop (gap a) ++ t).head? = (a.drop (gap a)).head? := List.head?_append_of_ne_nil _ hne
  rw [← hhead] at hbehind
  have hgap := gap_append (isGap_take (Nat.le_refl (gap a))) hbehind
  rw [← List.append_assoc, List.take_append_drop, List.length_take] at hgap
  omega

/-- No reference goes on behind a sealed line. -/
theorem reach?_line (hname : '\n' ∉ name) (h : Sealed a) (hne : a ≠ []) (b : Text) :
    reach? name (a ++ '\n' :: b) = reach? name a := by
  have hends : isNamePart '\n' = false := by decide +kernel
  rw [reach?, reach?, gap_append_of_lt (h.gap_lt hne), findName?_append hname hends b (gap_le a)]

theorem retarget_line (hname : '\n' ∉ name) (h : Sealed a) (b : Text) :
    retarget name 0 (a ++ '\n' :: b) = retarget name 0 a ++ '\n' :: retarget name 0 b := by
  rw [retarget_append _ (Nat.zero_le _), retarget_cons_of_not]
  · exact fun hcolon => absurd hcolon.1 (by decide)
  · intro u hu
    have hcolon := h.of_suffix hu
    refine reach?_line hname (hcolon.of_suffix (List.suffix_cons ':' u)) ?_ b
    rintro rfl
    exact (hcolon ':' rfl).2.2 rfl

/-- Without a colon there is no reference. -/
theorem retarget_append_of_no_colon {front : Text} (h : ':' ∉ front) (name t : Text) :
    retarget name 0 (front ++ t) = front ++ retarget name 0 t := by
  induction front with
  | nil => rfl
  | cons c front ih =>
    rw [List.mem_cons, not_or] at h
    rw [List.cons_append, retarget_cons_of_not fun hcolon => h.1 hcolon.1.symm, ih h.2]
    rfl

theorem getLast?_cons_of {c : Char} {t t' : Text} (hlength : t.length ≤ t'.length)
    (h : ∀ d ∈ t'.getLast?, d ∈ t.getLast? ∨ d = 'e') :
    ∀ d ∈ (c :: t').getLast?, d ∈ (c :: t).getLast? ∨ d = 'e' := by
  intro d hd
  cases t' with
  | nil =>
    rw [List.eq_nil_of_length_eq_zero (Nat.le_zero.1 hlength)]
    exact .inl hd
  | cons c' t' =>
    rw [List.getLast?_cons_cons] at hd
    refine (h d hd).imp_left fun hlast => ?_
    rw [List.getLast?_cons, Option.mem_def.1 hlast]
    rfl

theorem getLast?_suffix {t t' : Text} (h : ∀ d ∈ t'.getLast?, d ∈ t.getLast? ∨ d = 'e') :
    ∀ d ∈ (valueSuffix ++ t').getLast?, d ∈ t.getLast? ∨ d = 'e' := by
  intro d hd
  rw [List.getLast?_append] at hd
  rcases Option.or_eq_some_iff.1 hd with hlast | ⟨-, hlast⟩
  · exact h d hlast
  · exact .inr (Option.some.inj hlast).symm

/-- The last character of a text stays, unless a suffix is appended behind it. -/
theorem getLast?_retarget (name : Text) (pending : Nat) (t : Text) :
    ∀ c ∈ (retarget name pending t).getLast?, c ∈ t.getLast? ∨ c = 'e' := by
  have hlength := length_le_retarget name
  have hsuffixed (t : Text) : t.length ≤ (valueSuffix ++ retarget name 0 t).length := by
    have hle := hlength 0 t
    rw [List.length_append]
    omega
  fun_induction retarget name pending t with
  | case1 => exact fun c hc => .inl hc
  | case2 c t ih => exact getLast?_cons_of (hsuffixed t) (getLast?_suffix ih)
  | case3 pending c t ih => exact getLast?_cons_of (hlength _ t) ih
  | case4 t hnone ih => exact getLast?_cons_of (hlength _ t) ih
  | case5 t hreach ih => exact getLast?_cons_of (hsuffixed t) (getLast?_suffix ih)
  | case6 t n hreach ih => exact getLast?_cons_of (hlength _ t) ih
  | case7 c t hc ih => exact getLast?_cons_of (hlength _ t) ih

theorem mem_retarget {pending : Nat} {t : Text} {c : Char} (h : c ∈ retarget name pending t) :
    c ∈ t ∨ c ∈ valueSuffix := by
  fun_induction retarget name pending t with
  | case1 => exact .inl h
  | _ =>
    simp only [List.mem_cons, List.mem_append] at h ⊢
    tauto

theorem Sealed.retarget (h : Sealed a) (name : Text) : Sealed (retarget name 0 a) := by
  intro c hc
  rcases getLast?_retarget name 0 a c hc with hlast | rfl
  · exact h c hlast
  · decide

end Reference

namespace Line

open Reference

def mapContent (f : Text → Text) (l : Line) : Line := { l with content := f l.content }

/-- Sealed lines are retargeted one by one behind their indentation. -/
theorem retarget_write {name indent : Text} (hname : '\n' ∉ name) (hindent : ':' ∉ indent)
    {ls : List Line} (h : ∀ l ∈ ls, Sealed l.content) :
    retarget name 0 (ls.flatMap (write indent)) =
      (ls.map (mapContent (retarget name 0))).flatMap (write indent) := by
  induction ls with
  | nil => rfl
  | cons l ls ih =>
    rw [List.forall_mem_cons] at h
    have hpad : ':' ∉ (List.replicate l.depth indent).flatten := by
      intro hmem
      obtain ⟨pad, hpad, hcolon⟩ := List.mem_flatten.1 hmem
      rw [List.eq_of_mem_replicate hpad] at hcolon
      exact hindent hcolon
    rw [List.flatMap_cons, write, List.append_assoc, List.append_assoc, List.singleton_append,
      retarget_append_of_no_colon hpad, retarget_line hname h.1, ih h.2]
    simp [mapContent, write]

end Line

end DocFlow
