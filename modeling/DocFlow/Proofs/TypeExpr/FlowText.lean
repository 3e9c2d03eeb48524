import Mathlib
import DocFlow.Proofs.TypeExpr.Naming

namespace DocFlow

/-- A character that may stand anywhere in a comment: no star and no line break. -/
def CommentChar (c : Char) : Prop := c ≠ '*' ∧ Text.isLineBreak c = false

instance (c : Char) : Decidable (CommentChar c) := inferInstanceAs (Decidable (_ ∧ _))

def Text.FitsComment (t : Text) : Prop := ∀ c ∈ t, CommentChar c

instance (t : Text) : Decidable t.FitsComment := List.decidableBAll CommentChar t

def unfitCodes : List Nat := [42, 10, 11, 12, 13, 28, 29, 30, 0x85, 0x2028, 0x2029]

theorem mem_unfitCodes {c : Char} (h : ¬ CommentChar c) : c.toNat ∈ unfitCodes := by
  simp only [CommentChar, not_and_or, not_not, Bool.not_eq_false, Text.isLineBreak,
    decide_eq_true_eq] at h
  rcases h with rfl | h
  · decide
  · simp only [unfitCodes, List.mem_cons, List.not_mem_nil]
    omega

/-- A class of code points without the star and the line breaks. -/
theorem commentChar_of_class {p : Nat → Bool} (hp : ∀ n ∈ unfitCodes, p n = false) {c : Char}
    (h : p c.toNat = true) : CommentChar c := by
  by_contra unfit
  rw [hp _ (mem_unfitCodes unfit)] at h
  contradiction

theorem commentChar_of_isWord {c : Char} (h : Text.isWord c = true) : CommentChar c :=
  commentChar_of_class (p := Text.inRanges Text.wordRanges)
    (by decide +kernel) h

namespace Text.FitsComment

theorem nil : FitsComment [] := nofun

theorem cons {c : Char} {t : Text} (hc : CommentChar c) (ht : FitsComment t) :
    FitsComment (c :: t) := by
  intro d hd
  rcases List.mem_cons.1 hd with rfl | hd
  · exact hc
  · exact ht d hd

theorem append {s t : Text} (hs : FitsComment s) (ht : FitsComment t) : FitsComment (s ++ t) := by
  intro c hc
  rcases List.mem_append.1 hc with hc | hc
  · exact hs c hc
  · exact ht c hc

theorem join {sep : Text} {ts : List Text} (hsep : FitsComment sep)
    (hts : ∀ t ∈ ts, FitsComment t) : FitsComment (Text.join sep ts) := by
  fun_induction Text.join sep ts with
  | case1 => exact nil
  | case2 t => exact hts t (by simp)
  | case3 t u rest ih =>
    exact (append (hts t (by simp)) hsep).append (ih fun t ht => hts t (List.mem_cons_of_mem _ ht))

end Text.FitsComment

namespace TypeGrammar

open Text (FitsComment)

theorem commentChar_of_isModulePart {c : Char} (h : isModulePart c = true) :
    CommentChar c := by
  simp only [isModulePart, isNamePart, isPathMark, Bool.or_eq_true, beq_iff_eq] at h
  rcases h with ((h | rfl) | (((rfl | rfl) | rfl) | rfl)) | rfl
  · exact commentChar_of_isWord h
  all_goals decide

theorem nameLexeme?_fits {t s rest : Text} (h : nameLexeme? t = some (s, rest)) :
    FitsComment s := by
  intro c hc
  rcases isModulePart_of_mem_name h hc with hpart | rfl
  · exact commentChar_of_isModulePart hpart
  · decide

end TypeGrammar

def TypeExpr.FlowFits (e : TypeExpr) : Prop := ∀ t, e.flow = some t → t.FitsComment

namespace TypeExpr.FlowFits

open Text (FitsComment)

theorem of_none {e : TypeExpr} (h : e.flow = none) : e.FlowFits := by
  intro t ht
  rw [h] at ht
  cases ht

theorem named {n : Text} (h : n.FitsComment) : (TypeExpr.named n).FlowFits := by
  intro t ht
  rw [flow] at ht
  cases ht
  exact h

theorem question {e e' : TypeExpr} (heq : e'.flow = e.flow.map ('?' :: ·)) (h : e.FlowFits) :
    e'.FlowFits := by
  intro t ht
  rw [heq] at ht
  obtain ⟨s, hs, rfl⟩ := Option.map_eq_some_iff.1 ht
  exact .cons (by decide) (h s hs)

theorem generic {base : TypeExpr} {es : List TypeExpr} (hbase : base.FlowFits)
    (hes : ∀ e ∈ es, e.FlowFits) : (TypeExpr.generic base es).FlowFits := by
  intro t ht
  rw [flow] at ht
  cases es with
  | nil =>
    rw [flowFirst] at ht
    cases hb : base.flow <;> simp [hb, genericText] at ht
  | cons e es =>
    rw [flowFirst] at ht
    unfold genericText at ht
    split at ht
    · next b a hb ha =>
      split at ht
      · cases ht
      · cases ht
        have hargument : FitsComment (a ++ ['>']) :=
          (hes e List.mem_cons_self a ha).append (.cons (by decide) .nil)
        exact (hbase b hb).append (.cons (by decide) hargument)
    · cases ht

theorem flowEach_fits {es : List TypeExpr} (hes : ∀ e ∈ es, e.FlowFits) :
    ∀ t ∈ flowEach es, t.FitsComment := by
  induction es with
  | nil => exact nofun
  | cons e es ih =>
    have htail := ih fun e he => hes e (List.mem_cons_of_mem _ he)
    rw [flowEach]
    split
    · next s hs =>
      intro t ht
      rcases List.mem_cons.1 ht with rfl | ht
      · exact hes e List.mem_cons_self _ hs
      · exact htail t ht
    · exact htail

theorem union {es : List TypeExpr} (hes : ∀ e ∈ es, e.FlowFits) :
    (TypeExpr.union es).FlowFits := by
  intro t ht
  rw [flow] at ht
  cases ht
  exact .join (by decide) (flowEach_fits hes)

/-- A Flow text fits into a comment if its names do. -/
theorem of_namedBy {e : TypeExpr} (h : e.NamedBy FitsComment) : e.FlowFits := by
  induction h with
  | formless none => exact of_none none
  | any =>
    intro t ht
    cases ht
    decide
  | named _ name => exact named name
  | generic _ name _ ih => exact generic (named name) ih
  | union _ ih => exact union ih
  | nullable _ ih | optional _ ih => exact question rfl ih

end TypeExpr.FlowFits

/-- Whatever a type expression is made of, its Flow text fits into a comment. -/
theorem TypeExpr.flowFits_of_parse {text : Text} {e : TypeExpr} (h : parse text = .ok e) :
    e.FlowFits :=
  .of_namedBy (namedBy_of_parse (by decide) (fun _ _ _ => TypeGrammar.nameLexeme?_fits) h)

end DocFlow
