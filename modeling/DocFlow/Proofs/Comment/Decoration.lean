import DocFlow.Comment.Tag
import DocFlow.Proofs.Text.Trim

namespace DocFlow

namespace Text

/-- What ends a line: one of the breaks, or the two characters that are one break together. -/
def IsBreak (b : Text) : Prop := b = ['\r', '\n'] ∨ ∃ c, isLineBreak c = true ∧ b = [c]

/-- A line ends at the first break. A lone carriage return is one where no line feed follows. -/
theorem lines_append_break {l b rest : Text} (h : ∀ c ∈ l, isLineBreak c = false) (hb : IsBreak b)
    (hrest : b = ['\r'] → rest.head? ≠ some '\n') : lines (l ++ (b ++ rest)) = l :: lines rest := by
  induction l with
  | nil =>
    rcases hb with rfl | ⟨c, hc, rfl⟩
    · rfl
    · have hapart : ∀ rest', c = '\r' → rest = '\n' :: rest' → False := by
        rintro rest' rfl rfl
        exact hrest rfl rfl
      rw [List.nil_append, List.singleton_append, lines.eq_3 _ _ hapart, hc]
      rfl
  | cons c l ih =>
    rw [List.forall_mem_cons] at h
    have hreturn : c ≠ '\r' := by
      rintro rfl
      exact absurd h.1 (by decide)
    rw [List.cons_append, lines.eq_3 _ _ fun _ hc => absurd hc hreturn, h.1, ih h.2]
    rfl

theorem lines_of_unbroken {l : Text} (h : ∀ c ∈ l, isLineBreak c = false) (hne : l ≠ []) :
    lines l = [l] := by
  induction l with
  | nil => exact absurd rfl hne
  | cons c l ih =>
    rw [List.forall_mem_cons] at h
    have hreturn : c ≠ '\r' := by
      rintro rfl
      exact absurd h.1 (by decide)
    rw [lines.eq_3 _ _ fun _ hc => absurd hc hreturn, h.1]
    cases l with
    | nil => rfl
    | cons d l =>
      rw [ih h.2 (List.cons_ne_nil d l)]
      rfl

theorem lines_ne_nil {t : Text} (h : t ≠ []) : lines t ≠ [] := by
  fun_cases lines t with
  | case1 => exact absurd rfl h
  | case2 => exact List.cons_ne_nil _ _
  | case3 => exact List.cons_ne_nil _ _
  | case4 c rest =>
    cases lines rest <;> exact List.cons_ne_nil _ _

end Text

namespace Comment

/-- A line with a star keeps what is behind the star and one space. -/
theorem dropDecoration_star {indent : Text} (h : ∀ c ∈ indent, Text.isBlank c = true) (l : Text) :
    dropDecoration (indent ++ '*' :: ' ' :: l) = l := by
  rw [dropDecoration, Text.trimLeft_append h]
  rfl

/-- A line without a star loses its indentation. -/
theorem dropDecoration_plain {indent : Text} (h : ∀ c ∈ indent, Text.isBlank c = true) {c : Char}
    (hc : Text.isBlank c = false) (hstar : c ≠ '*') (l : Text) :
    dropDecoration (indent ++ c :: l) = c :: l := by
  have hspace : c ≠ ' ' := by
    rintro rfl
    exact absurd hc (by decide)
  rw [dropDecoration, Text.trimLeft_append h, Text.trimLeft,
    List.dropWhile_cons_of_neg (by simp [hc]), dropOne, if_neg hstar, dropOne, if_neg hspace]

theorem dropDecoration_blanks {l : Text} (h : ∀ c ∈ l, Text.isBlank c = true) :
    dropDecoration l = [] := by
  have hleft := Text.trimLeft_append (t := []) h
  rw [List.append_nil] at hleft
  rw [dropDecoration, hleft]
  rfl

def undecorateLines (t : Text) : Text := Text.join ['\n'] ((Text.lines t).map dropDecoration)

theorem undecorate_eq (body : Text) :
    undecorate body = Text.trim (undecorateLines (dropOne '*' body)) := rfl

/-- The decoration of a line is left out whatever break ends the line. -/
theorem undecorateLines_append_break {l b rest : Text} (h : ∀ c ∈ l, Text.isLineBreak c = false)
    (hb : Text.IsBreak b) (hrest : b = ['\r'] → rest.head? ≠ some '\n') (hne : rest ≠ []) :
    undecorateLines (l ++ (b ++ rest)) = dropDecoration l ++ '\n' :: undecorateLines rest := by
  rw [undecorateLines, undecorateLines, Text.lines_append_break h hb hrest, List.map_cons]
  cases hlines : Text.lines rest with
  | nil => exact absurd hlines (Text.lines_ne_nil hne)
  | cons first more =>
    rw [List.map_cons, Text.join, List.append_assoc]
    rfl

theorem undecorateLines_append {l : Text} (h : ∀ c ∈ l, Text.isLineBreak c = false) {rest : Text}
    (hne : rest ≠ []) :
    undecorateLines (l ++ '\n' :: rest) = dropDecoration l ++ '\n' :: undecorateLines rest :=
  undecorateLines_append_break h (.inr ⟨'\n', rfl, rfl⟩) nofun hne

theorem undecorateLines_of_unbroken {l : Text} (h : ∀ c ∈ l, Text.isLineBreak c = false)
    (hne : l ≠ []) : undecorateLines l = dropDecoration l := by
  rw [undecorateLines, Text.lines_of_unbroken h hne]
  rfl

end Comment

end DocFlow
