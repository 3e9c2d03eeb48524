import Mathlib
import DocFlow.Proofs.TypeExpr.Operand

namespace DocFlow

/-- Trimming takes blanks from the two ends of a text. -/
theorem Text.exists_trim (s : Text) :
    ∃ before after, s = before ++ trim s ++ after ∧ (∀ c ∈ before, isBlank c = true) ∧
      ∀ c ∈ after, isBlank c = true := by
  refine ⟨s.takeWhile isBlank, ((trimLeft s).reverse.takeWhile isBlank).reverse, ?_, ?_, ?_⟩
  · have hright : trimLeft s = trim s ++ ((trimLeft s).reverse.takeWhile isBlank).reverse := by
      rw [trim, trimRight, ← List.reverse_append, List.takeWhile_append_dropWhile,
        List.reverse_reverse]
    calc s = s.takeWhile isBlank ++ trimLeft s := List.takeWhile_append_dropWhile.symm
      _ = s.takeWhile isBlank ++ (trim s ++ ((trimLeft s).reverse.takeWhile isBlank).reverse) := by
        rw [← hright]
      _ = s.takeWhile isBlank ++ trim s ++ ((trimLeft s).reverse.takeWhile isBlank).reverse :=
        (List.append_assoc ..).symm
  · intro c hc
    exact List.mem_takeWhile_imp hc
  · intro c hc
    exact List.mem_takeWhile_imp (List.mem_reverse.1 hc)

namespace TypeGrammar

theorem Lexed.of_blanks {blanks t : Text} {ls : List Lexeme}
    (hblanks : ∀ c ∈ blanks, Text.isBlank c = true) (h : Lexed (blanks ++ t) ls) : Lexed t ls := by
  induction blanks with
  | nil => exact h
  | cons c blanks ih =>
    have hc := hblanks c List.mem_cons_self
    cases h with
    | blank _ more => exact ih (fun c hc => hblanks c (List.mem_cons_of_mem _ hc)) more
    | lexeme visible => rw [hc] at visible; cases visible

/-- A text is written as lexemes. What follows it has to end a name, and it may lose blanks at its
end. -/
structure Writes (s : Text) (ls : List Lexeme) : Prop where
  lexed {front blanks rest more} : s = front ++ blanks → (∀ c ∈ blanks, Text.isBlank c = true) →
    EndsName rest → Lexed rest more → Lexed (front ++ rest) (ls ++ more)
  plain : ∀ l ∈ ls, l.IsFlow
  count : s.count '?' = ls.count (.mark .question)

theorem endsName_of_mem {c : Char} (h : c ∈ [' ', '<', '>']) (t : Text) : EndsName (c :: t) := by
  simp only [List.mem_cons, List.not_mem_nil, or_false] at h
  rcases h with rfl | rfl | rfl
  · exact ⟨by decide +kernel, by decide⟩
  · exact ⟨by decide +kernel, by decide⟩
  · exact ⟨by decide +kernel, by decide⟩

theorem Lexed.mark {c : Char} {m : Mark} {t : Text} {ls : List Lexeme} (hm : Mark.ofChar? c = some m)
    (visible : Text.isBlank c = false) (h : Lexed t ls) : Lexed (c :: t) (.mark m :: ls) :=
  .lexeme visible (lexeme?_mark hm t) h

/-- Blanks at the end of a text are behind its last visible character. -/
theorem exists_front_of_visible {t u front blanks : Text} {c : Char}
    (visible : Text.isBlank c = false) (hblanks : ∀ d ∈ blanks, Text.isBlank d = true) (h : t ++ c :: u = front ++ blanks) :
    ∃ more, front = t ++ c :: more ∧ u = more ++ blanks := by
  rcases List.append_eq_append_iff.1 h with ⟨more, rfl, hmore⟩ | ⟨more, -, hmore⟩
  · cases more with
    | nil =>
      rw [List.nil_append] at hmore
      exact absurd (hblanks c (by simp [← hmore])) (by simp [visible])
    | cons d more =>
      obtain ⟨rfl, rfl⟩ := List.cons.inj hmore
      exact ⟨more, rfl, rfl⟩
  · exact absurd (hblanks c (by simp [hmore])) (by simp [visible])

namespace Writes

variable {s s' n : Text} {ls ls' : List Lexeme}

theorem lexed_append (h : Writes s ls) {rest : Text} {more : List Lexeme} (ends : EndsName rest)
    (hmore : Lexed rest more) : Lexed (s ++ rest) (ls ++ more) :=
  h.lexed (List.append_nil s).symm nofun ends hmore

/-- A text is written as the same lexemes without the blanks at its ends. -/
theorem lexed_trim (h : Writes s ls) : Lexed (Text.trim s) ls := by
  obtain ⟨before, after, hs, hbefore, hafter⟩ := Text.exists_trim s
  have hend : EndsName [] := trivial
  have hlexed := h.lexed hs hafter hend .done
  rw [List.append_nil, List.append_nil] at hlexed
  exact hlexed.of_blanks hbefore

theorem nil : Writes [] [] := by
  refine ⟨fun {front blanks rest more} hs _ _ hmore => ?_, nofun, rfl⟩
  obtain ⟨rfl, rfl⟩ := List.append_eq_nil_iff.1 hs.symm
  exact hmore

theorem name (h : IsName n) : Writes n [.name n] := by
  have hquestion : '?' ∉ n := by
    intro hmem
    rcases h.chars hmem with hpart | heq
    · exact absurd hpart (by decide +kernel)
    · exact absurd heq (by decide)
  refine ⟨fun {front blanks rest more} hs hblanks hrest hmore => ?_, ?_, ?_⟩
  · -- No character of the name is blank, so none is cut off.
    have hnone : blanks = [] := by
      cases blanks with
      | nil => rfl
      | cons c blanks =>
        have hvisible := h.isBlank_eq_false (c := c) (by simp [hs])
        rw [hblanks c List.mem_cons_self] at hvisible
        cases hvisible
    rw [hnone, List.append_nil] at hs
    subst hs
    have hread := h.reads hrest
    obtain ⟨c, t, rfl⟩ := List.exists_cons_of_ne_nil h.ne_nil
    exact .lexeme (h.isBlank_eq_false List.mem_cons_self) hread hmore
  · rw [List.forall_mem_singleton]
    exact hquestion
  · exact List.count_eq_zero.2 hquestion

theorem question (h : Writes s ls) : Writes ('?' :: s) (.mark .question :: ls) := by
  refine ⟨fun {front blanks rest more} hs hblanks hrest hmore => ?_, ?_, ?_⟩
  · obtain ⟨after, rfl, hafter⟩ := exists_front_of_visible (t := []) rfl hblanks hs
    exact .mark rfl rfl (h.lexed hafter hblanks hrest hmore)
  · rw [List.forall_mem_cons]
    exact ⟨List.mem_cons_self, h.plain⟩
  · rw [List.count_cons_self, List.count_cons_self, h.count]

theorem generic (hn : IsName n) (h : Writes s ls) :
    Writes (n ++ '<' :: (s ++ ['>']))
      (.name n :: .mark .openAngle :: (ls ++ [.mark .closeAngle])) := by
  have hname := Writes.name hn
  refine ⟨fun {front blanks rest more} hs hblanks hrest hmore => ?_, ?_, ?_⟩
  · rw [← List.cons_append, ← List.append_assoc] at hs
    obtain ⟨after, rfl, hnil⟩ := exists_front_of_visible rfl hblanks hs
    obtain ⟨rfl, -⟩ := List.append_eq_nil_iff.1 hnil.symm
    have hclose : Lexed ('>' :: rest) (.mark .closeAngle :: more) := .mark rfl rfl hmore
    have hinside := h.lexed_append (endsName_of_mem (by decide) rest) hclose
    have hopen : Lexed ('<' :: (s ++ '>' :: rest))
        (.mark .openAngle :: (ls ++ .mark .closeAngle :: more)) := .mark rfl rfl hinside
    have hall := hname.lexed_append (endsName_of_mem (by decide) _) hopen
    simpa using hall
  · intro l hl
    simp only [List.mem_cons, List.mem_append, List.not_mem_nil, or_false] at hl
    rcases hl with rfl | rfl | hl | rfl
    · exact hname.plain _ List.mem_cons_self
    · exact (by decide : Mark.openAngle ∈ flowMarks)
    · exact h.plain l hl
    · exact (by decide : Mark.closeAngle ∈ flowMarks)
  · have hnone : n.count '?' = 0 := hname.count
    simp [hnone, h.count]

theorem bar (h : Writes s ls) (h' : Writes s' ls') :
    Writes (s ++ " | ".toList ++ s') (ls ++ .mark .bar :: ls') := by
  refine ⟨fun {front blanks rest more} hs hblanks hrest hmore => ?_, ?_, ?_⟩
  · have hs' : (s ++ [' ']) ++ '|' :: (' ' :: s') = front ++ blanks := by
      rw [← hs]
      simp
    obtain ⟨after, rfl, hafter⟩ := exists_front_of_visible rfl hblanks hs'
    have hright : Lexed (after ++ rest) (ls' ++ more) := by
      cases after with
      | nil =>
        -- All of the second text is cut off, with the blank before it.
        rw [List.nil_append] at hafter
        have hblanks' : ∀ c ∈ s', Text.isBlank c = true := by
          intro c hc
          exact hblanks c (by rw [← hafter]; exact List.mem_cons_of_mem _ hc)
        exact h'.lexed (List.nil_append s').symm hblanks' hrest hmore
      | cons c after =>
        obtain ⟨rfl, hcut⟩ := List.cons.inj hafter
        exact .blank rfl (h'.lexed hcut hblanks hrest hmore)
    have hbar : Lexed (' ' :: '|' :: (after ++ rest)) (.mark .bar :: (ls' ++ more)) :=
      .blank rfl (.mark rfl rfl hright)
    have hall := h.lexed_append (endsName_of_mem (by decide) _) hbar
    simpa using hall
  · intro l hl
    simp only [List.mem_append, List.mem_cons] at hl
    rcases hl with hl | rfl | hl
    · exact h.plain l hl
    · exact (by decide : Mark.bar ∈ flowMarks)
    · exact h'.plain l hl
  · simp [h.count, h'.count]

end Writes

end TypeGrammar

end DocFlow
