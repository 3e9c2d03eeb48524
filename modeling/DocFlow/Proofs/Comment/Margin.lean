import DocFlow.Comment.Tag
import DocFlow.Proofs.Comment.Decoration

namespace DocFlow.Comment

/-- What stands before a line: the break of the line before it, and its indentation. -/
structure Margin where
  lineBreak : Text
  indent : Text
  isBreak : Text.IsBreak lineBreak
  isBlank : ∀ c ∈ indent, Text.isBlank c = true
  unbroken : ∀ c ∈ indent, Text.isLineBreak c = false

namespace Margin

def text (m : Margin) : Text := m.lineBreak ++ m.indent

def line (m : Margin) (l : Text) : Text := m.indent ++ '*' :: ' ' :: l

theorem head?_ne_lineFeed {l : Text} (h : ∀ c ∈ l, Text.isLineBreak c = false) :
    l.head? ≠ some '\n' := by
  intro hhead
  exact absurd (h '\n' (List.mem_of_mem_head? hhead)) (by decide)

variable {m : Margin}

theorem unbroken_line {l : Text} (h : ∀ c ∈ l, Text.isLineBreak c = false) :
    ∀ c ∈ m.line l, Text.isLineBreak c = false := by
  rw [line, List.forall_mem_append, List.forall_mem_cons, List.forall_mem_cons]
  exact ⟨m.unbroken, rfl, rfl, h⟩

theorem head?_line (l rest : Text) : (m.line l ++ rest).head? ≠ some '\n' := by
  cases hindent : m.indent with
  | nil => simp [line, hindent]
  | cons c indent =>
    have hc := head?_ne_lineFeed m.unbroken
    rw [hindent] at hc
    simpa [line, hindent] using hc

end Margin

def decoratedLines (ls : List (Margin × Text)) (close : Margin) : Text :=
  ls.flatMap (fun l => l.1.lineBreak ++ l.1.line l.2) ++ close.text

def decorated (ls : List (Margin × Text)) (close : Margin) : Text := '*' :: decoratedLines ls close

/-- Each line loses its own decoration. The end of the comment adds an empty line at most. -/
theorem undecorateLines_decorated {first : Text} (hfirst : ∀ c ∈ first, Text.isLineBreak c = false)
    {ls : List (Margin × Text)} (unbroken : ∀ l ∈ ls, ∀ c ∈ l.2, Text.isLineBreak c = false)
    (close : Margin) :
    ∃ blanks, (∀ c ∈ blanks, Text.isBlank c = true) ∧
      undecorateLines (first ++ decoratedLines ls close) =
        Text.join ['\n'] (dropDecoration first :: ls.map Prod.snd) ++ blanks := by
  -- The line in front of the first margin is decorated itself once that margin is passed.
  induction ls generalizing first with
  | nil =>
    by_cases hindent : close.indent = []
    · refine ⟨[], List.forall_mem_nil _, ?_⟩
      have hlines : Text.lines (first ++ (close.lineBreak ++ [])) = first :: Text.lines [] :=
        Text.lines_append_break hfirst close.isBreak nofun
      rw [decoratedLines, List.flatMap_nil, List.nil_append, Margin.text, hindent, undecorateLines,
        hlines]
      exact (List.append_nil _).symm
    · refine ⟨['\n'], List.forall_mem_singleton.2 rfl, ?_⟩
      have hempty : undecorateLines close.indent = [] := by
        rw [undecorateLines_of_unbroken close.unbroken hindent, dropDecoration_blanks close.isBlank]
      have hhead := Margin.head?_ne_lineFeed close.unbroken
      rw [decoratedLines, List.flatMap_nil, List.nil_append, Margin.text,
        undecorateLines_append_break hfirst close.isBreak (fun _ => hhead) hindent, hempty]
      rfl
  | cons l ls ih =>
    obtain ⟨m, l⟩ := l
    rw [List.forall_mem_cons] at unbroken
    obtain ⟨blanks, hblanks, hmore⟩ := ih (m.unbroken_line unbroken.1) unbroken.2
    have hsplit : decoratedLines ((m, l) :: ls) close =
        m.lineBreak ++ (m.line l ++ decoratedLines ls close) := by
      simp only [decoratedLines, List.flatMap_cons, List.append_assoc]
    have hne : m.line l ++ decoratedLines ls close ≠ [] := by simp [Margin.line]
    have hline : dropDecoration (m.line l) = l := dropDecoration_star m.isBlank l
    refine ⟨blanks, hblanks, ?_⟩
    rw [hsplit, undecorateLines_append_break hfirst m.isBreak (fun _ => m.head?_line l _) hne, hmore,
      hline, List.map_cons, Text.join, List.append_assoc, List.append_assoc]
    rfl

theorem undecorate_lines {ls : List (Margin × Text)}
    (unbroken : ∀ l ∈ ls, ∀ c ∈ l.2, Text.isLineBreak c = false) (close : Margin) :
    undecorate (decorated ls close) = Text.trim (Text.join ['\n'] (ls.map Prod.snd)) := by
  have hfirst : ∀ c ∈ ([] : Text), Text.isLineBreak c = false := List.forall_mem_nil _
  obtain ⟨blanks, hblanks, hlines⟩ := undecorateLines_decorated hfirst unbroken close
  have hstar : dropOne '*' (decorated ls close) = [] ++ decoratedLines ls close := rfl
  rw [undecorate_eq, hstar, hlines, Text.trim_append hblanks]
  -- What stands before the first margin is an empty line, whose break is trimmed.
  cases ls.map Prod.snd with
  | nil => rfl
  | cons l more => rfl

/-- A decorated comment is read as its lines, whatever margins they have: comments with the same
lines have the same tags. -/
theorem undecorate_decorated {ls : List (Margin × Text)}
    (unbroken : ∀ l ∈ ls, ∀ c ∈ l.2, Text.isLineBreak c = false) (close : Margin) :
    undecorate (decorated ls close) = Text.trim (Text.join ['\n'] (ls.map Prod.snd)) ∧
      ∀ ls' close', ls'.map Prod.snd = ls.map Prod.snd →
        parse (decorated ls' close') = parse (decorated ls close) := by
  have hread := undecorate_lines unbroken close
  refine ⟨hread, fun ls' close' hsame => ?_⟩
  have unbroken' : ∀ l ∈ ls', ∀ c ∈ l.2, Text.isLineBreak c = false := by
    intro l hl
    have hmem : l.2 ∈ ls.map Prod.snd := hsame ▸ List.mem_map_of_mem hl
    obtain ⟨l', hl', heq⟩ := List.mem_map.1 hmem
    rw [← heq]
    exact unbroken l' hl'
  rw [parse, parse, undecorate_lines unbroken' close', hread, hsame]

/-- A tab behind both characters of a break and no indentation behind a line separator are read as
the usual margins are, although the second line has blanks and a star of its own. -/
theorem undecorate_decorated_by_separator :
    let wide : Margin := ⟨['\r', '\n'], ['\t'], .inl rfl, List.forall_mem_singleton.2 rfl,
      List.forall_mem_singleton.2 rfl⟩
    let thin : Margin := ⟨['\u2028'], [], .inr ⟨'\u2028', rfl, rfl⟩, List.forall_mem_nil _,
      List.forall_mem_nil _⟩
    let usual : Margin := ⟨['\n'], [' '], .inr ⟨'\n', rfl, rfl⟩, List.forall_mem_singleton.2 rfl,
      List.forall_mem_singleton.2 rfl⟩
    let tag := "@return \x7ba\x7d".toList
    let rest := "  * b".toList
    (∀ l ∈ [(wide, tag), (thin, rest)], ∀ c ∈ l.2, Text.isLineBreak c = false) ∧
      undecorate "*\r\n\t* @return \x7ba\x7d\u2028*   * b\r\n\t".toList =
        "@return \x7ba\x7d\n  * b".toList ∧
      parse (decorated [(usual, tag), (usual, rest)] usual) =
        parse "*\r\n\t* @return \x7ba\x7d\u2028*   * b\r\n\t".toList := by
  intro wide thin usual tag rest
  have unbroken : ∀ l ∈ [(wide, tag), (thin, rest)], ∀ c ∈ l.2, Text.isLineBreak c = false := by
    have apart (t : Text) (h : t.all (fun c => !Text.isLineBreak c) = true) :
        ∀ c ∈ t, Text.isLineBreak c = false := by
      simpa using h
    rw [List.forall_mem_cons, List.forall_mem_singleton]
    exact ⟨apart tag rfl, apart rest rfl⟩
  obtain ⟨hread, hsame⟩ := undecorate_decorated unbroken wide
  have htrim : Text.trim (Text.join ['\n'] [tag, rest]) = "@return \x7ba\x7d\n  * b".toList := by
    decide
  exact ⟨unbroken, hread.trans htrim, hsame [(usual, tag), (usual, rest)] usual rfl⟩

end DocFlow.Comment
