import DocFlow.Proofs.Comment.Decoration
import DocFlow.Proofs.Comment.Reading

namespace DocFlow

open Comment

/-- What stands before a tag: a space, or a line break with the decoration of a new line. -/
inductive Gap where
  | space
  | line

namespace Gap

def decoration : Gap → Text
  | space => [' ']
  | line => [' ', '*', ' ']

def text : Gap → Text
  | space => [' ']
  | line => '\n' :: line.decoration

def closing : Gap → Text
  | space => [' ']
  | line => ['\n', ' ']

/-- What is left of a gap without the decoration. -/
def mark : Gap → Char
  | space => ' '
  | line => '\n'

theorem isBlank_mark (g : Gap) : Text.isBlank g.mark = true := by
  cases g <;> rfl

theorem isBlank_of_mem_mark (g : Gap) : ∀ c ∈ [g.mark], Text.isBlank c = true := by
  intro c hc
  rw [List.mem_singleton.1 hc]
  exact g.isBlank_mark

theorem dropDecoration_decoration (g : Gap) (t : Text) :
    dropDecoration (g.decoration ++ '@' :: t) = '@' :: t := by
  cases g with
  | space => exact dropDecoration_plain WrittenTag.isBlank_of_mem_space (by decide) (by decide) t
  | line => exact dropDecoration_star WrittenTag.isBlank_of_mem_space ('@' :: t)

theorem isLineBreak_of_mem_decoration (g : Gap) :
    ∀ c ∈ g.decoration, Text.isLineBreak c = false := by
  intro c hc
  cases g with
  | space =>
    rw [List.mem_singleton.1 hc]
    rfl
  | line =>
    simp only [decoration, List.mem_cons, List.not_mem_nil, or_false] at hc
    rcases hc with rfl | rfl | rfl <;> rfl

end Gap

namespace WrittenTag

def written (tags : List (Gap × WrittenTag)) (close : Gap) : Text :=
  tags.flatMap (fun p => p.1.text ++ p.2.text) ++ close.closing

def body (tags : List (Gap × WrittenTag)) (close : Gap) : Text := '*' :: written tags close

def plain (tags : List (Gap × WrittenTag)) : Text := tags.flatMap fun p => p.1.mark :: p.2.text

theorem unbroken_line (g : Gap) {x : Text} (hx : ∀ c ∈ x, Text.isLineBreak c = false) :
    ∀ c ∈ g.decoration ++ '@' :: x, Text.isLineBreak c = false := by
  intro c hc
  rcases List.mem_append.1 hc with hc | hc
  · exact g.isLineBreak_of_mem_decoration c hc
  · rcases List.mem_cons.1 hc with rfl | hc
    · rfl
    · exact hx c hc

theorem unbroken_append {x y : Text} (hx : ∀ c ∈ x, Text.isLineBreak c = false)
    (hy : ∀ c ∈ y, Text.isLineBreak c = false) :
    ∀ c ∈ x ++ ' ' :: y, Text.isLineBreak c = false := by
  rw [List.forall_mem_append, List.forall_mem_cons]
  exact ⟨hx, rfl, hy⟩

theorem Normal.unbroken_tail {t : WrittenTag} (h : t.Normal) :
    ∀ c ∈ t.title ++ spaced t.parts, Text.isLineBreak c = false := by
  intro c hc
  exact h.oneLine c (List.mem_cons_of_mem _ hc)

theorem written_cons (g : Gap) (t : WrittenTag) (tags : List (Gap × WrittenTag)) (close : Gap) :
    written ((g, t) :: tags) close = g.text ++ (t.text ++ written tags close) := by
  rw [written, written, List.flatMap_cons, List.append_assoc, List.append_assoc]

/-- Of a line that starts with a tag and the tags behind it, the decoration is left out. -/
theorem undecorateLines_written {x : Text} (hx : ∀ c ∈ x, Text.isLineBreak c = false) (g : Gap)
    {tags : List (Gap × WrittenTag)} (h : ∀ p ∈ tags, p.2.Normal) (close : Gap) :
    undecorateLines (g.decoration ++ '@' :: (x ++ written tags close)) =
      '@' :: (x ++ (plain tags ++ [close.mark])) := by
  -- Tags that stay on the line are taken into `x`; a tag on a line of its own starts anew.
  induction tags generalizing x g with
  | nil =>
    cases close with
    | space =>
      have hline := unbroken_line g (unbroken_append hx (List.forall_mem_nil _))
      have hdrop := g.dropDecoration_decoration (x ++ [' '])
      exact (undecorateLines_of_unbroken hline (by simp)).trans hdrop
    | line =>
      have hline := unbroken_line g hx
      have hlast : undecorateLines [' '] = [] := rfl
      have hsplit : g.decoration ++ '@' :: (x ++ written [] .line) =
          (g.decoration ++ '@' :: x) ++ '\n' :: [' '] := by
        simp [written, Gap.closing]
      rw [hsplit, undecorateLines_append hline (List.cons_ne_nil _ _), hlast,
        g.dropDecoration_decoration]
      rfl
  | cons p tags ih =>
    obtain ⟨g', t⟩ := p
    rw [List.forall_mem_cons] at h
    have htext : t.text = '@' :: (t.title ++ spaced t.parts) := rfl
    cases g' with
    | space =>
      have hmore := ih (unbroken_append hx h.1.oneLine) g h.2
      have hjoin : x ++ written ((.space, t) :: tags) close =
          (x ++ ' ' :: t.text) ++ written tags close := by
        rw [written_cons]
        simp [Gap.text]
      rw [hjoin, hmore]
      simp [plain, Gap.mark]
    | line =>
      have hline := unbroken_line g hx
      have hmore := ih h.1.unbroken_tail .line h.2
      have hsplit : g.decoration ++ '@' :: (x ++ written ((.line, t) :: tags) close) =
          (g.decoration ++ '@' :: x) ++ '\n' :: (Gap.line.decoration ++
            '@' :: (t.title ++ spaced t.parts ++ written tags close)) := by
        rw [written_cons, htext]
        simp [Gap.text]
      rw [hsplit, undecorateLines_append hline (by simp), hmore, g.dropDecoration_decoration]
      simp [plain, Gap.mark, htext]

theorem solid_plain {t : WrittenTag} (ht : t.Normal) {tags : List (Gap × WrittenTag)}
    (h : ∀ p ∈ tags, p.2.Normal) : Text.Solid (t.text ++ plain tags) := by
  induction tags generalizing t with
  | nil =>
    rw [plain, List.flatMap_nil, List.append_nil]
    exact ht.solid_text
  | cons p tags ih =>
    rw [List.forall_mem_cons] at h
    have hrest := ih h.1 h.2
    exact ht.solid_text.append hrest [p.1.mark]

/-- Without decoration the tags are left, with one blank between each two. -/
theorem undecorate_body (g : Gap) {t : WrittenTag} (ht : t.Normal) {tags : List (Gap × WrittenTag)}
    (h : ∀ p ∈ tags, p.2.Normal) (close : Gap) :
    undecorate (body ((g, t) :: tags) close) = t.text ++ plain tags := by
  have hlines := undecorateLines_written ht.unbroken_tail g h close
  have hsolid := solid_plain ht h
  have hstar : dropOne '*' (body ((g, t) :: tags) close) = written ((g, t) :: tags) close := rfl
  have hdone : ∀ before, (∀ c ∈ before, Text.isBlank c = true) →
      undecorateLines (written ((g, t) :: tags) close) =
        before ++ (t.text ++ plain tags ++ [close.mark]) →
      undecorate (body ((g, t) :: tags) close) = t.text ++ plain tags := by
    intro before hbefore heq
    rw [undecorate_eq, hstar, heq]
    exact hsolid.trim hbefore close.isBlank_of_mem_mark
  cases g with
  | space =>
    refine hdone [] (List.forall_mem_nil _) ?_
    rw [written_cons]
    refine hlines.trans ?_
    simp [text]
  | line =>
    refine hdone ['\n'] (by simp [Text.isBlank]) ?_
    have hsplit : written ((.line, t) :: tags) close =
        [] ++ '\n' :: (Gap.line.decoration ++
          '@' :: (t.title ++ spaced t.parts ++ written tags close)) := by
      rw [written_cons]
      rfl
    rw [hsplit, undecorateLines_append (List.forall_mem_nil _) (by simp), hlines]
    simp [text, dropDecoration_blanks]

/-- A blank behind a text does not make it a title. -/
theorem startsTitle_append {rest : Text} (hrest : ∀ c ∈ rest.head?, Text.isBlank c = true)
    (u : Text) : startsTitle (u ++ rest) = startsTitle u := by
  cases u with
  | cons c u => rfl
  | nil =>
    cases rest with
    | nil => rfl
    | cons c rest =>
      have hblank := hrest c rfl
      rw [List.nil_append, startsTitle, startsTitle]
      by_contra hletter
      rw [isBlank_eq_false_of_isTitlePart (isTitlePart_of_isAlpha (by simpa using hletter))]
        at hblank
      cases hblank

theorem nesting_front {q : Text} {c : Char} {depth : Nat} (hc : Text.isBlank c = true)
    (h : nesting 0 (q ++ [c]) = some depth) : nesting 0 q = some depth := by
  rw [nesting_append] at h
  cases hfront : nesting 0 q with
  | none =>
    rw [hfront] at h
    cases h
  | some d =>
    rw [hfront, Option.bind_some, nesting_of_isBlank hc] at h
    exact h

/-- Up to its end a tag is not cut. -/
theorem Normal.cutTags_tail {t : WrittenTag} (h : t.Normal) {rest : Text}
    (hrest : ∀ c ∈ rest.head?, Text.isBlank c = true) {q u : Text} {c : Char} {depth : Nat}
    (htext : t.text = q ++ c :: u) (hdepth : nesting 0 (q ++ [c]) = some depth) :
    cutTags depth (Text.isBlank c) (u ++ rest) =
      (u ++ (cutTags 0 false rest).1, (cutTags 0 false rest).2) := by
  have hwhole : nesting depth u = some 0 := by
    have hall := h.balanced
    rw [Comment.Balanced, htext, List.append_cons, nesting_append, hdepth] at hall
    exact hall
  induction u generalizing q c depth with
  | nil =>
    cases hwhole
    obtain ⟨front, d, heq, hd⟩ := h.solid_text.last
    rw [htext] at heq
    obtain ⟨-, hlast⟩ := List.append_inj' heq rfl
    cases hlast
    rw [hd]
    rfl
  | cons e u ih =>
    rw [nesting] at hwhole
    split at hwhole
    · cases hwhole
    · next hpartner =>
      have hno : startsTag depth (Text.isBlank c) e (u ++ rest) = false := by
        by_contra hstarts
        simp only [startsTag, startsTitle_append hrest, Bool.not_eq_false, Bool.and_eq_true,
          beq_iff_eq] at hstarts
        obtain ⟨⟨⟨rfl, rfl⟩, hblank⟩, htitle⟩ := hstarts
        have hsingle := h.single q c u htext hblank (nesting_front hblank hdepth)
        rw [htitle] at hsingle
        cases hsingle
      have hstep : nesting 0 (q ++ [c] ++ [e]) = some (depthAfter depth e) := by
        rw [nesting_append, hdepth, Option.bind_some, nesting, if_neg hpartner, nesting]
      have hmore := ih (q := q ++ [c]) (c := e) (by rw [htext, List.append_cons]) hstep hwhole
      rw [List.cons_append, cutTags, hmore, hno]
      rfl

/-- A tag is cut where it starts. -/
theorem Normal.cutTags_text {t : WrittenTag} (h : t.Normal) {rest : Text}
    (hrest : ∀ c ∈ rest.head?, Text.isBlank c = true) :
    cutTags 0 true (t.text ++ rest) =
      ([], (t.text ++ (cutTags 0 false rest).1) :: (cutTags 0 false rest).2) := by
  obtain ⟨c, front, htitle, hletter, -⟩ := h.title
  have htail := h.cutTags_tail hrest (q := []) (c := '@') rfl rfl
  have hstarts : startsTag 0 true '@' (t.title ++ spaced t.parts ++ rest) = true := by
    rw [htitle]
    exact hletter
  rw [text, List.cons_append, cutTags, if_pos hstarts]
  exact congrArg (fun r : Text × List Text => ([], ('@' :: r.1) :: r.2)) htail

theorem isBlank_of_head_plain (tags : List (Gap × WrittenTag)) :
    ∀ c ∈ (plain tags).head?, Text.isBlank c = true := by
  intro c hc
  cases tags with
  | nil => cases hc
  | cons p tags =>
    cases hc
    exact p.1.isBlank_mark

theorem cutTags_mark (g : Gap) (rest : Text) :
    cutTags 0 false (g.mark :: rest) =
      (g.mark :: (cutTags 0 true rest).1, (cutTags 0 true rest).2) := by
  cases g <;> rfl

/-- A text is cut at its tags, and each of them is read as it is. -/
theorem readTag_tagTexts {t : WrittenTag} (ht : t.Normal) {tags : List (Gap × WrittenTag)}
    (h : ∀ p ∈ tags, p.2.Normal) :
    List.Forall₂ (fun chunk t => readTag chunk = .ok (WrittenTag.tag t))
      (tagTexts (t.text ++ plain tags)) (t :: tags.map Prod.snd) := by
  have hcut := ht.cutTags_text (isBlank_of_head_plain tags)
  rw [tagTexts, hcut]
  induction tags generalizing t with
  | nil => exact .cons (ht.readTag_text (List.forall_mem_nil _)) .nil
  | cons p tags ih =>
    obtain ⟨g, t'⟩ := p
    rw [List.forall_mem_cons] at h
    have hnext := h.1.cutTags_text (isBlank_of_head_plain tags)
    have hplain : plain ((g, t') :: tags) = g.mark :: (t'.text ++ plain tags) := rfl
    rw [hplain, cutTags_mark, hnext]
    exact .cons (ht.readTag_text g.isBlank_of_mem_mark) (ih h.1 h.2 hnext)

/-- Any tags in normal form, written on one line or on many, are read from the comment as they
are. -/
theorem parse_body {tags : List (Gap × WrittenTag)} (hne : tags ≠ [])
    (h : ∀ p ∈ tags, p.2.Normal) (close : Gap) :
    parse (body tags close) = .ok (tags.map fun p => p.2.tag) := by
  obtain ⟨⟨g, t⟩, tags, rfl⟩ := List.exists_cons_of_ne_nil hne
  rw [List.forall_mem_cons] at h
  have hread := readTag_tagTexts h.1 h.2
  obtain ⟨chunk, chunks, hfirst, hmore, hcut⟩ := List.forall₂_cons_right_iff.1 hread
  rw [parse, undecorate_body g h.1 h.2, hcut]
  dsimp only
  rw [mapM_eq_ok_iff_forall₂, List.map_cons]
  rw [List.forall₂_map_right_iff] at hmore
  exact .cons hfirst (List.forall₂_map_right_iff.2 hmore)

/-- Braces in the type, a default for the name, and a second tag on the line. -/
theorem parse_body_of_param_and_return :
    let param : WrittenTag := ⟨"param".toList, some "\x7ba: 3\x7d".toList,
      some (.bracketed "n".toList (some "1".toList)), "size".toList⟩
    let back : WrittenTag := ⟨"return".toList, some "*".toList, none, []⟩
    param.Normal ∧ back.Normal ∧
      parse "*\n * @param \x7b\x7ba: 3\x7d\x7d [n=1] size @return \x7b*\x7d ".toList =
        .ok [param.tag, back.tag] := by
  intro param back
  have one_at (t : WrittenTag) (h : '@' ∉ t.text.tail) {before behind : Text} {c : Char}
      (heq : t.text = before ++ c :: '@' :: behind) : False := by
    rw [heq] at h
    cases before <;> exact h (by simp)
  have hparam : param.Normal :=
    { title := by
        have hletters : ∀ d ∈ "aram".toList, d.isAlpha = true := by simp
        exact ⟨'p', "aram".toList, rfl, by decide,
          fun d hd => isTitlePart_of_isAlpha (hletters d hd)⟩
      noSynonym := by decide +kernel
      typed := fun _ => by decide
      named := fun _ => by decide
      rawType := by
        rintro _ ⟨⟩
        decide
      name := by
        rintro _ ⟨⟩
        exact ⟨by decide, by decide, by decide, by decide, by rintro _ ⟨⟩; decide⟩
      description := by decide
      notType := nofun
      notName := nofun
      oneLine := by
        have hall : (param.text.all fun c => !Text.isLineBreak c) = true := by decide
        simpa using hall
      balanced := by decide
      single := fun _ _ _ heq => (one_at param (by decide +kernel) heq).elim }
  have hback : back.Normal :=
    { title := by
        have hletters : ∀ d ∈ "eturn".toList, d.isAlpha = true := by simp
        exact ⟨'r', "eturn".toList, rfl, by decide,
          fun d hd => isTitlePart_of_isAlpha (hletters d hd)⟩
      noSynonym := by decide +kernel
      typed := fun _ => by decide
      named := nofun
      rawType := by
        rintro _ ⟨⟩
        decide
      name := nofun
      description := by decide
      notType := nofun
      notName := nofun
      oneLine := by
        have hall : (back.text.all fun c => !Text.isLineBreak c) = true := by decide
        simpa using hall
      balanced := by decide
      single := fun _ _ _ heq => (one_at back (by decide +kernel) heq).elim }
  refine ⟨hparam, hback, ?_⟩
  have hnormal : ∀ p ∈ [(Gap.line, param), (.space, back)], p.2.Normal := by
    simp [hparam, hback]
  exact parse_body (List.cons_ne_nil _ _) hnormal .space

end WrittenTag

end DocFlow
