import DocFlow.Proofs.Comment.TagList

namespace DocFlow.Comment

open Text

def title? : Text → Option (Text × Text)
  | [] => none
  | c :: t =>
    let (more, rest) := t.span isTitlePart
    if c.isAlpha then some (c :: more, rest) else none

def IsTitle (t : Text) : Prop :=
  ∃ c more, t = c :: more ∧ c.isAlpha = true ∧ ∀ d ∈ more, isTitlePart d = true

theorem IsTitle.isTitlePart_of_mem {t : Text} (h : IsTitle t) : ∀ c ∈ t, isTitlePart c = true := by
  obtain ⟨c, more, rfl, hc, hmore⟩ := h
  rw [List.forall_mem_cons]
  exact ⟨isTitlePart_of_isAlpha hc, hmore⟩

/-- The title of a text is its longest front of characters of titles, if a letter comes first. -/
theorem title?_eq_some_iff {t title rest : Text} :
    title? t = some (title, rest) ↔
      t = title ++ rest ∧ IsTitle title ∧ ∀ d ∈ rest.head?, isTitlePart d = false := by
  constructor
  · intro h
    cases t with
    | nil => cases h
    | cons c t =>
      rw [title?, List.span_eq_takeWhile_dropWhile] at h
      dsimp only at h
      split at h
      · next hc =>
        cases h
        refine ⟨?_, ⟨c, _, rfl, hc, fun d => List.mem_takeWhile_imp⟩, ?_⟩
        · rw [List.cons_append, List.takeWhile_append_dropWhile]
        · intro d hd
          have hstop := List.head?_dropWhile_not isTitlePart t
          rw [hd] at hstop
          simpa using hstop
      · cases h
  · rintro ⟨rfl, ⟨c, more, rfl, hc, hmore⟩, hstop⟩
    rw [List.cons_append, title?, span_append hmore hstop]
    exact if_pos hc

theorem isSome_title? (t : Text) : (title? t).isSome = startsTitle t := by
  cases t with
  | nil => rfl
  | cons c t =>
    rw [title?, startsTitle]
    dsimp only
    cases c.isAlpha <;> rfl

/-- What follows a text leaves its title alone if it starts with no character of titles. -/
theorem title?_append {t title more : Text} (h : title? t = some (title, more)) {rest : Text}
    (hrest : ∀ d ∈ rest.head?, isTitlePart d = false) :
    title? (t ++ rest) = some (title, more ++ rest) := by
  obtain ⟨rfl, htitle, hmore⟩ := title?_eq_some_iff.1 h
  refine title?_eq_some_iff.2 ⟨List.append_assoc .., htitle, ?_⟩
  cases more with
  | nil => exact hrest
  | cons d more => exact hmore

/-- The title that is read of a tag is the one behind its first character. -/
theorem titleOf_eq {t : Text} {r : Text × Text} (h : title? (t.drop 1) = some r) : titleOf t = r := by
  obtain ⟨heq, htitle, hstop⟩ := title?_eq_some_iff.1 h
  rw [titleOf, heq]
  exact span_append htitle.isTitlePart_of_mem hstop

/-- No brace that opens in a text stays open: behind each place as many close as open. -/
def LeavesNoneOpen (t : Text) : Prop := ∀ s, s <:+ t → s.count '{' ≤ s.count '}'

/-- The depth behind a text is zero iff all its braces are closed, and those open before it. -/
theorem foldl_depthAfter_eq_zero_iff (depth : Nat) (t : Text) :
    t.foldl depthAfter depth = 0 ↔
      depth + t.count '{' ≤ t.count '}' ∧ LeavesNoneOpen t := by
  induction t generalizing depth with
  | nil => simp [LeavesNoneOpen]
  | cons c t ih =>
    have hcons : LeavesNoneOpen (c :: t) ↔
        (c :: t).count '{' ≤ (c :: t).count '}' ∧ LeavesNoneOpen t := by
      simp only [LeavesNoneOpen, List.suffix_cons_iff, forall_eq_or_imp]
    rw [List.foldl_cons, ih, hcons, ← and_assoc]
    apply and_congr_left
    intro hnone
    have hrest := hnone t List.suffix_rfl
    rw [depthAfter]
    split
    · next hopens =>
      rw [hopens, List.count_cons_self, List.count_cons_of_ne (by decide)]
      omega
    · next hopens =>
      split
      · next hcloses =>
        rw [hcloses, List.count_cons_self, List.count_cons_of_ne (by decide)]
        omega
      · next hcloses =>
        rw [List.count_cons_of_ne hopens, List.count_cons_of_ne hcloses]
        omega

theorem depth_eq_zero_iff (t : Text) : t.foldl depthAfter 0 = 0 ↔ LeavesNoneOpen t := by
  rw [foldl_depthAfter_eq_zero_iff, Nat.zero_add, and_iff_right_iff_imp]
  intro h
  exact h t List.suffix_rfl

def behindBlank (t : Text) (i : Nat) : Bool := i == 0 || (t[i - 1]?).any isBlank

theorem behindBlank_append (front rest : Text) :
    behindBlank (front ++ rest) front.length = front.getLast?.elim true isBlank := by
  rcases List.eq_nil_or_concat' front with rfl | ⟨front, c, rfl⟩
  · rfl
  · simp [behindBlank]

/-- A tag starts at a position of a text: an `@` outside of braces, at the start or behind a blank,
with a title behind it. -/
structure TagAt (t : Text) (i : Nat) : Prop where
  mark : t[i]? = some '@'
  outside : LeavesNoneOpen (t.take i)
  blank : behindBlank t i = true
  title : (title? (t.drop (i + 1))).isSome = true

theorem startsWithTag_iff {t : Text} :
    StartsWithTag t ↔ t.head? = some '@' ∧ (title? t.tail).isSome = true := by
  rw [isSome_title?]
  rcases t with _ | ⟨c, _ | ⟨d, rest⟩⟩ <;> simp [StartsWithTag, startsTitle]

theorem tagAt_append (front rest : Text) :
    TagAt (front ++ rest) front.length ↔ TagStarts 0 true front rest := by
  have hmark : (front ++ rest)[front.length]? = rest.head? := by
    rw [List.getElem?_append_right (Nat.le_refl _), Nat.sub_self, List.head?_eq_getElem?]
  have htitle : (front ++ rest).drop (front.length + 1) = rest.tail := by
    rw [List.drop_length_add_append, List.drop_one]
  constructor
  · rintro ⟨mark, outside, blank, title⟩
    rw [List.take_left] at outside
    rw [behindBlank_append] at blank
    rw [hmark] at mark
    rw [htitle] at title
    exact ⟨(depth_eq_zero_iff front).2 outside, blank, startsWithTag_iff.2 ⟨mark, title⟩⟩
  · rintro ⟨outside, blank, tag⟩
    obtain ⟨mark, title⟩ := startsWithTag_iff.1 tag
    refine ⟨hmark.trans mark, ?_, ?_, ?_⟩
    · rw [List.take_left]
      exact (depth_eq_zero_iff front).1 outside
    · rw [behindBlank_append]
      exact blank
    · rw [htitle]
      exact title

/-- The pieces of a text from each position to the next, and from the last one to the end. -/
def pieces (t : Text) : List Nat → List Text
  | [] => []
  | [i] => [t.drop i]
  | i :: j :: more => (t.take j).drop i :: pieces t (j :: more)

def offsets : Nat → List Text → List Nat
  | _, [] => []
  | i, x :: xs => i :: offsets (i + x.length) xs

theorem pieces_offsets {t lead : Text} {xs : List Text} (h : t = lead ++ xs.flatten) :
    pieces t (offsets lead.length xs) = xs := by
  induction xs generalizing lead with
  | nil => rfl
  | cons x xs ih =>
    have hrest : t = (lead ++ x) ++ xs.flatten := by
      rw [h, List.flatten_cons, List.append_assoc]
    have hmore := ih hrest
    rw [List.length_append] at hmore
    cases xs with
    | nil =>
      rw [offsets, offsets, pieces, h, List.drop_left, List.flatten_singleton]
    | cons y ys =>
      have hpiece : (t.take (lead.length + x.length)).drop lead.length = x := by
        rw [hrest, ← List.length_append, List.take_left, List.drop_left]
      rw [offsets] at hmore ⊢
      rw [offsets, pieces, hpiece, hmore]

theorem mem_offsets {i n : Nat} {xs : List Text} :
    n ∈ offsets i xs ↔
      ∃ before after, xs = before ++ after ∧ after ≠ [] ∧ n = i + before.flatten.length := by
  induction xs generalizing i with
  | nil =>
    refine iff_of_false List.not_mem_nil ?_
    rintro ⟨before, after, h, hafter, -⟩
    exact hafter (List.append_eq_nil_iff.1 h.symm).2
  | cons x xs ih =>
    rw [offsets, List.mem_cons, ih]
    constructor
    · rintro (rfl | ⟨before, after, rfl, hafter, rfl⟩)
      · exact ⟨[], x :: xs, rfl, List.cons_ne_nil _ _, rfl⟩
      · refine ⟨x :: before, after, rfl, hafter, ?_⟩
        rw [List.flatten_cons, List.length_append, Nat.add_assoc]
    · rintro ⟨before, after, h, hafter, rfl⟩
      cases before with
      | nil => exact .inl rfl
      | cons y before =>
        obtain ⟨rfl, rfl⟩ := List.cons.inj h
        refine .inr ⟨before, after, rfl, hafter, ?_⟩
        rw [List.flatten_cons, List.length_append, Nat.add_assoc]

theorem pairwise_offsets {xs : List Text} (h : ∀ x ∈ xs, x ≠ []) (i : Nat) :
    (offsets i xs).Pairwise (· < ·) := by
  induction xs generalizing i with
  | nil => exact List.Pairwise.nil
  | cons x xs ih =>
    rw [List.forall_mem_cons] at h
    refine List.Pairwise.cons ?_ (ih h.2 _)
    intro n hn
    obtain ⟨before, after, -, -, rfl⟩ := mem_offsets.1 hn
    have hlength := List.length_pos_iff.2 h.1
    omega

/-- What is known at a position of a text: the tags that have ended, where the open one starts, and
the depth of braces. -/
structure Scan where
  ended : List Text := []
  start : Option Nat := none
  depth : Nat := 0

namespace Scan

def startTag (t : Text) (s : Scan) (i : Nat) : Scan :=
  { s with
    ended := s.ended ++ (s.start.map fun j => (t.take i).drop j).toList
    start := some i }

def goOn (s : Scan) (c : Char) : Scan := { s with depth := depthAfter s.depth c }

def step (t : Text) (s : Scan) (p : Char × Nat) : Scan :=
  if p.1 = '@' ∧ s.depth = 0 ∧ behindBlank t p.2 = true ∧
      (title? (t.drop (p.2 + 1))).isSome = true then s.startTag t p.2
  else s.goOn p.1

def close (t : Text) (s : Scan) : List Text := s.ended ++ (s.start.map fun j => t.drop j).toList

def tags (t : Text) : List Text := (t.zipIdx.foldl (step t) {}).close t

theorem step_append (front : Text) (c : Char) (rest : Text) (s : Scan) :
    step (front ++ c :: rest) s (c, front.length) =
      if startsTag s.depth (behindBlank (front ++ c :: rest) front.length) c rest = true then
        s.startTag (front ++ c :: rest) front.length
      else s.goOn c := by
  have hrest : (front ++ c :: rest).drop (front.length + 1) = rest := by
    rw [List.drop_length_add_append, List.drop_one, List.tail_cons]
  rw [step, hrest, isSome_title?, startsTag]
  simp only [Bool.and_eq_true, beq_iff_eq, and_assoc]

/-- The tags of a text from a front on, if its rest is cut into a lead, which goes to the open tag,
and tags. -/
def closeWith (s : Scan) (front : Text) (cut : Text × List Text) : List Text :=
  s.ended ++ (s.start.map fun j => front.drop j ++ cut.1).toList ++ cut.2

theorem closeWith_startTag (s : Scan) (front : Text) (c : Char) (rest : Text)
    (cut : Text × List Text) :
    (s.startTag (front ++ rest) front.length).closeWith (front ++ [c]) cut =
      s.closeWith front ([], (c :: cut.1) :: cut.2) := by
  simp [closeWith, startTag]

theorem closeWith_goOn {s : Scan} {front : Text} (hs : ∀ j ∈ s.start, j ≤ front.length) (c : Char)
    (cut : Text × List Text) :
    (s.goOn c).closeWith (front ++ [c]) cut = s.closeWith front (c :: cut.1, cut.2) := by
  have hopen : (s.start.map fun j => (front ++ [c]).drop j ++ cut.1) =
      s.start.map fun j => front.drop j ++ c :: cut.1 := by
    apply Option.map_congr
    intro j hj
    rw [List.drop_append_of_le_length (hs j hj), List.append_assoc]
    rfl
  rw [closeWith, closeWith, ← hopen]
  rfl

/-- A run that goes on behind a front of a text ends with what is cut of the rest. -/
theorem close_foldl_step {t front rest : Text} (ht : t = front ++ rest) {s : Scan}
    (hs : ∀ j ∈ s.start, j ≤ front.length) :
    ((rest.zipIdx front.length).foldl (step t) s).close t =
      s.closeWith front (cutTags s.depth (behindBlank t front.length) rest) := by
  induction rest generalizing front s with
  | nil =>
    rw [List.append_nil] at ht
    subst ht
    simp only [closeWith, cutTags, List.append_nil]
    rfl
  | cons c rest ih =>
    have hfront : t = (front ++ [c]) ++ rest := by
      rw [ht, List.append_assoc]
      rfl
    have hlength : (front ++ [c]).length = front.length + 1 := List.length_append
    have hblank : behindBlank t (front ++ [c]).length = isBlank c := by
      rw [hfront, behindBlank_append, List.getLast?_concat]
      rfl
    have hstep := step_append front c rest s
    rw [← ht] at hstep
    rw [List.zipIdx_cons, List.foldl_cons, hstep, ← hlength, cutTags]
    split
    · next hstart =>
      -- The depth is zero before an `@` that starts a tag, and behind it.
      have hdepth : depthAfter s.depth c = s.depth := by
        obtain ⟨_, _, heq, -⟩ := (startsTag_iff.1 hstart).tag
        rw [(List.cons.inj heq).1]
        rfl
      rw [ih hfront (by simp [startTag]), hblank, hdepth, ht, closeWith_startTag]
      rfl
    · next hstart =>
      have hbefore : ∀ j ∈ (s.goOn c).start, j ≤ (front ++ [c]).length := by
        intro j hj
        rw [hlength]
        exact Nat.le_succ_of_le (hs j hj)
      rw [ih hfront hbefore, hblank, closeWith_goOn hs]
      rfl

/-- The tags found in one run are those of the text. -/
theorem tags_eq (t : Text) : tags t = tagTexts t := by
  have hstart : ∀ j ∈ ({} : Scan).start, j ≤ ([] : Text).length := nofun
  exact close_foldl_step (List.nil_append t).symm hstart

end Scan

def TitledAt (t : Text) (i : Nat) (tag : Text) : Prop :=
  ∃ title more later, title? (tag.drop 1) = some (title, more) ∧
    titleOf tag = (title, more) ∧ title? (t.drop (i + 1)) = some (title, more ++ later)

theorem CutAtTags.mem_offsets_iff {t lead : Text} {tags : List Text}
    (h : CutAtTags 0 true t lead tags) (i : Nat) : i ∈ offsets lead.length tags ↔ TagAt t i := by
  rw [mem_offsets]
  constructor
  · rintro ⟨before, after, htags, hafter, rfl⟩
    have hsplit : t = (lead ++ before.flatten) ++ after.flatten := by
      rw [h.whole, htags, List.flatten_append, List.append_assoc]
    have hstarts := (h.starts _ _ hsplit).2 ⟨before, after, htags, hafter, rfl⟩
    rw [← List.length_append, hsplit]
    exact (tagAt_append _ _).2 hstarts
  · intro htag
    obtain ⟨hlt, -⟩ := List.getElem?_eq_some_iff.1 htag.mark
    have hlength : (t.take i).length = i := List.length_take_of_le (Nat.le_of_lt hlt)
    have hstarts : TagStarts 0 true (t.take i) (t.drop i) := by
      rw [← tagAt_append, List.take_append_drop, hlength]
      exact htag
    obtain ⟨before, after, htags, hafter, hfront⟩ :=
      (h.starts _ _ (List.take_append_drop i t).symm).1 hstarts
    refine ⟨before, after, htags, hafter, ?_⟩
    rw [← List.length_append, ← hfront, hlength]

/-- A tag has its title from the text, unless characters of titles follow the tag. -/
theorem titledAt_append {x rest : Text} (hx : StartsWithTag x)
    (hrest : ∀ d ∈ rest.head?, isTitlePart d = false) (front : Text) :
    TitledAt (front ++ (x ++ rest)) front.length x := by
  obtain ⟨⟨title, behind⟩, htitle⟩ := Option.isSome_iff_exists.1 (startsWithTag_iff.1 hx).2
  obtain ⟨c, more, rfl, -⟩ := hx
  refine ⟨title, behind, rest, htitle, titleOf_eq htitle, ?_⟩
  rw [List.drop_length_add_append]
  exact title?_append htitle hrest

/-- A title ends before the next tag, which starts with an `@`. -/
theorem titledAt_offsets {t lead : Text} {tags : List Text} (ht : t = lead ++ tags.flatten)
    (htags : ∀ x ∈ tags, StartsWithTag x) :
    List.Forall₂ (TitledAt t) (offsets lead.length tags) tags := by
  induction tags generalizing lead with
  | nil => exact .nil
  | cons x xs ih =>
    rw [List.forall_mem_cons] at htags
    rw [List.flatten_cons] at ht
    have hmore := ih (ht.trans (List.append_assoc ..).symm) htags.2
    rw [List.length_append] at hmore
    have hnext : ∀ d ∈ xs.flatten.head?, isTitlePart d = false := by
      cases xs with
      | nil => exact nofun
      | cons y ys =>
        obtain ⟨c, more, rfl, -⟩ := htags.2 y List.mem_cons_self
        intro d hd
        cases hd
        decide +kernel
    rw [ht] at hmore ⊢
    exact .cons (titledAt_append htags.1 hnext lead) hmore

/-- The tags of a text are its pieces from each position where a tag starts to the next one, in
order, so together they are the text from the first of these positions on. One run over the text
finds them. Each has a title: the one at its position in the text, and it is read. -/
theorem tags_cut_at_starts (t : Text) :
    ∃ starts : List Nat, starts.Pairwise (· < ·) ∧ (∀ i, i ∈ starts ↔ TagAt t i) ∧
      tagTexts t = pieces t starts ∧ Scan.tags t = pieces t starts ∧
      (tagTexts t).flatten = starts.head?.elim [] (t.drop ·) ∧
      List.Forall₂ (TitledAt t) starts (tagTexts t) := by
  have hcut := cutAtTags 0 true t
  generalize hlead : (cutTags 0 true t).1 = lead at hcut
  have htags : (cutTags 0 true t).2 = tagTexts t := rfl
  rw [htags] at hcut
  have hne : ∀ x ∈ tagTexts t, x ≠ [] := by
    intro x hx
    obtain ⟨c, more, rfl, -⟩ := hcut.tag x hx
    exact List.cons_ne_nil _ _
  have hpieces := pieces_offsets hcut.whole
  refine ⟨offsets lead.length (tagTexts t), pairwise_offsets hne _, hcut.mem_offsets_iff,
    hpieces.symm, ?_, ?_, titledAt_offsets hcut.whole hcut.tag⟩
  · rw [hpieces, Scan.tags_eq]
  · have hwhole := hcut.whole
    cases htexts : tagTexts t with
    | nil => rfl
    | cons x xs =>
      rw [offsets, List.head?_cons, Option.elim_some, hwhole, List.drop_left, htexts]

example : tagTexts "a@b \x7b@c\x7d @d-e@f\n@g".toList = ["@d-e@f\n".toList, "@g".toList] := by
  decide +kernel

end DocFlow.Comment
