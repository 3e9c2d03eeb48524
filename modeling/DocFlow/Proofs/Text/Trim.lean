import Mathlib.Data.List.Basic
import Mathlib.Data.List.TakeDrop
import Mathlib.Data.List.TakeWhile
import DocFlow.Text.Basic

namespace DocFlow.Text

/-- A text is cut where its first characters of a class end. -/
theorem span_append {p : Char → Bool} {front rest : Text} (hfront : ∀ c ∈ front, p c = true)
    (hrest : ∀ c ∈ rest.head?, p c = false) : (front ++ rest).span p = (front, rest) := by
  rw [List.span_eq_takeWhile_dropWhile, List.takeWhile_append_of_pos hfront,
    List.dropWhile_append_of_pos hfront]
  cases rest with
  | nil => rw [List.takeWhile_nil, List.dropWhile_nil, List.append_nil]
  | cons c rest =>
    have hc : ¬ p c = true := by simp [hrest c rfl]
    rw [List.takeWhile_cons_of_neg hc, List.dropWhile_cons_of_neg hc, List.append_nil]

structure Solid (t : Text) : Prop where
  first : ∃ c rest, t = c :: rest ∧ isBlank c = false
  last : ∃ rest c, t = rest ++ [c] ∧ isBlank c = false

theorem solid_of_visible {t : Text} (hne : t ≠ []) (h : ∀ c ∈ t, isBlank c = false) : Solid t := by
  obtain ⟨c, rest, rfl⟩ := List.exists_cons_of_ne_nil hne
  refine ⟨⟨c, rest, rfl, h c List.mem_cons_self⟩, ?_⟩
  exact ⟨(c :: rest).dropLast, (c :: rest).getLast hne, (List.dropLast_append_getLast hne).symm,
    h _ (List.getLast_mem hne)⟩

theorem Solid.append {s t : Text} (hs : Solid s) (ht : Solid t) (between : Text) :
    Solid (s ++ (between ++ t)) := by
  obtain ⟨c, rest, rfl, hc⟩ := hs.first
  obtain ⟨front, d, rfl, hd⟩ := ht.last
  refine ⟨⟨c, _, rfl, hc⟩, (c :: rest) ++ (between ++ front), d, ?_, hd⟩
  simp only [List.append_assoc]

theorem trimLeft_append {blanks t : Text} (hblanks : ∀ c ∈ blanks, isBlank c = true) :
    trimLeft (blanks ++ t) = trimLeft t :=
  List.dropWhile_append_of_pos hblanks

theorem trimRight_append {blanks t : Text} (hblanks : ∀ c ∈ blanks, isBlank c = true) :
    trimRight (t ++ blanks) = trimRight t := by
  have hreverse : ∀ c ∈ blanks.reverse, isBlank c = true := by
    intro c hc
    exact hblanks c (List.mem_reverse.1 hc)
  rw [trimRight, trimRight, List.reverse_append, List.dropWhile_append_of_pos hreverse]

theorem Solid.trimLeft {t : Text} (h : Solid t) (rest : Text) :
    trimLeft (t ++ rest) = t ++ rest := by
  obtain ⟨c, t, rfl, hc⟩ := h.first
  exact List.dropWhile_cons_of_neg (by simp [hc])

theorem Solid.trimRight {t : Text} (h : Solid t) : trimRight t = t := by
  obtain ⟨t, c, rfl, hc⟩ := h.last
  rw [Text.trimRight, List.reverse_concat, List.dropWhile_cons_of_neg (by simp [hc]),
    ← List.reverse_concat, List.reverse_reverse]

/-- Trimming takes the blanks around a text with no blank at its ends. -/
theorem Solid.trim {before t after : Text} (h : Solid t)
    (hbefore : ∀ c ∈ before, isBlank c = true) (hafter : ∀ c ∈ after, isBlank c = true) :
    trim (before ++ (t ++ after)) = t := by
  rw [Text.trim, trimLeft_append hbefore, h.trimLeft, trimRight_append hafter, h.trimRight]

theorem Solid.trim_eq {t : Text} (h : Solid t) : Text.trim t = t := by
  have htrim := h.trim (List.forall_mem_nil _) (List.forall_mem_nil _)
  rwa [List.nil_append, List.append_nil] at htrim

theorem trim_of_blanks {t : Text} (h : ∀ c ∈ t, isBlank c = true) : trim t = [] := by
  have hleft := trimLeft_append (t := []) h
  rw [List.append_nil] at hleft
  rw [trim, hleft]
  rfl

/-- Blanks behind a text do not count. -/
theorem trim_append {t blanks : Text} (h : ∀ c ∈ blanks, isBlank c = true) :
    trim (t ++ blanks) = trim t := by
  by_cases ht : trimLeft t = []
  · have hblank : ∀ c ∈ t, isBlank c = true := List.dropWhile_eq_nil_iff.1 ht
    have hall : ∀ c ∈ t ++ blanks, isBlank c = true := List.forall_mem_append.2 ⟨hblank, h⟩
    rw [trim_of_blanks hall, trim_of_blanks hblank]
  · have hleft : trimLeft (t ++ blanks) = trimLeft t ++ blanks := by
      rw [trimLeft, List.dropWhile_append, if_neg (by simpa [trimLeft] using ht)]
      rfl
    rw [trim, hleft, trimRight_append h, trim]

theorem length_trimRight_le (t : Text) : (trimRight t).length ≤ t.length := by
  have hle := (List.dropWhile_sublist isBlank (l := t.reverse)).length_le
  rw [List.length_reverse] at hle
  rw [trimRight, List.length_reverse]
  exact hle

/-- What trimming leaves as it is has no blank at its ends. -/
theorem solid_of_trim {t : Text} (h : trim t = t) (hne : t ≠ []) : Solid t := by
  have hfirst : ∃ c rest, t = c :: rest ∧ isBlank c = false := by
    obtain ⟨c, rest, rfl⟩ := List.exists_cons_of_ne_nil hne
    refine ⟨c, rest, rfl, ?_⟩
    by_contra hc
    have hleft : trimLeft (c :: rest) = trimLeft rest :=
      List.dropWhile_cons_of_pos (by simpa using hc)
    have hshort := length_trimRight_le (trimLeft rest)
    have hle := (List.dropWhile_sublist isBlank (l := rest)).length_le
    rw [trim, hleft] at h
    rw [h, List.length_cons] at hshort
    exact absurd (hshort.trans hle) (by omega)
  refine ⟨hfirst, ?_⟩
  obtain ⟨rest, c, rfl⟩ := (List.eq_nil_or_concat' t).resolve_left hne
  refine ⟨rest, c, rfl, ?_⟩
  by_contra hc
  have hleft : trimLeft (rest ++ [c]) = rest ++ [c] := by
    obtain ⟨d, front, heq, hd⟩ := hfirst
    rw [heq]
    exact List.dropWhile_cons_of_neg (by simp [hd])
  have hright : trimRight (rest ++ [c]) = trimRight rest := trimRight_append (by simpa using hc)
  have hshort := length_trimRight_le rest
  rw [trim, hleft, hright] at h
  rw [h, List.length_append, List.length_singleton] at hshort
  omega

end DocFlow.Text
