import DocFlow.Proofs.Literal.CodeUnit

namespace DocFlow

def IsPrintable (t : Text) : Prop := ∀ c ∈ t, IsPrintableASCII c

instance (t : Text) : Decidable (IsPrintable t) := List.decidableBAll _ t

namespace IsPrintable

variable {t u : Text} {c : Char}

theorem cons (hc : IsPrintableASCII c) (h : IsPrintable t) : IsPrintable (c :: t) :=
  List.forall_mem_cons.2 ⟨hc, h⟩

theorem append (ht : IsPrintable t) (hu : IsPrintable u) : IsPrintable (t ++ u) :=
  List.forall_mem_append.2 ⟨ht, hu⟩

theorem of_subset (h : t ⊆ u) (hu : IsPrintable u) : IsPrintable t := fun c hc => hu c (h hc)

theorem replicate (n : Nat) (hc : IsPrintableASCII c) : IsPrintable (List.replicate n c) := by
  intro d hd
  rwa [List.eq_of_mem_replicate hd]

theorem lineFeed_notMem (h : IsPrintable t) : '\n' ∉ t :=
  fun hmem => absurd (h _ hmem) (by decide)

end IsPrintable

theorem Text.isPrintable_ofNat (n : Nat) : IsPrintable (ofNat n) := by
  intro c hc
  have hdigit : c.isDigit = true := Nat.isDigit_of_mem_toDigits (by decide) (by decide) hc
  rw [Char.isDigit, Bool.and_eq_true, decide_eq_true_eq, decide_eq_true_eq] at hdigit
  have hlow : 48 ≤ c.toNat := UInt32.le_iff_toNat_le.1 hdigit.1
  have hhigh : c.toNat ≤ 57 := UInt32.le_iff_toNat_le.1 hdigit.2
  exact ⟨by omega, by omega⟩

theorem Text.isPrintable_ofInt (n : Int) : IsPrintable (ofInt n) := by
  rw [ofInt]
  split
  · exact (isPrintable_ofNat _).cons (by decide)
  · exact isPrintable_ofNat _

namespace Binary64

theorem isPrintable_dropZeros {ds : Text} (h : IsPrintable ds) : IsPrintable (dropZeros ds) := by
  refine .of_subset (fun c hc => ?_) h
  exact List.mem_reverse.1 ((List.dropWhile_sublist _).subset (List.mem_reverse.1 hc))

theorem isPrintable_writeDigits {ds : Text} (h : IsPrintable ds) (point : Int) :
    IsPrintable (writeDigits ds point) := by
  have hzero : IsPrintableASCII '0' := by decide
  have hexponent (e : Int) : IsPrintable ('e' :: (if e < 0 then '-' else '+') ::
      if (Text.ofNat e.natAbs).length < 2 then '0' :: Text.ofNat e.natAbs
      else Text.ofNat e.natAbs) := by
    refine .cons (by decide) (.cons (by split <;> decide) ?_)
    split
    · exact (Text.isPrintable_ofNat _).cons hzero
    · exact Text.isPrintable_ofNat _
  fun_cases writeDigits ds point with
  | case1 => exact (IsPrintable.append (by decide) (.replicate _ hzero)).append h
  | case2 => exact (h.append (.replicate _ hzero)).append (by decide)
  | case3 =>
    refine (h.of_subset (List.take_subset _ _)).append (.cons (by decide) ?_)
    exact h.of_subset (List.drop_subset _ _)
  | case4 _ _ _ _ _ d =>
    have hd := h d List.mem_cons_self
    exact (hexponent (point - 1)).cons hd
  | case5 _ _ _ _ _ d rest =>
    obtain ⟨hd, hrest⟩ := List.forall_mem_cons.1 h
    exact .cons hd (.cons (by decide) (.append hrest (hexponent (point - 1))))
  | case6 => exact h

theorem isPrintable_write (x : Binary64) : IsPrintable x.write := by
  cases x with
  | notANumber => decide
  | infinite negative => cases negative <;> decide
  | finite negative m q =>
    have hbody : IsPrintable (if m = 0 then "0.0".toList
        else writeDigits (dropZeros (Text.ofNat (shortest m q).1))
          ((Text.ofNat (shortest m q).1).length + (shortest m q).2)) := by
      split
      · decide
      · exact isPrintable_writeDigits (isPrintable_dropZeros (Text.isPrintable_ofNat _)) _
    cases negative with
    | false => exact hbody
    | true => exact hbody.cons (by decide)

end Binary64

theorem Literal.isPrintable_writeInteger {n : Int} {t : Text} (h : writeInteger n = .ok t) :
    IsPrintable t := by
  rw [writeInteger] at h
  split at h
  · cases h
    exact Text.isPrintable_ofInt n
  · cases h

/-- A literal is written in one line of printable ASCII. -/
theorem Literal.isPrintable_write {l : Literal} {t : Text} (h : l.write = .ok t) : IsPrintable t := by
  cases l with
  | null =>
    cases h
    decide
  | boolean value => cases value <;> cases h <;> decide
  | integer n => exact isPrintable_writeInteger h
  | double x =>
    rw [write] at h
    split at h
    · exact isPrintable_writeInteger h
    · cases h
      exact x.isPrintable_write
  | string s =>
    cases h
    exact fun c hc => isPrintableASCII_of_mem_writeString hc

end DocFlow
