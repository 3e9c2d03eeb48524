import Mathlib.Data.List.Forall2

namespace DocFlow

variable {ε α β : Type}

theorem bind_eq_ok {x : Except ε α} {f : α → Except ε β} {b : β} :
    (x >>= f) = .ok b ↔ ∃ a, x = .ok a ∧ f a = .ok b := by
  cases x with
  | error e => exact ⟨nofun, fun ⟨_, h, _⟩ => nomatch h⟩
  | ok a => exact ⟨fun h => ⟨a, rfl, h⟩, fun ⟨_, h, hf⟩ => by cases h; exact hf⟩

theorem map_eq_ok {x : Except ε α} {f : α → β} {b : β} :
    x.map f = .ok b ↔ ∃ a, x = .ok a ∧ f a = b := by
  cases x with
  | error e => exact ⟨nofun, fun ⟨_, h, _⟩ => nomatch h⟩
  | ok a => simp [Except.map]

theorem bind_eq_error {x : Except ε α} {f : α → Except ε β} {e : ε} :
    (x >>= f) = .error e ↔ x = .error e ∨ ∃ a, x = .ok a ∧ f a = .error e := by
  cases x with
  | error e' =>
    constructor
    · intro h
      cases h
      exact .inl rfl
    · rintro (h | ⟨_, h, _⟩) <;> cases h
      rfl
  | ok a =>
    constructor
    · intro h
      exact .inr ⟨a, rfl, h⟩
    · rintro (h | ⟨_, h, hf⟩) <;> cases h
      exact hf

theorem map_eq_error {x : Except ε α} {f : α → β} {e : ε} :
    x.map f = .error e ↔ x = .error e := by
  cases x <;> simp [Except.map]

theorem mem_of_mapM_eq_ok {f : α → Except ε β} {xs : List α} {ys : List β}
    (h : xs.mapM f = .ok ys) {y : β} (hy : y ∈ ys) : ∃ x ∈ xs, f x = .ok y := by
  induction xs generalizing ys with
  | nil =>
    cases h
    cases hy
  | cons x xs ih =>
    rw [List.mapM_cons] at h
    obtain ⟨z, hz, h⟩ := bind_eq_ok.1 h
    obtain ⟨zs, hzs, h⟩ := bind_eq_ok.1 h
    cases h
    rcases List.mem_cons.1 hy with rfl | hy
    · exact ⟨x, List.mem_cons_self, hz⟩
    · obtain ⟨x', hx', hf⟩ := ih hzs hy
      exact ⟨x', List.mem_cons_of_mem _ hx', hf⟩

/-- Results stand in the order of what they come from, one for each. -/
theorem mapM_eq_ok_iff_forall₂ {f : α → Except ε β} {xs : List α} {ys : List β} :
    xs.mapM f = .ok ys ↔ List.Forall₂ (fun x y => f x = .ok y) xs ys := by
  induction xs generalizing ys with
  | nil =>
    rw [List.mapM_nil, List.forall₂_nil_left_iff]
    constructor
    · intro h
      cases h
      rfl
    · rintro rfl
      rfl
  | cons x xs ih =>
    rw [List.mapM_cons, List.forall₂_cons_left_iff]
    constructor
    · intro h
      obtain ⟨y, hy, h⟩ := bind_eq_ok.1 h
      obtain ⟨ys, hys, h⟩ := bind_eq_ok.1 h
      cases h
      exact ⟨y, ys, hy, ih.1 hys, rfl⟩
    · rintro ⟨y, ys, hy, hys, rfl⟩
      exact bind_eq_ok.2 ⟨y, hy, bind_eq_ok.2 ⟨ys, ih.2 hys, rfl⟩⟩

theorem exists_mapM_iff {f : α → Except ε β} {xs : List α} :
    (∃ ys, xs.mapM f = .ok ys) ↔ ∀ x ∈ xs, ∃ y, f x = .ok y := by
  induction xs with
  | nil => exact iff_of_true ⟨[], rfl⟩ (List.forall_mem_nil _)
  | cons x xs ih =>
    rw [List.forall_mem_cons, ← ih, List.mapM_cons]
    constructor
    · rintro ⟨ys, h⟩
      obtain ⟨y, hy, h⟩ := bind_eq_ok.1 h
      obtain ⟨ys, hys, -⟩ := bind_eq_ok.1 h
      exact ⟨⟨y, hy⟩, ys, hys⟩
    · rintro ⟨⟨y, hy⟩, ys, hys⟩
      exact ⟨y :: ys, bind_eq_ok.2 ⟨y, hy, bind_eq_ok.2 ⟨ys, hys, rfl⟩⟩⟩

/-- A chain of steps fails as the first one that fails. -/
theorem mapM_eq_findSome? {δ : Type} {f : α → Except ε β} {fault? : α → Option δ} {g : α → β}
    {error : δ → ε} (h : ∀ x, f x = (fault? x).elim (.ok (g x)) fun d => .error (error d))
    (xs : List α) :
    xs.mapM f = (xs.findSome? fault?).elim (.ok (xs.map g)) fun d => .error (error d) := by
  induction xs with
  | nil => rfl
  | cons x xs ih =>
    rw [List.mapM_cons, h, List.findSome?_cons, ih]
    cases fault? x with
    | some d => rfl
    | none => cases xs.findSome? fault? <;> rfl

theorem eq_ok_of_toOption {x : Except ε α} {a : α} (h : x.toOption = some a) : x = .ok a := by
  cases x with
  | error e => cases h
  | ok b =>
    cases h
    rfl

def readAll (read : α → Except ε (Option β)) (xs : List α) : Except ε (List β) :=
  (xs.mapM read).map (List.filterMap id)

theorem readAll_cons_eq (read : α → Except ε (Option β)) (x : α) (xs : List α) :
    readAll read (x :: xs) = read x >>= fun b => (readAll read xs).map (b.toList ++ ·) := by
  rw [readAll, readAll, List.mapM_cons]
  cases read x with
  | error e => rfl
  | ok b =>
    cases xs.mapM read with
    | error e => rfl
    | ok bs => cases b <;> rfl

theorem readAll_cons {read : α → Except ε (Option β)} {x : α} {xs : List α} {bs : List β} :
    readAll read (x :: xs) = .ok bs ↔
      ∃ b bs', read x = .ok b ∧ readAll read xs = .ok bs' ∧ bs = b.toList ++ bs' := by
  rw [readAll_cons_eq, bind_eq_ok]
  constructor
  · rintro ⟨b, hb, h⟩
    obtain ⟨bs', hbs', rfl⟩ := map_eq_ok.1 h
    exact ⟨b, bs', hb, hbs', rfl⟩
  · rintro ⟨b, bs', hb, hbs', rfl⟩
    exact ⟨b, hb, map_eq_ok.2 ⟨bs', hbs', rfl⟩⟩

/-- Of fewer entries no other results are read. -/
theorem exists_readAll_filter {read : α → Except ε (Option β)} (keep : α → Bool) {xs : List α}
    {bs : List β} (h : readAll read xs = .ok bs) :
    ∃ bs', readAll read (xs.filter keep) = .ok bs' ∧ bs'.Sublist bs := by
  induction xs generalizing bs with
  | nil => exact ⟨bs, h, List.Sublist.refl bs⟩
  | cons x xs ih =>
    obtain ⟨b, bs, hb, hbs, rfl⟩ := readAll_cons.1 h
    obtain ⟨bs', hbs', hsub⟩ := ih hbs
    rw [List.filter_cons]
    split
    · exact ⟨b.toList ++ bs', readAll_cons.2 ⟨b, bs', hb, hbs', rfl⟩, hsub.append_left b.toList⟩
    · exact ⟨bs', hbs', List.sublist_append_of_sublist_right hsub⟩

/-- The results stay the same iff nothing is read at the entries that are left out. -/
theorem readAll_filter_eq_ok_iff {read : α → Except ε (Option β)} {keep : α → Bool} {xs : List α}
    {bs : List β} (h : readAll read xs = .ok bs) :
    readAll read (xs.filter keep) = .ok bs ↔ ∀ x ∈ xs, keep x = false → read x = .ok none := by
  induction xs generalizing bs with
  | nil => exact iff_of_true h (List.forall_mem_nil _)
  | cons x xs ih =>
    obtain ⟨b, bs, hb, hbs, rfl⟩ := readAll_cons.1 h
    rw [List.forall_mem_cons, ← ih hbs, List.filter_cons]
    cases hkeep : keep x with
    | true =>
      rw [if_pos rfl, readAll_cons]
      constructor
      · rintro ⟨b', bs', hb', hbs', hsame⟩
        obtain rfl := Except.ok.inj (hb.symm.trans hb')
        obtain rfl := List.append_cancel_left hsame
        exact ⟨nofun, hbs'⟩
      · rintro ⟨-, hrest⟩
        exact ⟨b, bs, hb, hrest, rfl⟩
    | false =>
      rw [if_neg Bool.false_ne_true, hb]
      obtain ⟨bs', hbs', hsub⟩ := exists_readAll_filter keep hbs
      cases b with
      | none => exact ⟨fun h => ⟨fun _ => rfl, h⟩, And.right⟩
      | some b =>
        refine ⟨fun hall => ?_, fun hall => nomatch hall.1 rfl⟩
        obtain rfl := Except.ok.inj (hbs'.symm.trans hall)
        have hlength : bs.length + 1 ≤ bs.length := by
          simpa using hsub.length_le
        exact absurd hlength (Nat.not_succ_le_self _)

theorem exists_mem_of_readAll {read : α → Except ε (Option β)} {xs : List α} {bs : List β}
    (h : readAll read xs = .ok bs) {b : β} (hb : b ∈ bs) : ∃ x ∈ xs, read x = .ok (some b) := by
  obtain ⟨os, hos, rfl⟩ := map_eq_ok.1 h
  obtain ⟨o, ho, rfl⟩ := List.mem_filterMap.1 hb
  exact mem_of_mapM_eq_ok hos ho

/-- A fold whose steps read first and then take in what is there, as reading all and a fold. -/
theorem foldlM_eq_ok_iff_readAll {σ : Type} {read : α → Except ε (Option β)}
    {step : σ → α → Except ε σ} {add : σ → β → Except ε σ}
    (hstep : ∀ s a, step s a = read a >>= fun b => b.elim (.ok s) (add s)) {xs : List α}
    {s t : σ} :
    xs.foldlM step s = .ok t ↔ ∃ bs, readAll read xs = .ok bs ∧ bs.foldlM add s = .ok t := by
  induction xs generalizing s with
  | nil => simp [readAll, pure, Except.pure, Except.map]
  | cons x xs ih =>
    rw [List.foldlM_cons, hstep]
    constructor
    · intro h
      obtain ⟨s', hs', h⟩ := bind_eq_ok.1 h
      obtain ⟨b, hb, hs'⟩ := bind_eq_ok.1 hs'
      obtain ⟨bs, hbs, h⟩ := ih.1 h
      refine ⟨b.toList ++ bs, readAll_cons.2 ⟨b, bs, hb, hbs, rfl⟩, ?_⟩
      cases b with
      | none =>
        cases hs'
        exact h
      | some b => exact bind_eq_ok.2 ⟨s', hs', h⟩
    · rintro ⟨_, hall, h⟩
      obtain ⟨b, bs, hb, hbs, rfl⟩ := readAll_cons.1 hall
      cases b with
      | none => exact bind_eq_ok.2 ⟨s, bind_eq_ok.2 ⟨none, hb, rfl⟩, ih.2 ⟨bs, hbs, h⟩⟩
      | some b =>
        obtain ⟨s', hs', h⟩ := bind_eq_ok.1 h
        exact bind_eq_ok.2 ⟨s', bind_eq_ok.2 ⟨some b, hb, hs'⟩, ih.2 ⟨bs, hbs, h⟩⟩

end DocFlow
