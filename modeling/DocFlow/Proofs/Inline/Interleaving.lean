import DocFlow.Proofs.Inline.Rewriting

namespace DocFlow

namespace Insertion

def textAt (es : List Insertion) (place : Nat) : Text :=
  (es.filter (·.place = place)).flatMap Insertion.text

/-- Reads a text that starts at a place. In front of each character, and at the end, stands what is
inserted there. -/
def interleave (inserted : Nat → Text) (place : Nat) : Text → Text
  | [] => inserted place
  | c :: rest => inserted place ++ c :: interleave inserted (place + 1) rest

section Stable

variable {α : Type} {key : α → Nat} {p : α → Bool} {k : Nat}

theorem filter_insertSorted (same : ∀ e, p e = true → key e = k) (e : α) {es : List α}
    (sorted : es.Pairwise fun e f => key e ≤ key f) :
    (insertSorted key e es).filter p = es.filter p ++ [e].filter p := by
  induction es with
  | nil => rfl
  | cons f es ih =>
    obtain ⟨hf, hes⟩ := List.pairwise_cons.1 sorted
    rw [insertSorted]
    split
    · next hlt =>
      by_cases he : p e = true
      · -- All that stands behind `e` has a larger key.
        have hnone : (f :: es).filter p = [] := by
          rw [List.filter_eq_nil_iff]
          intro g hg hp
          have hkey : key e < key g := by
            rcases List.mem_cons.1 hg with rfl | hg
            · exact hlt
            · exact Nat.lt_of_lt_of_le hlt (hf g hg)
          rw [same e he, same g hp] at hkey
          exact Nat.lt_irrefl k hkey
        rw [List.filter_cons_of_pos he, hnone, List.filter_cons_of_pos he]
        rfl
      · rw [List.filter_cons_of_neg he, List.filter_cons_of_neg he]
        exact (List.append_nil _).symm
    · rw [List.filter_cons, List.filter_cons, ih hes]
      split <;> rfl

/-- Sorting keeps what has one key in its order. -/
theorem filter_sortedBy (same : ∀ e, p e = true → key e = k) (es : List α) :
    (sortedBy key es).filter p = es.filter p := by
  induction es using List.reverseRecOn with
  | nil => rfl
  | append_singleton es e ih =>
    have hlast : sortedBy key (es ++ [e]) = insertSorted key e (sortedBy key es) := by
      rw [sortedBy, List.foldl_append]
      rfl
    rw [hlast, filter_insertSorted same e (sortedBy_pairwise key es), ih, List.filter_append]

end Stable

variable {e : Insertion} {es : List Insertion} {place : Nat} {rest : Text}

theorem textAt_congr {es' : List Insertion}
    (same : ∀ place, es'.filter (·.place = place) = es.filter (·.place = place)) :
    textAt es' = textAt es := by
  funext place
  rw [textAt, textAt, same]

theorem textAt_cons_of_ne (h : e.place ≠ place) : textAt (e :: es) place = textAt es place := by
  simp [textAt, h]

theorem textAt_cons_self : textAt (e :: es) e.place = e.text ++ textAt es e.place := by
  simp [textAt]

theorem interleave_nil (place : Nat) (rest : Text) : interleave (textAt []) place rest = rest := by
  induction rest generalizing place with
  | nil => rfl
  | cons c rest ih =>
    rw [interleave, ih]
    rfl

/-- What is inserted further in front does not count. -/
theorem interleave_cons_of_lt (h : e.place < place) :
    interleave (textAt (e :: es)) place rest = interleave (textAt es) place rest := by
  induction rest generalizing place with
  | nil => exact textAt_cons_of_ne (Nat.ne_of_lt h)
  | cons c rest ih =>
    rw [interleave, interleave, textAt_cons_of_ne (Nat.ne_of_lt h), ih (Nat.lt_succ_of_lt h)]

/-- Up to the first place at which something is inserted, a text is read as it is. -/
theorem interleave_cons (first : ∀ f ∈ es, e.place ≤ f.place) (hplace : place ≤ e.place)
    (inside : e.place ≤ place + rest.length) :
    interleave (textAt (e :: es)) place rest = rest.take (e.place - place) ++ e.text ++
      interleave (textAt es) e.place (rest.drop (e.place - place)) := by
  induction rest generalizing place with
  | nil =>
    obtain rfl : place = e.place := Nat.le_antisymm hplace inside
    rw [interleave, textAt_cons_self, List.take_nil, List.drop_nil]
    rfl
  | cons c rest ih =>
    rcases Nat.eq_or_lt_of_le hplace with rfl | hlt
    · have hrest : interleave (textAt (e :: es)) (e.place + 1) rest = interleave (textAt es) (e.place + 1) rest :=
        interleave_cons_of_lt (Nat.lt_succ_self _)
      rw [Nat.sub_self, interleave, textAt_cons_self, hrest, List.take_zero, List.drop_zero,
        List.nil_append, interleave, List.append_assoc]
    · have hnone : textAt (e :: es) place = [] := by
        have hempty : (e :: es).filter (·.place = place) = [] := by
          rw [List.filter_eq_nil_iff]
          intro f hf
          have hle : e.place ≤ f.place := by
            rcases List.mem_cons.1 hf with rfl | hf
            · exact Nat.le_refl _
            · exact first f hf
          simp only [decide_eq_true_eq]
          omega
        rw [textAt, hempty]
        rfl
      have hstep : e.place - place = e.place - (place + 1) + 1 := by omega
      rw [List.length_cons] at inside
      rw [interleave, hnone, ih hlt (by omega), hstep, List.take_succ_cons, List.drop_succ_cons]
      rfl

/-- Ordered insertions into a text are read in it. -/
theorem splice_eq_interleave (ordered : Ordered Insertion.place place es)
    (inside : ∀ e ∈ es, e.place ≤ place + rest.length) :
    splice place (es.map fun e => (e.place, e.text)) rest = interleave (textAt es) place rest := by
  induction es generalizing place rest with
  | nil => exact (interleave_nil place rest).symm
  | cons e es ih =>
    obtain ⟨hsorted, hle⟩ := ordered
    obtain ⟨hfirst, hsorted⟩ := List.pairwise_cons.1 hsorted
    have hplace : place ≤ e.place := hle e List.mem_cons_self
    have hinside : e.place ≤ place + rest.length := inside e List.mem_cons_self
    have hreached : place + (e.place - place) = e.place := Nat.add_sub_of_le hplace
    have htail : ∀ f ∈ es, f.place ≤ e.place + (rest.drop (e.place - place)).length := by
      intro f hf
      have hf' := inside f (List.mem_cons_of_mem _ hf)
      rw [List.length_drop]
      omega
    rw [List.map_cons, splice, hreached, ih ⟨hsorted, hfirst⟩ htail,
      interleave_cons hfirst hplace hinside]

end Insertion

namespace Encoding

/-- UTF-8 has all characters. -/
theorem exists_encode?_utf8 (t : Text) : ∃ bytes, encode? .utf8 t = some bytes := by
  induction t with
  | nil => exact ⟨[], rfl⟩
  | cons c t ih =>
    obtain ⟨bytes, h⟩ := ih
    exact ⟨_, encode?_cons.2 ⟨_, bytes, rfl, h, rfl⟩⟩

end Encoding

namespace Document

variable {d : Document}

theorem encode_of_utf8 (utf8 : d.encoding = .utf8) (t : Text) : ∃ bytes, d.encode t = .ok bytes := by
  obtain ⟨bytes, h⟩ := Encoding.exists_encode?_utf8 t
  exact ⟨bytes, by rw [encode, utf8, h]⟩

theorem mapM_editOf_of_utf8 (utf8 : d.encoding = .utf8) (es : List Insertion) :
    ∃ edits, es.mapM d.editOf = .ok edits := by
  induction es with
  | nil => exact ⟨[], rfl⟩
  | cons e es ih =>
    obtain ⟨bytes, hbytes⟩ := encode_of_utf8 utf8 e.text
    obtain ⟨edits, hedits⟩ := ih
    rw [List.mapM_cons]
    exact ⟨_, bind_eq_ok.2 ⟨_, map_eq_ok.2 ⟨bytes, hbytes, rfl⟩,
      bind_eq_ok.2 ⟨edits, hedits, rfl⟩⟩⟩

theorem withInsertions_of_utf8 (utf8 : d.encoding = .utf8) {es : List Insertion}
    (inside : ∀ e ∈ es, e.place ≤ d.source.content.length) :
    d.withInsertions es = .ok (Insertion.interleave (Insertion.textAt es) 0 d.source.content) := by
  obtain ⟨source, hsource⟩ := encode_of_utf8 utf8 d.source.content
  obtain ⟨edits, hedits⟩ :=
    mapM_editOf_of_utf8 utf8 (Insertion.sortedBy (d.byteOffset ·.place) es)
  have hordered := sortedBy_ordered (encode_eq_ok hsource) es
  rw [withInsertions_of_edits hsource hedits]
  generalize hsorted : Insertion.sortedBy (d.byteOffset ·.place) es = sorted at hordered ⊢
  have hperm : sorted.Perm es := hsorted ▸ Insertion.sortedBy_perm _ es
  have hplace : ∀ e ∈ sorted, d.placeOf e = e.place := by
    intro e he
    exact Nat.min_eq_left (inside e (hperm.mem_iff.1 he))
  -- No insertion lies beyond the end, so their places are the ones that were asked for.
  have hplaces : sorted.map (fun e => (d.placeOf e, e.text)) =
      sorted.map fun e => (e.place, e.text) := by
    apply List.map_congr_left
    intro e he
    rw [hplace e he]
  have hplaced : Insertion.Ordered Insertion.place 0 sorted := by
    refine ⟨hordered.1.imp_of_mem fun he hf hle => ?_, fun _ _ => Nat.zero_le _⟩
    rwa [hplace _ he, hplace _ hf] at hle
  have hinside : ∀ e ∈ sorted, e.place ≤ 0 + d.source.content.length := by
    intro e he
    rw [Nat.zero_add]
    exact inside e (hperm.mem_iff.1 he)
  have hsame : ∀ place, sorted.filter (·.place = place) = es.filter (·.place = place) := by
    intro place
    rw [← hsorted]
    apply Insertion.filter_sortedBy (k := d.byteOffset place)
    intro e he
    rw [of_decide_eq_true he]
  rw [hplaces, Insertion.splice_eq_interleave hplaced hinside, Insertion.textAt_congr hsame]

end Document

/-- Text that is asked for at one end of a node. -/
inductive InsertionCall where
  | after (n : Script.Node) (text : Text)
  | before (n : Script.Node) (text : Text)

namespace InsertionCall

def insertion : InsertionCall → Insertion
  | after n text => .after n text
  | before n text => .before n text

def place : InsertionCall → Nat
  | after n _ => n.stop
  | before n _ => n.start

def text : InsertionCall → Text
  | after _ text => text
  | before _ text => text

def textAt (calls : List InsertionCall) (place : Nat) : Text :=
  (calls.filter (·.place = place)).flatMap text

variable {calls : List InsertionCall}

@[simp] theorem place_insertion (call : InsertionCall) : call.insertion.place = call.place := by
  cases call <;> rfl

@[simp] theorem text_insertion (call : InsertionCall) : call.insertion.text = call.text := by
  cases call <;> rfl

theorem filter_map_insertion (calls : List InsertionCall) (place : Nat) :
    (calls.map insertion).filter (·.place = place) =
      (calls.filter (·.place = place)).map insertion := by
  rw [List.filter_map]
  congr 2
  funext call
  simp

theorem textAt_eq (calls : List InsertionCall) :
    textAt calls = Insertion.textAt (calls.map insertion) := by
  funext place
  rw [textAt, Insertion.textAt, filter_map_insertion, List.flatMap_map]
  congr 1
  funext call
  exact (text_insertion call).symm

end InsertionCall

namespace Document

variable {d : Document}

theorem withInsertions_calls (utf8 : d.encoding = .utf8) {calls : List InsertionCall}
    (inside : ∀ call ∈ calls, call.place ≤ d.source.content.length) :
    d.withInsertions (calls.map InsertionCall.insertion) =
      .ok (Insertion.interleave (InsertionCall.textAt calls) 0 d.source.content) := by
  rw [InsertionCall.textAt_eq]
  apply withInsertions_of_utf8 utf8
  intro e he
  obtain ⟨call, hcall, rfl⟩ := List.mem_map.1 he
  rw [InsertionCall.place_insertion]
  exact inside call hcall

/-- Calls on nodes that lie in a source in UTF-8 never fail. Their texts stand in front of the
characters at the ends of the nodes, and nothing else changes, so the order of the calls matters
only among those at one place. -/
theorem withInsertions_interleaves (utf8 : d.encoding = .utf8) {calls : List InsertionCall}
    (inside : ∀ call ∈ calls, call.place ≤ d.source.content.length) :
    d.withInsertions (calls.map InsertionCall.insertion) =
        .ok (Insertion.interleave (InsertionCall.textAt calls) 0 d.source.content) ∧
      ∀ calls' : List InsertionCall,
        (∀ place, calls'.filter (·.place = place) = calls.filter (·.place = place)) →
          d.withInsertions (calls'.map InsertionCall.insertion) =
            d.withInsertions (calls.map InsertionCall.insertion) := by
  refine ⟨withInsertions_calls utf8 inside, fun calls' same => ?_⟩
  have inside' : ∀ call ∈ calls', call.place ≤ d.source.content.length := by
    intro call hcall
    have hmem : call ∈ calls'.filter (·.place = call.place) :=
      List.mem_filter.2 ⟨hcall, decide_eq_true rfl⟩
    rw [same] at hmem
    exact inside call (List.mem_of_mem_filter hmem)
  have hsame : InsertionCall.textAt calls' = InsertionCall.textAt calls := by
    funext place
    rw [InsertionCall.textAt, InsertionCall.textAt, same]
  rw [withInsertions_calls utf8 inside', withInsertions_calls utf8 inside, hsame]

/-- Calls from the back to the front stand in the order of their places: one behind a name, one
before the arguments, and one more behind the name. -/
theorem withInsertions_behind_umlaut :
    ∃ d name arguments, ofSource ⟨"ö(b);".toList, [], "js".toList, "utf-8".toList⟩ = .ok d ∧
      d.text name = ['b'] ∧ d.text arguments = "(b)".toList ∧
      d.withInsertions ([.after name ['1'], .before arguments ['2'], .after name ['3']].map
        InsertionCall.insertion) = .ok "ö2(b13);".toList ∧
      d.withInsertions ([.before arguments ['2'], .after name ['1'], .after name ['3']].map
        InsertionCall.insertion) = .ok "ö2(b13);".toList := by
  have read : ((ofSource ⟨"ö(b);".toList, [], "js".toList, "utf-8".toList⟩).map fun d =>
      (d.encoding, d.source.content)).toOption = some (.utf8, "ö(b);".toList) := by
    decide +kernel
  obtain ⟨d, hd, h⟩ := map_eq_ok.1 (eq_ok_of_toOption read)
  obtain ⟨utf8, hcontent⟩ := Prod.mk.inj h
  let name : Script.Node := .mk (.named .identifier) none 2 3 []
  let arguments : Script.Node := .mk (.named .arguments) none 1 4 []
  have inside : ∀ call ∈ [.after name ['1'], .before arguments ['2'], .after name ['3']],
      InsertionCall.place call ≤ d.source.content.length := by
    rw [hcontent]
    decide
  obtain ⟨hout, hsame⟩ := withInsertions_interleaves utf8 inside
  have hread : Insertion.interleave (InsertionCall.textAt [.after name ['1'],
      .before arguments ['2'], .after name ['3']]) 0 d.source.content = "ö2(b13);".toList := by
    rw [hcontent]
    decide
  rw [hread] at hout
  refine ⟨d, name, arguments, hd, ?_, ?_, hout, (hsame _ fun place => ?_).trans hout⟩
  · rw [text, hcontent]
    rfl
  · rw [text, hcontent]
    rfl
  · by_cases hplace : 3 = place
    · subst hplace
      rfl
    · have hname : ¬ name.stop = place := hplace
      simp [List.filter_cons, InsertionCall.place, hname]

end Document

end DocFlow
