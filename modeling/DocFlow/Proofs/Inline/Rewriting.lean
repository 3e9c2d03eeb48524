import DocFlow.Proofs.Inline.Piece
import DocFlow.Proofs.Source.Encoding

namespace DocFlow

namespace Encoding

variable {e : Encoding} {s t : Text} {bytes : List UInt8}

/-- An encoded text is encoded in two parts. -/
theorem encode?_take_drop (h : encode? e s = some bytes) (p : Nat) :
    ∃ first more, encode? e (s.take p) = some first ∧ encode? e (s.drop p) = some more ∧
      bytes = first ++ more := by
  apply encode?_append.1
  rwa [List.take_append_drop]

theorem byteLength_append (e : Encoding) (s t : Text) :
    byteLength e (s ++ t) = byteLength e s + byteLength e t := by
  have hfold : ∀ n, t.foldl (fun n c => n + ((encodeChar? e c).map List.length).getD 0) n =
      n + byteLength e t := by
    unfold byteLength
    induction t with
    | nil => simp
    | cons c t ih =>
      intro n
      rw [List.foldl_cons, ih, List.foldl_cons, ih (0 + _)]
      omega
  rw [byteLength, List.foldl_append, hfold]
  rfl

theorem byteLength_pos (h : encode? e t = some bytes) (ht : t ≠ []) : 0 < byteLength e t := by
  obtain ⟨c, t, rfl⟩ := List.exists_cons_of_ne_nil ht
  obtain ⟨first, more, hc, hmore, rfl⟩ := encode?_cons.1 h
  have hfirst := length_encodeChar?_pos hc
  rw [byteLength_eq h, List.length_append]
  omega

/-- A place further on in an encoded text has a larger offset. -/
theorem byteLength_take_lt (h : encode? e s = some bytes) {p q : Nat} (hpq : p < q)
    (hp : p < s.length) : byteLength e (s.take p) < byteLength e (s.take q) := by
  have hsplit : s.take q = s.take p ++ (s.drop p).take (q - p) := by
    rw [← List.take_add]
    congr 1
    omega
  obtain ⟨-, tail, -, htail, -⟩ := encode?_take_drop h p
  obtain ⟨middle, -, hmiddle, -, -⟩ := encode?_take_drop htail (q - p)
  have hne : (s.drop p).take (q - p) ≠ [] := by
    apply List.ne_nil_of_length_pos
    rw [List.length_take, List.length_drop]
    omega
  have hpos := byteLength_pos hmiddle hne
  rw [hsplit, byteLength_append]
  omega

end Encoding

namespace Document

variable {d : Document} {es : List Insertion} {out : Text}

/-- The place of an insertion in the source. What lies beyond its end is at its end. -/
def placeOf (d : Document) (e : Insertion) : Nat := min e.place d.source.content.length

theorem byteOffset_placeOf (d : Document) (e : Insertion) :
    d.byteOffset (d.placeOf e) = d.byteOffset e.place := by
  rw [byteOffset, byteOffset, placeOf, ← List.take_eq_take_min]

theorem encode_eq_ok {t : Text} {bytes : List UInt8} (h : d.encode t = .ok bytes) :
    d.encoding.encode? t = some bytes := by
  unfold encode at h
  split at h
  · next hencode =>
    cases h
    exact hencode
  · cases h

/-- Insertions by offset are insertions by place. -/
theorem sortedBy_ordered {source : List UInt8}
    (hsource : d.encoding.encode? d.source.content = some source) (es : List Insertion) :
    Insertion.Ordered d.placeOf 0 (Insertion.sortedBy (d.byteOffset ·.place) es) := by
  refine ⟨?_, fun _ _ => Nat.zero_le _⟩
  apply (Insertion.sortedBy_pairwise (d.byteOffset ·.place) es).imp
  intro e f hoffset
  by_contra hplace
  have hlt : d.placeOf f < d.placeOf e := Nat.lt_of_not_le hplace
  have hinside : d.placeOf f < d.source.content.length :=
    Nat.lt_of_lt_of_le hlt (Nat.min_le_right ..)
  have hbytes := Encoding.byteLength_take_lt hsource hlt hinside
  rw [← byteOffset, ← byteOffset, byteOffset_placeOf, byteOffset_placeOf] at hbytes
  omega

/-- Edits of the bytes from a place on encode insertions into the text from there on. -/
theorem encode?_splice {place : Nat} {edits : List (Nat × List UInt8)} {bytes : List UInt8}
    (hedits : es.mapM d.editOf = .ok edits) (hordered : Insertion.Ordered d.placeOf place es)
    (hplace : place ≤ d.source.content.length)
    (hbytes : d.encoding.encode? (d.source.content.drop place) = some bytes) :
    d.encoding.encode? (Insertion.splice place (es.map fun e => (d.placeOf e, e.text))
        (d.source.content.drop place)) =
      some (Insertion.splice (d.byteOffset place) edits bytes) := by
  induction es generalizing place edits bytes with
  | nil =>
    cases hedits
    exact hbytes
  | cons e es ih =>
    rw [List.mapM_cons] at hedits
    obtain ⟨edit, hedit, hmore⟩ := bind_eq_ok.1 hedits
    obtain ⟨edits, hrest, hcons⟩ := bind_eq_ok.1 hmore
    cases hcons
    obtain ⟨new, hnew, rfl⟩ := map_eq_ok.1 hedit
    obtain ⟨hsorted, hle⟩ := hordered
    obtain ⟨hfirst, hsorted⟩ := List.pairwise_cons.1 hsorted
    have hnext : place ≤ d.placeOf e := hle e List.mem_cons_self
    have hinside : d.placeOf e ≤ d.source.content.length := Nat.min_le_right ..
    have hreached : place + (d.placeOf e - place) = d.placeOf e := Nat.add_sub_of_le hnext
    have hkept : d.source.content.take (d.placeOf e) = d.source.content.take place ++
        (d.source.content.drop place).take (d.placeOf e - place) := by
      rw [← List.take_add, hreached]
    have hleft : (d.source.content.drop place).drop (d.placeOf e - place) =
        d.source.content.drop (d.placeOf e) := by
      rw [List.drop_drop, hreached]
    obtain ⟨kept, left, hkeptBytes, hleftBytes, rfl⟩ :=
      Encoding.encode?_take_drop hbytes (d.placeOf e - place)
    rw [hleft] at hleftBytes
    -- The bytes up to the next edit are those of the text up to the next insertion.
    have hoffset : d.byteOffset e.place = d.byteOffset place + kept.length := by
      rw [← byteOffset_placeOf, byteOffset, hkept, Encoding.byteLength_append,
        Encoding.byteLength_eq hkeptBytes]
      rfl
    have htail := ih hrest ⟨hsorted, hfirst⟩ hinside hleftBytes
    rw [byteOffset_placeOf, hoffset] at htail
    rw [List.map_cons, Insertion.splice, Insertion.splice, hleft, hreached, hoffset,
      Nat.add_sub_cancel_left, List.take_left, List.drop_left]
    exact Encoding.encode?_append.2 ⟨_, _, Encoding.encode?_append.2
      ⟨_, _, hkeptBytes, encode_eq_ok hnew, rfl⟩, htail, rfl⟩

/-- The rewritten bytes are those of the source with its insertions between characters. -/
theorem withInsertions_of_edits {source : List UInt8} {edits : List (Nat × List UInt8)}
    (hsource : d.encode d.source.content = .ok source)
    (hedits : (Insertion.sortedBy (d.byteOffset ·.place) es).mapM d.editOf = .ok edits) :
    d.withInsertions es = .ok (Insertion.splice 0
      ((Insertion.sortedBy (d.byteOffset ·.place) es).map fun e => (d.placeOf e, e.text))
      d.source.content) := by
  have hencoded := encode_eq_ok hsource
  have hspliced := encode?_splice hedits (sortedBy_ordered hencoded es) (Nat.zero_le _) hencoded
  have hoffset : d.byteOffset 0 = 0 := rfl
  rw [hoffset] at hspliced
  refine bind_eq_ok.2 ⟨source, hsource, bind_eq_ok.2 ⟨edits, hedits, ?_⟩⟩
  rw [decode, Encoding.decode_of_encode? hspliced]
  rfl

theorem withInsertions_eq_ok (h : d.withInsertions es = .ok out) :
    out = Insertion.splice 0
      ((Insertion.sortedBy (d.byteOffset ·.place) es).map fun e => (d.placeOf e, e.text))
      d.source.content := by
  obtain ⟨source, hsource, hrewrite⟩ := bind_eq_ok.1 h
  obtain ⟨edits, hedits, -⟩ := bind_eq_ok.1 hrewrite
  rw [withInsertions_of_edits hsource hedits] at h
  exact (Except.ok.inj h).symm

/-- Making insertions keeps the source, and adds each insertion once at its place. -/
theorem exists_pieces (h : d.withInsertions es = .ok out) :
    ∃ ps : List Piece, Piece.write ps = out ∧ Piece.source ps = d.source.content ∧
      (ps.filterMap Piece.insertion?).Perm es ∧
      ∀ before e after, ps = before ++ .inserted e :: after →
        Piece.source before = d.source.content.take e.place := by
  obtain ⟨source, hsource, -⟩ := bind_eq_ok.1 h
  have hordered := sortedBy_ordered (encode_eq_ok hsource) es
  refine ⟨Insertion.pieces d.placeOf 0 (Insertion.sortedBy (d.byteOffset ·.place) es)
    d.source.content, ?_, Insertion.source_pieces .., ?_, ?_⟩
  · rw [Insertion.write_pieces, withInsertions_eq_ok h]
  · rw [Insertion.insertion?_pieces]
    exact Insertion.sortedBy_perm _ es
  · intro before e after hsplit
    rw [Insertion.source_before hordered hsplit, Nat.sub_zero, placeOf, ← List.take_eq_take_min]

end Document

end DocFlow
