import Mathlib
import DocFlow.Inline.Insertion

namespace DocFlow

inductive Piece where
  | kept (text : Text)
  | inserted (e : Insertion)

namespace Piece

def text : Piece → Text
  | kept t => t
  | inserted e => e.text

def keptText : Piece → Text
  | kept t => t
  | inserted _ => []

def insertion? : Piece → Option Insertion
  | kept _ => none
  | inserted e => some e

def write (ps : List Piece) : Text := ps.flatMap text

def source (ps : List Piece) : Text := ps.flatMap keptText

end Piece

namespace Insertion

/-- The pieces of a text that starts at `place`, with insertions ordered by a key. -/
def pieces (key : Insertion → Nat) (place : Nat) : List Insertion → Text → List Piece
  | [], rest => [.kept rest]
  | e :: es, rest =>
    let n := key e - place
    .kept (rest.take n) :: .inserted e :: pieces key (place + n) es (rest.drop n)

variable {key : Insertion → Nat}

theorem write_pieces (place : Nat) (es : List Insertion) (rest : Text) :
    Piece.write (pieces key place es rest) = splice place (es.map fun e => (key e, e.text)) rest := by
  induction es generalizing place rest with
  | nil => simp [pieces, splice, Piece.write, Piece.text]
  | cons e es ih =>
    have htail := ih (place + (key e - place)) (rest.drop (key e - place))
    simp only [Piece.write] at htail
    simp [pieces, splice, Piece.write, Piece.text, htail]

theorem source_pieces (place : Nat) (es : List Insertion) (rest : Text) :
    Piece.source (pieces key place es rest) = rest := by
  induction es generalizing place rest with
  | nil => simp [pieces, Piece.source, Piece.keptText]
  | cons e es ih =>
    have htail := ih (place + (key e - place)) (rest.drop (key e - place))
    simp only [Piece.source] at htail
    simp [pieces, Piece.source, Piece.keptText, htail]

theorem insertion?_pieces (place : Nat) (es : List Insertion) (rest : Text) :
    (pieces key place es rest).filterMap Piece.insertion? = es := by
  induction es generalizing place rest with
  | nil => simp [pieces, Piece.insertion?]
  | cons e es ih => simp [pieces, List.filterMap_cons, Piece.insertion?, ih]

def Ordered {α : Type} (key : α → Nat) (place : Nat) (es : List α) : Prop :=
  es.Pairwise (fun e f => key e ≤ key f) ∧ ∀ e ∈ es, place ≤ key e

/-- Before an inserted piece stands the source up to its key. -/
theorem source_before {place : Nat} {es : List Insertion} {rest : Text} (h : Ordered key place es)
    {before after : List Piece} {e : Insertion}
    (hsplit : pieces key place es rest = before ++ .inserted e :: after) :
    Piece.source before = rest.take (key e - place) := by
  induction es generalizing place rest before with
  | nil =>
    rcases before with _ | ⟨p, _ | ⟨q, before⟩⟩ <;> simp [pieces] at hsplit
  | cons f es ih =>
    obtain ⟨hsorted, hle⟩ := h
    obtain ⟨hf, hsorted⟩ := List.pairwise_cons.1 hsorted
    have hplace : place + (key f - place) = key f :=
      Nat.add_sub_of_le (hle f List.mem_cons_self)
    rw [pieces] at hsplit
    -- The piece is the first one that is inserted, or it stands among those behind.
    rcases before with _ | ⟨p, _ | ⟨q, before⟩⟩
    · simp at hsplit
    · simp only [List.cons_append, List.nil_append, List.cons.injEq, Piece.inserted.injEq] at hsplit
      obtain ⟨rfl, rfl, -⟩ := hsplit
      simp [Piece.source, Piece.keptText]
    · simp only [List.cons_append, List.cons.injEq] at hsplit
      obtain ⟨rfl, rfl, htail⟩ := hsplit
      rw [hplace] at htail
      have hmem : e ∈ es := by
        rw [← insertion?_pieces (key f) es (rest.drop (key f - place)), htail]
        simp [Piece.insertion?]
      have hfe := hf e hmem
      have hpf := hle f List.mem_cons_self
      calc Piece.source (.kept (rest.take (key f - place)) :: .inserted f :: before)
          = rest.take (key f - place) ++ Piece.source before := by
            simp [Piece.source, Piece.keptText]
        _ = rest.take (key f - place) ++
            (rest.drop (key f - place)).take (key e - key f) := by
            rw [ih ⟨hsorted, hf⟩ htail]
        _ = rest.take (key e - place) := by
            rw [← List.take_add]
            congr 1
            omega

section Sorted

variable {α : Type} (key : α → Nat)

theorem insertSorted_perm (e : α) (es : List α) : (insertSorted key e es).Perm (e :: es) := by
  induction es with
  | nil => exact .rfl
  | cons f es ih =>
    rw [insertSorted]
    split
    · exact .rfl
    · exact (ih.cons f).trans (.swap e f es)

theorem insertSorted_pairwise (e : α) {es : List α}
    (h : es.Pairwise fun e f => key e ≤ key f) :
    (insertSorted key e es).Pairwise fun e f => key e ≤ key f := by
  induction es with
  | nil => exact List.pairwise_singleton ..
  | cons f es ih =>
    obtain ⟨hf, hes⟩ := List.pairwise_cons.1 h
    rw [insertSorted]
    split
    · next hlt =>
      refine List.pairwise_cons.2 ⟨fun g hg => ?_, h⟩
      rcases List.mem_cons.1 hg with rfl | hg
      · exact Nat.le_of_lt hlt
      · exact Nat.le_trans (Nat.le_of_lt hlt) (hf g hg)
    · next hle =>
      refine List.pairwise_cons.2 ⟨fun g hg => ?_, ih hes⟩
      rcases List.mem_cons.1 ((insertSorted_perm key e es).mem_iff.1 hg) with rfl | hg
      · exact Nat.le_of_not_lt hle
      · exact hf g hg

theorem sortedBy_perm (es : List α) : (sortedBy key es).Perm es := by
  suffices h : ∀ acc, (es.foldl (fun acc e => insertSorted key e acc) acc).Perm (es ++ acc) by
    simpa [sortedBy] using h []
  -- The fold starts from any list that is sorted so far.
  intro acc
  induction es generalizing acc with
  | nil => exact .rfl
  | cons e es ih =>
    exact (ih _).trans (((insertSorted_perm key e acc).append_left es).trans List.perm_middle)

theorem sortedBy_pairwise (es : List α) :
    (sortedBy key es).Pairwise fun e f => key e ≤ key f := by
  suffices h : ∀ acc : List α, acc.Pairwise (fun e f => key e ≤ key f) →
      (es.foldl (fun acc e => insertSorted key e acc) acc).Pairwise
        (fun e f => key e ≤ key f) from h [] .nil
  intro acc hacc
  induction es generalizing acc with
  | nil => exact hacc
  | cons e es ih => exact ih _ (insertSorted_pairwise key e hacc)

end Sorted

end Insertion

end DocFlow
