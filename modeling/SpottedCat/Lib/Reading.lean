import Mathlib.Data.List.Basic

/-!
# Digests of what is read piece by piece

A `Hasher` takes in a sequence in pieces, and only the sequence matters, not where it was cut. A `Reader` goes
through a sequence: each `read` takes the next elements, at most as many as asked for, and puts them into the
hasher. `Reader.Upto` says that it has taken in what lies before its place; a reader at the end has the digest
of the whole (`Reader.Upto.digest`), whatever the sizes of the reads, and every read that is not the last
brings it nearer to the end (`Reader.left_read`).
-/

/-- A digest that takes its input in pieces. -/
structure Hasher (β σ γ : Type) where
  new : σ
  consume : σ → List β → σ
  compute : σ → γ
  consume_nil : ∀ c, consume c [] = c
  consume_append : ∀ c a b, consume (consume c a) b = consume c (a ++ b)

/-- The digest of a whole sequence. -/
def Hasher.digest {β σ γ : Type} (hasher : Hasher β σ γ) (whole : List β) : γ :=
  hasher.compute (hasher.consume hasher.new whole)

/-- Where in its sequence a reader is, and what it has made of what it has read. -/
structure Reader (σ : Type) where
  pos : Nat
  context : σ
deriving DecidableEq, Repr

namespace Reader

variable {β σ γ : Type} {hasher : Hasher β σ γ} {whole : List β} {r : Reader σ} {n : Nat}

/-- The next `n` elements, fewer at the end. -/
def piece (r : Reader σ) (whole : List β) (n : Nat) : List β := (whole.drop r.pos).take n

def start (hasher : Hasher β σ γ) : Reader σ := ⟨0, hasher.new⟩

def read (hasher : Hasher β σ γ) (whole : List β) (r : Reader σ) (n : Nat) : Reader σ :=
  ⟨r.pos + (r.piece whole n).length, hasher.consume r.context (r.piece whole n)⟩

/-- It has taken in what lies before its place. -/
structure Upto (hasher : Hasher β σ γ) (whole : List β) (r : Reader σ) : Prop where
  pos_le : r.pos ≤ whole.length
  context : r.context = hasher.consume hasher.new (whole.take r.pos)

theorem length_piece : (r.piece whole n).length = min n (whole.length - r.pos) := by
  rw [piece, List.length_take, List.length_drop]

/-- The piece continues what lies before the place. -/
theorem take_append_piece :
    whole.take r.pos ++ r.piece whole n = whole.take (r.pos + (r.piece whole n).length) := by
  rw [List.take_add, length_piece]
  congr 1
  rw [piece, List.take_eq_take_iff, List.length_drop]
  omega

/-- An empty piece, although something was asked for, is the end. -/
theorem length_le_of_piece (hn : 0 < n) (h : r.piece whole n = []) : whole.length ≤ r.pos := by
  have hlen : (r.piece whole n).length = min n (whole.length - r.pos) := length_piece
  rw [h, List.length_nil] at hlen
  omega

theorem Upto.start : Upto hasher whole (start hasher) where
  pos_le := Nat.zero_le _
  context := by
    simp only [Reader.start, List.take_zero]
    exact (hasher.consume_nil hasher.new).symm

theorem Upto.read (h : Upto hasher whole r) (n : Nat) : Upto hasher whole (r.read hasher whole n) where
  pos_le := by
    have hlen : (r.piece whole n).length = min n (whole.length - r.pos) := length_piece
    have hpos := h.pos_le
    simp only [Reader.read]
    omega
  context := by
    simp only [Reader.read]
    rw [h.context, hasher.consume_append, take_append_piece]

/-- **At the end** the reader has the digest of the whole. -/
theorem Upto.digest (h : Upto hasher whole r) (hn : 0 < n) (hend : r.piece whole n = []) :
    hasher.compute r.context = hasher.digest whole := by
  have hall : whole.take r.pos = whole := List.take_of_length_le (length_le_of_piece hn hend)
  rw [Hasher.digest, h.context, hall]

/-- **Every other read** leaves less to be read. -/
theorem left_read (hn : 0 < n) (hmore : r.piece whole n ≠ []) :
    whole.length - (r.read hasher whole n).pos < whole.length - r.pos := by
  have hlen : (r.piece whole n).length = min n (whole.length - r.pos) := length_piece
  have hpos : 0 < (r.piece whole n).length := List.length_pos_iff.2 hmore
  simp only [read]
  omega

end Reader
