import Mathlib.Data.Multiset.AddSub
import Mathlib.Data.Nat.Find

/-!
# What an allocator has left

A best-fit allocator, as far as it decides which requests are served: the sizes of the free blocks, the nodes left to
describe blocks with, and the pages that more nodes can be taken from. A request for a block takes a smallest one that is
large enough. If that is larger it is cut, which takes a node, and a page of nodes first if there is none. A request for a
page takes a page. `Serves rs s`: the requests `rs` are served one after the other.
-/

namespace RedMagic.BestFit

structure Stock where
  blocks : Multiset Nat
  nodes : Nat
  pages : Nat

inductive Request where
  | block (size : Nat)
  | page

namespace Stock

/-- `b` is a smallest block of at least `size` bytes. -/
def Best (s : Stock) (size b : Nat) : Prop := b ∈ s.blocks ∧ size ≤ b ∧ ∀ b' ∈ s.blocks, size ≤ b' → b ≤ b'

/-- The block is used as it is, or there is a node for its rest. -/
def CanCut (s : Stock) (size b : Nat) : Prop := b = size ∨ 0 < s.nodes ∨ 0 < s.pages

/-- `size` bytes are taken out of the block `b`; a page has `perPage` nodes. -/
def take (perPage : Nat) (s : Stock) (size b : Nat) : Stock :=
  if b = size then { s with blocks := s.blocks.erase b }
  else if 0 < s.nodes then ⟨(b - size) ::ₘ s.blocks.erase b, s.nodes - 1, s.pages⟩
  else ⟨(b - size) ::ₘ s.blocks.erase b, perPage - 1, s.pages - 1⟩

instance (s : Stock) (size b : Nat) : Decidable (s.Best size b) := inferInstanceAs (Decidable (_ ∧ _ ∧ _))

instance (s : Stock) (size b : Nat) : Decidable (s.CanCut size b) := inferInstanceAs (Decidable (_ ∨ _ ∨ _))

end Stock

def Serves (perPage : Nat) : List Request → Stock → Prop
  | [], _ => True
  | .block size :: rs, s => ∃ b ∈ s.blocks, s.Best size b ∧ s.CanCut size b ∧ Serves perPage rs (s.take perPage size b)
  | .page :: rs, s => 0 < s.pages ∧ Serves perPage rs { s with pages := s.pages - 1 }

def Serves.decide (perPage : Nat) : ∀ (rs : List Request) (s : Stock), Decidable (Serves perPage rs s)
  | [], _ => inferInstanceAs (Decidable True)
  | .block size :: rs, s =>
    have : ∀ b, Decidable (Serves perPage rs (s.take perPage size b)) := fun b => Serves.decide perPage rs (s.take perPage size b)
    Multiset.decidableExistsMultiset
  | .page :: rs, s =>
    have : Decidable (Serves perPage rs { s with pages := s.pages - 1 }) := Serves.decide perPage rs _
    inferInstanceAs (Decidable (0 < s.pages ∧ Serves perPage rs { s with pages := s.pages - 1 }))

instance (perPage : Nat) (rs : List Request) (s : Stock) : Decidable (Serves perPage rs s) := Serves.decide perPage rs s

section
variable {perPage size b : Nat} {rs : List Request} {s : Stock}

theorem Stock.Best.unique {b' : Nat} (h : s.Best size b) (h' : s.Best size b') : b = b' :=
  Nat.le_antisymm (h.2.2 b' h'.1 h'.2.1) (h'.2.2 b h.1 h.2.1)

theorem Stock.exists_best (h : ∃ b ∈ s.blocks, size ≤ b) : ∃ b, s.Best size b := by
  classical
  exact ⟨Nat.find h, (Nat.find_spec h).1, (Nat.find_spec h).2, fun b' hb' hfit => Nat.find_min' h ⟨hb', hfit⟩⟩

theorem Stock.take_pages_le : (s.take perPage size b).pages ≤ s.pages := by
  unfold Stock.take
  split
  · exact Nat.le_refl _
  · split
    · exact Nat.le_refl _
    · exact Nat.sub_le _ _

/-- The first request decides, and leaves the others to what it leaves. -/
theorem serves_block (hb : s.Best size b) (hc : s.CanCut size b) :
    Serves perPage (.block size :: rs) s ↔ Serves perPage rs (s.take perPage size b) := by
  constructor
  · rintro ⟨b', -, hb', -, hrest⟩
    rwa [hb.unique hb']
  · exact fun hrest => ⟨b, hb.1, hb, hc, hrest⟩

/-- With a block that is large enough and a node to be had, a request is served. -/
theorem serves_of_room (h : ∃ b ∈ s.blocks, size ≤ b) (hnode : 0 < s.nodes ∨ 0 < s.pages) :
    Serves perPage [.block size] s := by
  obtain ⟨b, hb⟩ := Stock.exists_best h
  exact (serves_block hb (.inr hnode)).2 trivial

end

end RedMagic.BestFit
