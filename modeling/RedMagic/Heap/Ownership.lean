import RedMagic.Heap.Calls

/-!
# Who owns which byte

Three allocators lie on top of each other: `MM_PAGE_TABLE` keeps the table of the frames in the first pages of the region,
`alloc_frames` hands out frames, to the heap among others, and `__kmalloc` hands out parts of the frames of the heap. `owned` are
the areas that somebody has at a time: the table, the blocks that `__kmalloc` has returned, the pages of the heap with its nodes,
and the frames of the other callers.
-/

namespace RedMagic.Heap

open Mm Blocks Lts

/-- The bytes of an allocation. -/
def bytesOf (a : Alloc) : Block := ⟨a.ptr, pageSize * a.npages⟩

/-- The pages with the nodes of the heap, and the frames of the other callers. -/
def Kst.framesHeld (st : Kst) : List Alloc := (st.heap.pages.map fun pg => ⟨pg, 1⟩) ++ st.others

def owned (m : Mmc) (st : Kst) : List Block :=
  ⟨m.metaBase, pageSize * m.mframes⟩ :: (resBlocks st.heap ++ st.framesHeld.map bytesOf)

/-! ## The region -/

section
variable {m : Mmc} {st : Kst}

end

/-! ## What is owned stays owned -/

/-- The call that ends the ownership of `b`: `__kfree` of its base, or `free_frames` of an address in it. -/
def Kop.Ends (st : Kst) (b : Block) : Kop → Prop
  | .kmalloc _ => False
  | .kfree p => b ∈ resBlocks st.heap ∧ b.start = p
  | .other (.alloc _) => False
  | .other (.free p) => ∃ a ∈ st.others, b = bytesOf a ∧ a.owns p

end RedMagic.Heap
