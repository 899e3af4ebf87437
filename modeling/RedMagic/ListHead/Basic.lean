import RedMagic.Lib.Loop
import RedMagic.Lib.Rings
import RedMagic.Sched.Remove

/-!
# Doubly linked lists (include/list.h)

| here | there |
| --- | --- |
| `Links Nat` | the `next` and `prev` of the `list_head` at each address |
| `rawListAdd`, `rawListDel`, `rawListSplice`, `rawListCutPosition` | `__list_add`, `__list_del`, `__list_splice`, `__list_cut_position` |
| `listAdd`, `listMove`, … | `list_add`, `list_move`, … (`list.h:60-352`), store by store; `list_del` is `Sched.listDel` |
| `walk`, `listForEach`, `listForEachPrev` | the nodes that `list_for_each` and `list_for_each_prev` visit |
| `listForEachSafe` | `list_for_each_safe` with a body that may change the links |
| `listForEachEntry`, `listFirstEntryOrNull` | `list_for_each_entry`, `list_first_entry_or_null` |

`Op.Does L L' op` says what a call is for: `L` and `L'` are the lists before and after it, by their heads. `list_splice` leaves the
head of the list that it empties as it is, so this is no list until it is initialised again; `list_cut_position` on an empty list does
nothing, so the list that it is to make is not initialised then.
-/

namespace RedMagic.ListHead

open Loop Mm Ring Sched

section
variable (m : Links Nat)

def initListHead (list : Nat) : Links Nat := (m.setNext list list).setPrev list list

def rawListAdd (new prev next : Nat) : Links Nat :=
  (((m.setPrev next new).setNext new next).setPrev new prev).setNext prev new

def listAdd (new head : Nat) : Links Nat := rawListAdd m new head (m.next head)
def listAddTail (new head : Nat) : Links Nat := rawListAdd m new (m.prev head) head

def rawListDel (prev next : Nat) : Links Nat := (m.setPrev next prev).setNext prev next

def listDelEntry (entry : Nat) : Links Nat := rawListDel m (m.prev entry) (m.next entry)

def listReplace (old new : Nat) : Links Nat :=
  let m := m.setNext new (m.next old)
  let m := m.setPrev (m.next new) new
  let m := m.setPrev new (m.prev old)
  m.setNext (m.prev new) new

def listReplaceInit (old new : Nat) : Links Nat := initListHead (listReplace m old new) old

def listDelInit (entry : Nat) : Links Nat := initListHead (listDelEntry m entry) entry

def listMove (list head : Nat) : Links Nat := listAdd (listDelEntry m list) list head
def listMoveTail (list head : Nat) : Links Nat := listAddTail (listDelEntry m list) list head

def listIsLast (list head : Nat) : Bool := m.next list == head
def listEmpty (head : Nat) : Bool := m.next head == head
def listEmptyCareful (head : Nat) : Bool := m.next head == head && m.next head == m.prev head
def listIsSingular (head : Nat) : Bool := !listEmpty m head && m.next head == m.prev head

def listRotateLeft (head : Nat) : Links Nat :=
  if !listEmpty m head then listMoveTail m (m.next head) head else m

def rawListCutPosition (list head entry : Nat) : Links Nat :=
  let newFirst := m.next entry
  let m := m.setNext list (m.next head)
  let m := m.setPrev (m.next list) list
  let m := m.setPrev list entry
  let m := m.setNext entry list
  let m := m.setNext head newFirst
  m.setPrev newFirst head

def listCutPosition (list head entry : Nat) : Links Nat :=
  if listEmpty m head then m
  else if listIsSingular m head && (m.next head != entry && head != entry) then m
  else if entry = head then initListHead m list
  else rawListCutPosition m list head entry

def rawListSplice (list prev next : Nat) : Links Nat :=
  let first := m.next list
  let last := m.prev list
  (((m.setPrev first prev).setNext prev first).setNext last next).setPrev next last

def listSplice (list head : Nat) : Links Nat :=
  if !listEmpty m list then rawListSplice m list head (m.next head) else m

def listSpliceTail (list head : Nat) : Links Nat :=
  if !listEmpty m list then rawListSplice m list (m.prev head) head else m

def listSpliceInit (list head : Nat) : Links Nat :=
  if !listEmpty m list then initListHead (rawListSplice m list head (m.next head)) list else m

def listSpliceTailInit (list head : Nat) : Links Nat :=
  if !listEmpty m list then initListHead (rawListSplice m list (m.prev head) head) list else m

end

/-! ## Loops over a list -/

/-- The nodes that a loop from `head` along `step` visits, the last one first, and where it is. -/
def walkRound (step : Nat → Nat) (head : Nat) (s : Nat × List Nat) : (Nat × List Nat) ⊕ List Nat :=
  if s.1 = head then .inr s.2.reverse else .inl (step s.1, s.1 :: s.2)

def walk (step : Nat → Nat) (head n : Nat) : Option (List Nat) := loop (walkRound step head) n (step head, [])

def listForEach (m : Links Nat) (head n : Nat) : Option (List Nat) := walk m.next head n
def listForEachPrev (m : Links Nat) (head n : Nat) : Option (List Nat) := walk m.prev head n

/-- `&pos->member` and `list_entry(ptr, type, member)`, for a member that is `off` bytes into its structure. -/
def memberOf (off pos : Nat) : Nat := u32 (pos + off)
def entryAt (off ptr : Nat) : Nat := u32 (ptr + 2 ^ 32 - off)

def listFirstEntryOrNull (m : Links Nat) (off head : Nat) : Nat :=
  if !listEmpty m head then entryAt off (m.next head) else 0

section
variable {σ ρ : Type}

/-- One round of `list_for_each_entry` with a body that leaves the links alone; `.inr` is a `break` or a `return`. -/
def entryRound (m : Links Nat) (off head : Nat) (body : σ → Nat → σ ⊕ ρ) (s : Nat × σ) : (Nat × σ) ⊕ (σ ⊕ ρ) :=
  if memberOf off s.1 = head then .inr (.inl s.2)
  else
    match body s.2 s.1 with
    | .inl t => .inl (entryAt off (m.next (memberOf off s.1)), t)
    | .inr r => .inr (.inr r)

def listForEachEntry (m : Links Nat) (off head : Nat) (body : σ → Nat → σ ⊕ ρ) (s : σ) (n : Nat) : Option (σ ⊕ ρ) :=
  loop (entryRound m off head body) n (entryAt off (m.next head), s)

/-- The same loop over a list. -/
def visit (body : σ → Nat → σ ⊕ ρ) : List Nat → σ → σ ⊕ ρ
  | [], s => .inl s
  | x :: xs, s =>
    match body s x with
    | .inl t => visit body xs t
    | .inr r => .inr r

end

/-- The loop variables `pos` and `n` of `list_for_each_safe` beside the links. -/
structure SafeSt where
  links : Links Nat
  pos : Nat
  n : Nat

def safeRound (body : Links Nat → Nat → Links Nat) (head : Nat) (s : SafeSt) : SafeSt ⊕ Links Nat :=
  if s.pos = head then .inr s.links
  else
    let m := body s.links s.pos
    .inl ⟨m, s.n, m.next s.n⟩

def listForEachSafe (body : Links Nat → Nat → Links Nat) (m : Links Nat) (head n : Nat) : Option (Links Nat) :=
  loop (safeRound body head) n ⟨m, m.next head, m.next (m.next head)⟩

/-! ## Calls -/

inductive Op where
  | init (list : Nat)
  | add (new head : Nat)
  | addTail (new head : Nat)
  | del (entry : Nat)
  | delInit (entry : Nat)
  | replace (old new : Nat)
  | replaceInit (old new : Nat)
  | move (list head : Nat)
  | moveTail (list head : Nat)
  | rotateLeft (head : Nat)
  | cutPosition (list head entry : Nat)
  | splice (list head : Nat)
  | spliceTail (list head : Nat)
  | spliceInit (list head : Nat)
  | spliceTailInit (list head : Nat)

def Op.run (m : Links Nat) : Op → Links Nat
  | .init list => initListHead m list
  | .add new head => listAdd m new head
  | .addTail new head => listAddTail m new head
  | .del entry => listDel m entry
  | .delInit entry => listDelInit m entry
  | .replace old new => listReplace m old new
  | .replaceInit old new => listReplaceInit m old new
  | .move list head => listMove m list head
  | .moveTail list head => listMoveTail m list head
  | .rotateLeft head => listRotateLeft m head
  | .cutPosition list head entry => listCutPosition m list head entry
  | .splice list head => listSplice m list head
  | .spliceTail list head => listSpliceTail m list head
  | .spliceInit list head => listSpliceInit m list head
  | .spliceTailInit list head => listSpliceTailInit m list head

/-- The lists of a memory by their heads. -/
abbrev ByHead : Type := Nat → Option (List Nat)

/-- The node is an element of no list; it may be the head of one. -/
def NoEntry (L : ByHead) (e : Nat) : Prop := ∀ h ys, L h = some ys → e ∉ ys

open Function in
/-- `new` takes the place of `old`, which is an element of a list or the head of one. -/
def Replaces (L L' : ByHead) (old new : Nat) : Prop :=
  Free L new ∧ ((∃ h as bs, L h = some (as ++ old :: bs) ∧ L' = update L h (some (as ++ new :: bs))) ∨
    ∃ ys, L old = some ys ∧ L' = update (update L old none) new (some ys))

open Function in
/-- `list` leaves its list and goes to that of `head`, at the place that `put` says. -/
def Moves (put : List Nat → List Nat) (L L' : ByHead) (list head : Nat) : Prop :=
  ∃ h as bs ys, L h = some (as ++ list :: bs) ∧ update L h (some (as ++ bs)) head = some ys ∧
    L' = update (update L h (some (as ++ bs))) head (some (put ys))

open Function in
/-- The elements of `list` go to the list of `head`; `left` is what is at `list` then. -/
def Splices (join : List Nat → List Nat → List Nat) (left : Option (List Nat)) (L L' : ByHead) (list head : Nat) : Prop :=
  ∃ xs ys, L list = some xs ∧ L head = some ys ∧ list ≠ head ∧
    L' = if xs = [] then L else update (update (update L list none) head (some (join xs ys))) list left

open Function in
def Op.Does (L L' : ByHead) : Op → Prop
  | .init list => NoEntry L list ∧ L' = update L list (some [])
  | .add new head => ∃ ys, L head = some ys ∧ Free L new ∧ L' = update L head (some (new :: ys))
  | .addTail new head => ∃ ys, L head = some ys ∧ Free L new ∧ L' = update L head (some (ys ++ [new]))
  | .del entry => ∃ h as bs, L h = some (as ++ entry :: bs) ∧ L' = update L h (some (as ++ bs))
  | .delInit entry => ∃ h as bs, L h = some (as ++ entry :: bs) ∧
      L' = update (update L h (some (as ++ bs))) entry (some [])
  | .replace old new => Replaces L L' old new
  | .replaceInit old new => ∃ L₁, Replaces L L₁ old new ∧ L' = update L₁ old (some [])
  | .move list head => Moves (fun ys => list :: ys) L L' list head
  | .moveTail list head => Moves (fun ys => ys ++ [list]) L L' list head
  | .rotateLeft head => ∃ ys, L head = some ys ∧ L' = update L head (some (ys.drop 1 ++ ys.take 1))
  | .cutPosition list head entry => ∃ ys, L head = some ys ∧ NoEntry L list ∧
      ((ys = [] ∧ L' = L) ∨ (ys ≠ [] ∧ entry = head ∧ L' = update L list (some [])) ∨
        ∃ as bs, ys = as ++ entry :: bs ∧ list ≠ head ∧
          L' = update (update L list (some (as ++ [entry]))) head (some bs))
  | .splice list head => Splices (fun xs ys => xs ++ ys) none L L' list head
  | .spliceTail list head => Splices (fun xs ys => ys ++ xs) none L L' list head
  | .spliceInit list head => Splices (fun xs ys => xs ++ ys) (some []) L L' list head
  | .spliceTailInit list head => Splices (fun xs ys => ys ++ xs) (some []) L L' list head

end RedMagic.ListHead
