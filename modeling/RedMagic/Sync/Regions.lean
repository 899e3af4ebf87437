import RedMagic.Lib.Nesting
import RedMagic.Sync.Irq
import RedMagic.Sync.Spinlock

/-!
# Nested critical sections (src/spinlock.c:25-75, src/cpu.c:67-79, src/idt.c:191-208)

| here | there |
| --- | --- |
| `Region.preempt`   | `preempt_disable` … `preempt_enable` |
| `Region.spin l`    | `spin_lock(l)` … `spin_unlock(l)` |
| `Region.irqsave l` | `spin_lock_irqsave(l)` … `spin_unlock_irqrestore(l)` |
| `regionStep`       | the six calls, on one CPU that nothing interrupts |

`preempt_on` is one flag and `saved_flags` one slot, where nesting would need a counter and a stack. So the first inner
region that is closed lets preemption in while the outer one is still open (`nested_regions_compose`), and an inner
`spin_lock_irqsave` overwrites what the outer one has saved (`flag_restored_iff`).
-/

namespace RedMagic.Sync

open Lts Nesting

inductive Region (ℓ : Type) where
  | preempt
  | spin (l : ℓ)
  | irqsave (l : ℓ)
deriving DecidableEq, Repr

def Region.lock {ℓ : Type} : Region ℓ → Option ℓ
  | .preempt => none
  | .spin l | .irqsave l => some l

def Region.saves {ℓ : Type} : Region ℓ → Bool
  | .irqsave _ => true
  | _ => false

/-- The flags of the CPU, and the locks. -/
structure CpuSt (ℓ : Type) where
  flags : CpuFlags
  lock : ℓ → Spinlock

section
variable {ℓ : Type} [DecidableEq ℓ]

/-- `spin_acquire(l)`, `me` being what `get_processor()` returns. -/
def CpuSt.acquire (me : UInt32) (l : ℓ) (s : CpuSt ℓ) : Option (CpuSt ℓ) :=
  (spinAcquire me (s.lock l)).map fun x => { s with lock := Function.update s.lock l x }

def CpuSt.release (l : ℓ) (s : CpuSt ℓ) : CpuSt ℓ :=
  { s with lock := Function.update s.lock l (spinRelease (s.lock l)) }

def regionStep (me : UInt32) (s : CpuSt ℓ) : Bracket (Region ℓ) → Option (CpuSt ℓ)
  | .enter .preempt => some { s with flags := s.flags.preemptDisable }
  | .leave .preempt => some { s with flags := s.flags.preemptEnable }
  | .enter (.spin l) => { s with flags := s.flags.preemptDisable }.acquire me l
  | .leave (.spin l) => some { s.release l with flags := s.flags.preemptEnable }
  | .enter (.irqsave l) => { s with flags := s.flags.spinLockIrqsave }.acquire me l
  | .leave (.irqsave l) => some { s.release l with flags := s.flags.spinUnlockIrqrestore }

/-! ## What the regions are for -/

/-- The lock of a region to be opened inside `st`: it is free at the start, and no region of `st` has taken it. -/
def FreeLock (s₀ : CpuSt ℓ) (st : List (Region ℓ)) (k : Region ℓ) : Prop :=
  ∀ l, k.lock = some l → s₀.lock l = spinLockInit ∧ l ∉ st.filterMap Region.lock

/-- At some point of the calls `bs` the regions `st` are open and the CPU is in state `s`. -/
def Visits (me : UInt32) (s₀ : CpuSt ℓ) (bs : List (Bracket (Region ℓ))) (st : List (Region ℓ)) (s : CpuSt ℓ) : Prop :=
  ∃ p q, bs = p ++ q ∧ track [] p = some st ∧ exec (regionStep me) s₀ p = some s

/-- Each outermost region, around `body`, leaves the interrupt flag as it was before. -/
def Restores (me : UInt32) (s₀ : CpuSt ℓ) (bs : List (Bracket (Region ℓ))) : Prop :=
  ∀ p k body q s s', bs = p ++ .enter k :: (body ++ .leave k :: q) → track [] p = some [] → Nested body →
    exec (regionStep me) s₀ p = some s → exec (regionStep me) s (.enter k :: (body ++ [.leave k])) = some s' →
    s'.flags.ifOn = s.flags.ifOn

structure Compose (me : UInt32) (s₀ : CpuSt ℓ) (bs : List (Bracket (Region ℓ))) : Prop where
  preempt : ∀ st s, Visits me s₀ bs st s → st ≠ [] → s.flags.preemptOn = false
  irq : ∀ st s, Visits me s₀ bs st s → (∃ k ∈ st, k.saves) → s.flags.ifOn = false
  restored : Restores me s₀ bs

/-- No region is opened inside another. -/
def Flat (bs : List (Bracket (Region ℓ))) : Prop := Allowed (fun st _ => st = []) [] bs

/-! ## The calls return -/

section
variable {me : UInt32} {s₀ s s' : CpuSt ℓ} {st : List (Region ℓ)} {k : Region ℓ} {bs : List (Bracket (Region ℓ))}

/-- What the six calls do to the flags. -/
def regionFlags (c : CpuFlags) : Bracket (Region ℓ) → CpuFlags
  | .enter .preempt | .enter (.spin _) => c.preemptDisable
  | .enter (.irqsave _) => c.spinLockIrqsave
  | .leave .preempt | .leave (.spin _) => c.preemptEnable
  | .leave (.irqsave _) => c.spinUnlockIrqrestore

/-- The locks of the open regions are those that are taken. -/
structure LockInv (s₀ : CpuSt ℓ) (st : List (Region ℓ)) (s : CpuSt ℓ) : Prop where
  other : ∀ l, l ∉ st.filterMap Region.lock → s.lock l = s₀.lock l
  free : ∀ l ∈ st.filterMap Region.lock, s₀.lock l = spinLockInit

theorem LockInv.acquire (me : UInt32) (h : LockInv s₀ st s) (hk : FreeLock s₀ st k) {l : ℓ} (hl : k.lock = some l) (c : CpuFlags) :
    ∃ u, ({ s with flags := c } : CpuSt ℓ).acquire me l = some u ∧ LockInv s₀ (k :: st) u ∧ u.flags = c := by
  obtain ⟨hfree, hnot⟩ := hk l hl
  have hmem : (k :: st).filterMap Region.lock = l :: st.filterMap Region.lock := List.filterMap_cons_some hl
  have hlock : spinAcquire me (s.lock l) = some ⟨1, me⟩ := by
    rw [h.other l hnot, hfree]
    rfl
  refine ⟨⟨c, Function.update s.lock l ⟨1, me⟩⟩, ?_, ⟨fun l' hl' => ?_, fun l' hl' => ?_⟩, rfl⟩
  · simp only [CpuSt.acquire, hlock, Option.map_some]
  · rw [hmem, List.mem_cons, not_or] at hl'
    simp only [Function.update_of_ne hl'.1]
    exact h.other l' hl'.2
  · rw [hmem] at hl'
    rcases List.mem_cons.1 hl' with rfl | hl'
    · exact hfree
    · exact h.free l' hl'

theorem LockInv.release (h : LockInv s₀ (k :: st) s) {l : ℓ} (hl : k.lock = some l) (c : CpuFlags) :
    LockInv s₀ st { s.release l with flags := c } := by
  have hmem : (k :: st).filterMap Region.lock = l :: st.filterMap Region.lock := List.filterMap_cons_some hl
  refine ⟨fun l' hl' => ?_, fun l' hl' => h.free l' (by rw [hmem]; exact List.mem_cons_of_mem _ hl')⟩
  by_cases hll : l' = l
  · subst hll
    rw [h.free l' (by rw [hmem]; exact List.mem_cons_self)]
    simp [CpuSt.release, spinRelease, Spinlock.xchg, spinLockInit]
  · simp only [CpuSt.release, Function.update_of_ne hll]
    exact h.other l' (by rw [hmem, List.mem_cons, not_or]; exact ⟨hll, hl'⟩)

theorem LockInv.enter (me : UInt32) (h : LockInv s₀ st s) (hk : FreeLock s₀ st k) :
    ∃ u, regionStep me s (.enter k) = some u ∧ LockInv s₀ (k :: st) u ∧ u.flags = regionFlags s.flags (.enter k) := by
  cases k with
  | preempt => exact ⟨_, rfl, ⟨h.other, h.free⟩, rfl⟩
  | spin l => exact h.acquire me hk rfl _
  | irqsave l => exact h.acquire me hk rfl _

theorem LockInv.leave (me : UInt32) (h : LockInv s₀ (k :: st) s) :
    ∃ u, regionStep me s (.leave k) = some u ∧ LockInv s₀ st u ∧ u.flags = regionFlags s.flags (.leave k) := by
  cases k with
  | preempt => exact ⟨_, rfl, ⟨h.other, h.free⟩, rfl⟩
  | spin l => exact ⟨_, rfl, h.release rfl _, rfl⟩
  | irqsave l => exact ⟨_, rfl, h.release rfl _, rfl⟩

omit [DecidableEq ℓ] in
theorem lockInv_start (s₀ : CpuSt ℓ) : LockInv s₀ [] s₀ := ⟨fun _ _ => rfl, nofun⟩

/-- **The rule for the flags.** A relation of the open regions and the flags that every call keeps holds at every point of
calls that keep to free locks; and the calls return. -/
theorem flags_follow (me : UInt32) {R : List (Region ℓ) → CpuFlags → Prop} {P : List (Region ℓ) → Region ℓ → Prop}
    (henter : ∀ st c k, R st c → P st k → R (k :: st) (regionFlags c (.enter k)))
    (hleave : ∀ st c k, R (k :: st) c → R st (regionFlags c (.leave k)))
    {st' : List (Region ℓ)} (hlocks : LockInv s₀ st s) (htrack : track st bs = some st') (hfree : Allowed (FreeLock s₀) st bs)
    (hok : Allowed P st bs) (h : R st s.flags) :
    ∃ u, exec (regionStep me) s bs = some u ∧ LockInv s₀ st' u ∧ R st' u.flags := by
  refine follows (R := fun st u => LockInv s₀ st u ∧ R st u.flags) (P := fun st k => FreeLock s₀ st k ∧ P st k) ?_ ?_ htrack
    (fun p k q hp st hst => ⟨hfree p k q hp st hst, hok p k q hp st hst⟩) ⟨hlocks, h⟩
  · rintro st u k ⟨hl, hu⟩ ⟨hk, hk'⟩
    obtain ⟨v, hv, hlv, hflags⟩ := hl.enter me hk
    exact ⟨v, hv, hlv, hflags ▸ henter st u.flags k hu hk'⟩
  · rintro st u k ⟨hl, hu⟩
    obtain ⟨v, hv, hlv, hflags⟩ := hl.leave me
    exact ⟨v, hv, hlv, hflags ▸ hleave st u.flags k hu⟩

/-- The rule at a point of the calls. -/
theorem Visits.rel {R : List (Region ℓ) → CpuFlags → Prop} {P : List (Region ℓ) → Region ℓ → Prop} (hv : Visits me s₀ bs st s)
    (henter : ∀ st c k, R st c → P st k → R (k :: st) (regionFlags c (.enter k)))
    (hleave : ∀ st c k, R (k :: st) c → R st (regionFlags c (.leave k))) (hfree : Allowed (FreeLock s₀) [] bs)
    (hok : Allowed P [] bs) (h : R [] s₀.flags) : R st s.flags := by
  obtain ⟨p, q, rfl, htrack, hs⟩ := hv
  obtain ⟨u, hu, -, hR⟩ := flags_follow me henter hleave (lockInv_start s₀) htrack hfree.of_append hok.of_append h
  rw [hs] at hu
  cases hu
  exact hR

/-- Every point of the calls is reached. -/
theorem exists_visits (me : UInt32) {p q : List (Bracket (Region ℓ))} (hfree : Allowed (FreeLock s₀) [] (p ++ q)) (htrack : track [] p = some st) :
    ∃ s, exec (regionStep me) s₀ p = some s ∧ LockInv s₀ st s := by
  obtain ⟨u, hu, hl, -⟩ := flags_follow me (R := fun _ _ => True) (P := fun _ _ => True) (fun _ _ _ _ _ => trivial)
    (fun _ _ _ _ => trivial) (lockInv_start s₀) htrack hfree.of_append (fun _ _ _ _ _ _ => trivial) trivial
  exact ⟨u, hu, hl⟩

/-- The point behind an outermost region. -/
theorem visits_outermost {p body q : List (Bracket (Region ℓ))} (hbs : bs = p ++ .enter k :: (body ++ .leave k :: q))
    (hp : track [] p = some []) (hbody : Nested body) (hs : exec (regionStep me) s₀ p = some s)
    (hs' : exec (regionStep me) s (.enter k :: (body ++ [.leave k])) = some s') : Visits me s₀ bs [] s' := by
  refine ⟨p ++ .enter k :: (body ++ [.leave k]), q, by simp [hbs], ?_, ?_⟩
  · have hregion : Nested (.enter k :: (body ++ [.leave k])) := .region k hbody .nil
    rw [track_append, hp]
    exact hregion.track []
  · rw [exec_append, hs]
    exact hs'

/-! ## Regions that are not nested -/

/-- The flags while at most one region is open, `f` being the interrupt flag outside. -/
def Single (f : Bool) : List (Region ℓ) → CpuFlags → Prop
  | [], c => c.ifOn = f
  | [k], c => c.preemptOn = false ∧ if k.saves then c.ifOn = false ∧ c.savedFlags = f else c.ifOn = f
  | _ :: _ :: _, _ => False

omit [DecidableEq ℓ] in
theorem Single.enter {f : Bool} (c : CpuFlags) (h : Single f st c) (hst : st = []) : Single f (k :: st) (regionFlags c (.enter k)) := by
  subst hst
  cases k with
  | preempt => exact ⟨rfl, h⟩
  | spin l => exact ⟨rfl, h⟩
  | irqsave l => exact ⟨rfl, rfl, h⟩

omit [DecidableEq ℓ] in
theorem Single.leave {f : Bool} (c : CpuFlags) (h : Single f (k :: st) c) : Single f st (regionFlags c (.leave k)) := by
  cases st with
  | nil =>
    cases k with
    | preempt => exact h.2
    | spin l => exact h.2
    | irqsave l => exact h.2.2
  | cons k' st => exact h.elim

theorem Flat.single (h : Flat bs) (hfree : Allowed (FreeLock s₀) [] bs) (hv : Visits me s₀ bs st s) :
    Single s₀.flags.ifOn st s.flags :=
  hv.rel (R := Single s₀.flags.ifOn) (fun _ c _ hc hst => hc.enter c hst) (fun _ c _ hc => hc.leave c) hfree h rfl

theorem Flat.compose (h : Flat bs) (hfree : Allowed (FreeLock s₀) [] bs) : Compose me s₀ bs := by
  refine ⟨fun st s hv hne => ?_, fun st s hv hirq => ?_, ?_⟩
  · have hs := h.single hfree hv
    match st, hs, hne with
    | [k], hs, _ => exact hs.1
  · have hs := h.single hfree hv
    obtain ⟨k, hk, hsaves⟩ := hirq
    match st, hs, hk with
    | [k'], hs, hk =>
      obtain rfl := List.mem_singleton.1 hk
      have hoff := hs.2
      rw [if_pos hsaves] at hoff
      exact hoff.1
  · intro p k body q s s' hbs hp hbody hs hs'
    have hbefore := h.single hfree (show Visits me s₀ bs [] s from ⟨p, _, hbs, hp, hs⟩)
    have hafter := h.single hfree (visits_outermost hbs hp hbody hs hs')
    exact Eq.trans hafter hbefore.symm

/-! ## Regions that are -/

/-- Behind an inner region preemption is on. -/
theorem Compose.flat (h : Compose me s₀ bs) (hn : Nested bs) (hfree : Allowed (FreeLock s₀) [] bs) : Flat bs := by
  rintro p k q rfl st hst
  by_contra hne
  obtain ⟨st', hst', hq⟩ := hn.split
  rw [hst] at hst'
  cases hst'
  have hlen : 2 ≤ (k :: st).length := by
    have := List.length_pos_of_ne_nil hne
    rw [List.length_cons]
    omega
  obtain ⟨q₁, k₁, st₁, q₂, rfl, htrack, hne₁⟩ := exists_leave_inner (show track (k :: st) q = some [] from hq) hlen
  have htrack₁ : track [] (p ++ .enter k :: q₁) = some (k₁ :: st₁) := by
    rw [track_append, hst]
    exact htrack
  have hsplit : p ++ .enter k :: (q₁ ++ .leave k₁ :: q₂) = (p ++ .enter k :: q₁) ++ .leave k₁ :: q₂ := by simp
  obtain ⟨s, hs, hl⟩ := exists_visits me (hsplit ▸ hfree) htrack₁
  obtain ⟨u, hu, -, hflags⟩ := hl.leave me
  have hoff := h.preempt st₁ u ⟨p ++ .enter k :: q₁ ++ [.leave k₁], q₂, by simp, ?_, ?_⟩ hne₁
  · rw [hflags] at hoff
    cases k₁ <;> cases hoff
  · rw [track_append, htrack₁]
    simp [track]
  · rw [exec_append, hs]
    simp [exec, hu]

/-- **Nested critical sections compose only if none is nested.** For every properly nested sequence of regions on free locks,
to any depth: the calls return, and they do what the regions are for if and only if no region is opened inside another. -/
theorem nested_regions_compose (me : UInt32) (s₀ : CpuSt ℓ) (bs : List (Bracket (Region ℓ))) (hn : Nested bs)
    (hfree : Allowed (FreeLock s₀) [] bs) :
    (∃ s, exec (regionStep me) s₀ bs = some s) ∧ (Compose me s₀ bs ↔ Flat bs) := by
  refine ⟨?_, fun h => h.flat hn hfree, fun h => h.compose hfree⟩
  obtain ⟨s, hs, -⟩ := exists_visits me (p := bs) (q := []) (by rwa [List.append_nil]) (hn.track [])
  exact ⟨s, hs⟩

/-! ## The interrupt flag -/

/-- The open regions that have saved the flags. -/
def saving (st : List (Region ℓ)) : Nat := st.countP Region.saves

omit [DecidableEq ℓ] in
theorem saving_irqsave (l : ℓ) (st : List (Region ℓ)) : saving (.irqsave l :: st) = saving st + 1 := List.countP_cons_of_pos rfl

/-- Inside an irqsave region the flag is off, and behind a second one so is what is saved. -/
structure IrqOff (st : List (Region ℓ)) (c : CpuFlags) : Prop where
  off : 1 ≤ saving st → c.ifOn = false
  saved : 2 ≤ saving st → c.savedFlags = false

omit [DecidableEq ℓ] in
theorem IrqOff.enter (c : CpuFlags) (h : IrqOff st c) : IrqOff (k :: st) (regionFlags c (.enter k)) := by
  cases k with
  | preempt => exact ⟨h.off, h.saved⟩
  | spin l => exact ⟨h.off, h.saved⟩
  | irqsave l =>
    refine ⟨fun _ => rfl, fun htwo => h.off ?_⟩
    rw [saving_irqsave] at htwo
    omega

omit [DecidableEq ℓ] in
theorem IrqOff.leave (c : CpuFlags) (h : IrqOff (k :: st) c) : IrqOff st (regionFlags c (.leave k)) := by
  cases k with
  | preempt => exact ⟨h.off, h.saved⟩
  | spin l => exact ⟨h.off, h.saved⟩
  | irqsave l =>
    have htwo : 1 ≤ saving st → c.savedFlags = false := by
      intro hone
      refine h.saved ?_
      rw [saving_irqsave]
      omega
    exact ⟨htwo, fun h2 => htwo (by omega)⟩

theorem Visits.irqOff (hv : Visits me s₀ bs st s) (hfree : Allowed (FreeLock s₀) [] bs) : IrqOff st s.flags :=
  hv.rel (R := IrqOff) (P := fun _ _ => True) (fun _ c _ h _ => h.enter c) (fun _ c _ h => h.leave c) hfree
    (fun _ _ _ _ _ _ => trivial) ⟨fun h => absurd h (by simp [saving]), fun h => absurd h (by simp [saving])⟩

/-- Interrupts are off at every point inside an irqsave region, however the regions are nested. -/
theorem irq_off_inside (hfree : Allowed (FreeLock s₀) [] bs) (hv : Visits me s₀ bs st s) (hirq : ∃ k ∈ st, k.saves) :
    s.flags.ifOn = false :=
  (hv.irqOff hfree).off (List.countP_pos_iff.2 hirq)

/-- The flags while the outermost irqsave region has kept what it saved, `f` being the interrupt flag outside. -/
structure Kept (f : Bool) (st : List (Region ℓ)) (c : CpuFlags) : Prop where
  outside : saving st = 0 → c.ifOn = f
  inside : 1 ≤ saving st → c.ifOn = false ∧ c.savedFlags = f
  twice : 2 ≤ saving st → f = false

omit [DecidableEq ℓ] in
theorem Kept.enter {f : Bool} (c : CpuFlags) (h : Kept f st c) (hk : f = false ∨ saving (k :: st) ≤ 1) :
    Kept f (k :: st) (regionFlags c (.enter k)) := by
  cases k with
  | preempt => exact ⟨h.outside, h.inside, h.twice⟩
  | spin l => exact ⟨h.outside, h.inside, h.twice⟩
  | irqsave l =>
    have hflag : c.ifOn = f := by
      by_cases hzero : saving st = 0
      · exact h.outside hzero
      · have hf : f = false := by
          refine hk.resolve_right fun hle => ?_
          rw [saving_irqsave] at hle
          omega
        rw [hf]
        exact (h.inside (by omega)).1
    refine ⟨fun hzero => ?_, fun _ => ⟨rfl, hflag⟩, fun htwo => hk.resolve_right (by omega)⟩
    rw [saving_irqsave] at hzero
    cases hzero

omit [DecidableEq ℓ] in
theorem Kept.leave {f : Bool} (c : CpuFlags) (h : Kept f (k :: st) c) : Kept f st (regionFlags c (.leave k)) := by
  cases k with
  | preempt => exact ⟨h.outside, h.inside, h.twice⟩
  | spin l => exact ⟨h.outside, h.inside, h.twice⟩
  | irqsave l =>
    have hsaved : c.savedFlags = f := (h.inside (by rw [saving_irqsave]; omega)).2
    have htwice : 1 ≤ saving st → f = false := fun hone => h.twice (by rw [saving_irqsave]; omega)
    exact ⟨fun _ => hsaved, fun hone => ⟨hsaved.trans (htwice hone), hsaved⟩, fun htwo => htwice (by omega)⟩

/-- The flag is off for good: what is saved from now on is that it is off. -/
structure Lost (st : List (Region ℓ)) (c : CpuFlags) : Prop where
  off : c.ifOn = false
  saved : 1 ≤ saving st → c.savedFlags = false

omit [DecidableEq ℓ] in
theorem Lost.enter (c : CpuFlags) (h : Lost st c) : Lost (k :: st) (regionFlags c (.enter k)) := by
  cases k with
  | preempt => exact ⟨h.off, h.saved⟩
  | spin l => exact ⟨h.off, h.saved⟩
  | irqsave l => exact ⟨rfl, fun _ => h.off⟩

omit [DecidableEq ℓ] in
theorem Lost.leave (c : CpuFlags) (h : Lost (k :: st) c) : Lost st (regionFlags c (.leave k)) := by
  cases k with
  | preempt => exact ⟨h.off, h.saved⟩
  | spin l => exact ⟨h.off, h.saved⟩
  | irqsave l =>
    have hsaved : c.savedFlags = false := h.saved (by rw [saving_irqsave]; omega)
    exact ⟨hsaved, fun _ => hsaved⟩

/-- From the start of an outermost region to the end of the calls. -/
theorem Restores.last (h : Restores me s₀ bs) {p rest : List (Bracket (Region ℓ))} (hrest : Nested rest) (hbs : bs = p ++ rest)
    (hp : track [] p = some []) (hs : exec (regionStep me) s₀ p = some s) (hs' : exec (regionStep me) s rest = some s') :
    s'.flags.ifOn = s.flags.ifOn := by
  induction hrest generalizing p s with
  | nil =>
    cases hs'
    rfl
  | @region k body rest hbody hrest _ ih =>
    have hregion : Nested (.enter k :: (body ++ [.leave k])) := .region k hbody .nil
    have hsplit : Bracket.enter k :: (body ++ .leave k :: rest) = (.enter k :: (body ++ [.leave k])) ++ rest := by simp
    rw [hsplit, exec_append] at hs'
    obtain ⟨u, hu, hs'⟩ := Option.bind_eq_some_iff.1 hs'
    have hback := h p k body rest s u hbs hp hbody hs hu
    rw [← hback]
    refine ih (p := p ++ .enter k :: (body ++ [.leave k])) (by simp [hbs]) ?_ ?_ hs'
    · rw [track_append, hp]
      exact hregion.track []
    · rw [exec_append, hs]
      exact hu

/-- **When the interrupt flag comes back**: it was off from the start, or no irqsave region is opened inside another. -/
theorem flag_restored_iff (me : UInt32) (s₀ : CpuSt ℓ) (bs : List (Bracket (Region ℓ))) (hn : Nested bs)
    (hfree : Allowed (FreeLock s₀) [] bs) :
    Restores me s₀ bs ↔ s₀.flags.ifOn = false ∨ Allowed (fun st k => saving (k :: st) ≤ 1) [] bs := by
  constructor
  · intro h
    by_cases hf : s₀.flags.ifOn = false
    · exact .inl hf
    refine .inr ?_
    rintro p k q rfl st hst
    by_contra htwo
    -- behind the second irqsave the flag is off for good
    obtain ⟨st', hst', hq⟩ := hn.split
    rw [hst] at hst'
    cases hst'
    have htrack : track [] (p ++ [.enter k]) = some (k :: st) := by
      rw [track_append, hst]
      rfl
    have hsplit : p ++ .enter k :: q = (p ++ [.enter k]) ++ q := by simp
    rw [hsplit] at h hn hfree
    obtain ⟨s, hs, hl⟩ := exists_visits me hfree htrack
    have hoff : IrqOff (k :: st) s.flags := Visits.irqOff ⟨_, q, rfl, htrack, hs⟩ hfree
    have hlost : Lost (k :: st) s.flags := ⟨hoff.off (by omega), fun _ => hoff.saved (by omega)⟩
    have hallowed : Allowed (FreeLock s₀) (k :: st) q := by
      rintro p' k' q' rfl st' hst'
      refine hfree (p ++ [.enter k] ++ p') k' q' (by simp) st' ?_
      rw [track_append, htrack]
      exact hst'
    obtain ⟨u, hu, -, hend⟩ := flags_follow me (R := Lost) (P := fun _ _ => True) (fun _ c _ h _ => h.enter c)
      (fun _ c _ h => h.leave c) hl (show track (k :: st) q = some [] from hq) hallowed (fun _ _ _ _ _ _ => trivial) hlost
    have hrun : exec (regionStep me) s₀ (p ++ [.enter k] ++ q) = some u := by
      rw [exec_append, hs]
      exact hu
    have hback := h.last (p := []) hn rfl rfl rfl hrun
    rw [hend.off] at hback
    exact hf hback.symm
  · intro h p k body q s s' hbs hp hbody hs hs'
    have hok : Allowed (fun st k => s₀.flags.ifOn = false ∨ saving (k :: st) ≤ 1) [] bs :=
      fun p k q hbs st hst => h.imp id fun hall => hall p k q hbs st hst
    have hkept : ∀ {u}, Visits me s₀ bs [] u → u.flags.ifOn = s₀.flags.ifOn := by
      intro u hu
      have hR := hu.rel (R := Kept s₀.flags.ifOn) (fun _ c _ h hk => h.enter c hk) (fun _ c _ h => h.leave c) hfree hok
        ⟨fun _ => rfl, fun h => absurd h (by simp [saving]), fun h => absurd h (by simp [saving])⟩
      exact hR.outside rfl
    rw [hkept (visits_outermost hbs hp hbody hs hs'), hkept ⟨p, _, hbs, hp, hs⟩]

end

end

/-- One region after the other. -/
theorem nested_regions_compose_in_turn : Compose 0x1000 ⟨⟨true, false, true⟩, fun _ : Unit => spinLockInit⟩
    [.enter (.irqsave ()), .leave (.irqsave ()), .enter .preempt, .leave .preempt] := by
  have hlock : FreeLock ⟨⟨true, false, true⟩, fun _ : Unit => spinLockInit⟩ [] (.irqsave ()) := fun _ _ => ⟨rfl, by simp⟩
  have hnone : FreeLock ⟨⟨true, false, true⟩, fun _ : Unit => spinLockInit⟩ [] .preempt := nofun
  refine (nested_regions_compose 0x1000 _ _ (.region _ .nil (.region _ .nil .nil)) ?_).2.2 ?_
  · exact allowed_enter.2 ⟨hlock, allowed_leave.2 (allowed_enter.2 ⟨hnone, allowed_leave.2 (allowed_nil _)⟩)⟩
  · exact allowed_enter.2 ⟨rfl, allowed_leave.2 (allowed_enter.2 ⟨rfl, allowed_leave.2 (allowed_nil _)⟩)⟩

/-- `wait_buffer` (`bbuf.c:259-262`): `mutex_unlock` between `preempt_disable` and `preempt_enable`. -/
def waitBufferCalls : List (Bracket (Region Unit)) :=
  [.enter .preempt, .enter (.irqsave ()), .leave (.irqsave ()), .leave .preempt]

/-- Behind the inner region preemption is on; and with one irqsave region in another interrupts stay off at the end. -/
theorem nested_regions_break :
    (Nested waitBufferCalls ∧ Allowed (FreeLock ⟨⟨true, false, true⟩, fun _ => spinLockInit⟩) [] waitBufferCalls ∧
      ¬ Compose 0x1000 ⟨⟨true, false, true⟩, fun _ => spinLockInit⟩ waitBufferCalls) ∧
    ¬ Restores 0x1000 ⟨⟨true, false, true⟩, fun _ : Bool => spinLockInit⟩
      [.enter (.irqsave false), .enter (.irqsave true), .leave (.irqsave true), .leave (.irqsave false)] := by
  refine ⟨⟨.region _ (.region _ .nil .nil) .nil, ?_, fun h => ?_⟩, fun h => ?_⟩
  · have hlock : FreeLock ⟨⟨true, false, true⟩, fun _ : Unit => spinLockInit⟩ [.preempt] (.irqsave ()) :=
      fun _ _ => ⟨rfl, by simp [Region.lock]⟩
    exact allowed_enter.2 ⟨nofun, allowed_enter.2 ⟨hlock, allowed_leave.2 (allowed_leave.2 (allowed_nil _))⟩⟩
  · have hoff := h.preempt [.preempt] _ ⟨[.enter .preempt, .enter (.irqsave ()), .leave (.irqsave ())], _, rfl, rfl, rfl⟩ (by simp)
    cases hoff
  · have hback := h [] (.irqsave false) [.enter (.irqsave true), .leave (.irqsave true)] [] _ _ rfl rfl (.region _ .nil .nil) rfl rfl
    cases hback

end RedMagic.Sync
