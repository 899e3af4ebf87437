import Mathlib.Data.Fintype.Basic
import RedMagic.Bbuf.Identity

/-!
# Threads asleep on a buffer

A thread asleep on `buf->wq` should always have somebody to wake it: the thread that has `buf`, the thread
that has released it and is about to run `notify_buffer`, or a thread woken from the same queue. At most one
buffer is looked after that way by a thread (`Pc.attends`). `get_buffer` breaks this twice. It drops the lock
before `wait_buffer` takes it to queue up, and by then the buffer may be released and notified; and a
woken thread looks for its block, not for its buffer, which may have another block by then.
-/

namespace RedMagic.Bbuf

open Lts

/-- The buffer on whose queue the thread is `T_BLOCKED`. -/
def Pc.asleepOn : Pc → Option Nat
  | .sleep _ _ b => some b
  | _ => none

/-- The buffer that the thread has released, and has yet to run `notify_buffer` on. -/
def Pc.notifying : Pc → Option Nat
  | .notify b _ => some b
  | _ => none

/-- The buffer from whose queue the thread was woken, while it has not repeated its lookup. -/
def Pc.wokenFrom : Pc → Option Nat
  | .get _ _ w => w
  | _ => none

section
variable {τ : Type}

/-- Thread `t`, asleep on `b`, will be woken: another thread has the busy buffer, or is about to notify it,
or was woken from its queue and has not yet looked again. -/
def Attended (s : CacheSt τ) (t : τ) (b : Nat) : Prop :=
  ((s.dev.buf b).flags.busy = true ∧ ∃ u, u ≠ t ∧ ∃ k, (s.pc u).holds = some (b, k)) ∨
    (∃ u, (s.pc u).notifying = some b) ∨ ∃ u, (s.pc u).wokenFrom = some b

/-- Somebody is left to wake the threads asleep on `b`, apart from `t`. -/
def LookedAfter (s : CacheSt τ) (t : τ) (b : Nat) : Prop :=
  (s.dev.buf b).flags.busy = true ∨ (∃ u, (s.pc u).notifying = some b) ∨ ∃ u, u ≠ t ∧ (s.pc u).wokenFrom = some b

/-- What a run has to keep to: a thread queues up on a buffer that somebody looks after, and a woken thread looks again
while the buffer has its block, nobody is queued on it or somebody else looks after it. -/
def NoLostWake (s : CacheSt τ) : CacheAct τ → Prop
  | .step t =>
    match s.pc t with
    | .enqueue _ _ b => LookedAfter s t b
    | .get c _ (some b) => (s.dev.buf b).blkno = c.blkno ∨ (s.dev.buf b).wq = [] ∨ LookedAfter s t b
    | _ => True
  | _ => True

/-- The buffer a thread looks after: it has it, is about to notify it, or was woken from it. -/
def Pc.attends (p : Pc) : Option Nat :=
  match p.holds with
  | some (b, _) => some b
  | none => p.notifying.or p.wokenFrom

/-- A buffer that the thread's program point names as one to wait for. -/
def Pc.waitsFor : Pc → Option Nat
  | .enqueue _ _ b | .sleep _ _ b => some b
  | p => p.notifying.or p.wokenFrom

structure WaitInv (s : CacheSt τ) : Prop where
  known : ∀ t b, (s.pc t).waitsFor = some b → b ∈ s.dev.list ∧ (s.dev.buf b).flags.unused = false
  wq : ∀ b ∈ s.dev.list, ∀ t, t ∈ (s.dev.buf b).wq ↔ (s.pc t).asleepOn = some b
  nodup : ∀ b ∈ s.dev.list, (s.dev.buf b).wq.Nodup
  attended : ∀ t b, (s.pc t).asleepOn = some b → ∃ u, (s.pc u).attends = some b

theorem Pc.attends_of_holds {p : Pc} {b k : Nat} (h : p.holds = some (b, k)) : p.attends = some b := by
  rw [Pc.attends, h]

theorem Pc.attends_of_notifying {p : Pc} {b : Nat} (h : p.notifying = some b) : p.attends = some b := by
  cases p with
  | notify b' r => exact h
  | _ => cases h

theorem Pc.attends_of_wokenFrom {p : Pc} {b : Nat} (h : p.wokenFrom = some b) : p.attends = some b := by
  cases p with
  | get c left w => exact h
  | _ => cases h

theorem Pc.attends_cases {p : Pc} {b : Nat} (h : p.attends = some b) :
    (∃ k, p.holds = some (b, k)) ∨ p.notifying = some b ∨ p.wokenFrom = some b := by
  unfold Pc.attends at h
  split at h
  · rename_i b' k hh
    cases h
    exact .inl ⟨k, hh⟩
  · rcases Option.or_eq_some_iff.1 h with h | ⟨-, h⟩
    · exact .inr (.inl h)
    · exact .inr (.inr h)

theorem Pc.asleepOn_eq {p : Pc} {b : Nat} (h : p.asleepOn = some b) : ∃ c left, p = .sleep c left b := by
  cases p with
  | sleep c left b' =>
    cases h
    exact ⟨c, left, rfl⟩
  | _ => cases h

theorem SyncBy.after_waits (who : SyncBy) (rv : Nat) : (who.after rv).asleepOn = none ∧
    (who.after rv).waitsFor = none ∧ ∀ todo, (who.after rv).attends = (Pc.syncTest who todo rv).attends := by
  cases who with
  | user => exact ⟨rfl, rfl, fun _ => rfl⟩
  | retry c left => exact ⟨rfl, rfl, fun _ => rfl⟩
  | reader k b =>
    simp only [SyncBy.after]
    split <;> exact ⟨rfl, rfl, fun _ => rfl⟩

theorem Pc.waits_of_free {p : Pc} (h : p.free = true) : p.asleepOn = none ∧ p.attends = none := by
  cases p <;> first | exact ⟨rfl, rfl⟩ | cases h

theorem WaitInv.start (d : BlkDev τ) (hwq : ∀ b ∈ d.list, (d.buf b).wq = []) : WaitInv (cacheStart d) := by
  refine ⟨fun u b h => ?_, fun b hb u => ?_, fun b hb => ?_, fun u b h => ?_⟩
  · cases h
  · show u ∈ (d.buf b).wq ↔ _
    rw [hwq b hb]
    exact ⟨nofun, nofun⟩
  · show (d.buf b).wq.Nodup
    rw [hwq b hb]
    exact .nil
  · cases h

/-- A step of `t` that leaves the queues alone: `t` was not asleep, and looks after the same buffer or
somebody else does. -/
theorem WaitInv.next {s s' : CacheSt τ} (hi : WaitInv s) {t : τ} (hpc : ∀ u, u ≠ t → s'.pc u = s.pc u)
    (hmem : ∀ b, b ∈ s'.dev.list ↔ b ∈ s.dev.list)
    (hused : ∀ b, (s.dev.buf b).flags.unused = false → (s'.dev.buf b).flags.unused = false)
    (hwq : ∀ b, (s'.dev.buf b).wq = (s.dev.buf b).wq) (hold : (s.pc t).asleepOn = none)
    (hnew : (s'.pc t).asleepOn = none)
    (hknown : ∀ b, (s'.pc t).waitsFor = some b → b ∈ s.dev.list ∧ (s.dev.buf b).flags.unused = false)
    (hatt : ∀ u b, (s.pc u).asleepOn = some b → (s.pc t).attends = some b → ∃ v, (s'.pc v).attends = some b) :
    WaitInv s' := by
  have hsleep : ∀ u, (s'.pc u).asleepOn = (s.pc u).asleepOn := by
    intro u
    by_cases hut : u = t
    · rw [hut, hnew, hold]
    · rw [hpc u hut]
  refine ⟨fun u b hb => ?_, fun b hb u => ?_, fun b hb => ?_, fun u b hb => ?_⟩
  · have hk : b ∈ s.dev.list ∧ (s.dev.buf b).flags.unused = false := by
      by_cases hut : u = t
      · exact hknown b (hut ▸ hb)
      · rw [hpc u hut] at hb
        exact hi.known u b hb
    exact ⟨(hmem b).2 hk.1, hused b hk.2⟩
  · rw [hwq, hsleep]
    exact hi.wq b ((hmem b).1 hb) u
  · rw [hwq]
    exact hi.nodup b ((hmem b).1 hb)
  · rw [hsleep] at hb
    obtain ⟨v, hv⟩ := hi.attended u b hb
    by_cases hvt : v = t
    · exact hatt u b hb (hvt ▸ hv)
    · exact ⟨v, by rw [hpc v hvt, hv]⟩

/-- A thread that neither has a buffer nor is about to notify one is not the one who looks after `b`. -/
theorem LookedAfter.attends {l : List Nat} {s : CacheSt τ} {t : τ} {b : Nat} (h : LookedAfter s t b) (hci : CacheInv l s)
    (hb : b ∈ s.dev.list) (hholds : (s.pc t).holds = none) (hnot : (s.pc t).notifying = none) :
    ∃ v, v ≠ t ∧ (s.pc v).attends = some b := by
  rcases h with hbusy | ⟨v, hv⟩ | ⟨v, hvt, hv⟩
  · obtain ⟨v, hv⟩ := Option.ne_none_iff_exists'.1 ((hci.ident.usr b hb).1 hbusy)
    obtain ⟨k, hk⟩ := hci.usrs b hb v hv
    refine ⟨v, ?_, Pc.attends_of_holds hk⟩
    rintro rfl
    rw [hholds] at hk
    cases hk
  · refine ⟨v, ?_, Pc.attends_of_notifying hv⟩
    rintro rfl
    rw [hnot] at hv
    cases hv
  · exact ⟨v, hvt, Pc.attends_of_wokenFrom hv⟩

/-- The woken thread of a run that keeps to `NoLostWake` finds its block in the buffer others sleep on, or somebody else
looks after that buffer. -/
theorem WaitInv.woken_cases {l : List Nat} {s : CacheSt τ} {t : τ} (hi : WaitInv s) (hci : CacheInv l s) {c : Call} {left : Nat}
    {w : Option Nat} (hok : NoLostWake s (.step t)) (hpc : s.pc t = .get c left w) {u : τ} {b : Nat}
    (hu : (s.pc u).asleepOn = some b) (ht : (s.pc t).attends = some b) :
    Caches s.dev b c.blkno ∨ ∃ v, v ≠ t ∧ (s.pc v).attends = some b := by
  have hw : w = some b := by
    rw [hpc] at ht
    simpa [Pc.attends, Pc.holds, Pc.notifying, Pc.wokenFrom] using ht
  subst hw
  obtain ⟨hb, hused⟩ := hi.known t b (by rw [hpc]; rfl)
  have hmem : u ∈ (s.dev.buf b).wq := (hi.wq b hb u).2 hu
  simp only [NoLostWake, hpc] at hok
  rcases hok with hk | hnil | hafter
  · exact .inl ⟨hb, hused, hk⟩
  · rw [hnil] at hmem
    cases hmem
  · exact .inr (hafter.attends hci hb (by rw [hpc]; rfl) (by rw [hpc]; rfl))

theorem Move.waits {d : BlkDev τ} {lock : Option τ} {t : τ} {p q : Pc} (h : Move d lock t p q)
    (hget : ∀ c left w, p ≠ .get c left w) :
    p.asleepOn = none ∧ q.asleepOn = none ∧ q.waitsFor = none ∧ q.attends = p.attends := by
  cases h with
  | wait | retry => exact absurd rfl (hget _ _ _)
  | dirty | skip | failed | valid | invalid | stale | clean | unread | copy | leave => exact ⟨rfl, rfl, rfl, rfl⟩

end

section
variable {τ : Type} [DecidableEq τ] {l : List Nat} {s : CacheSt τ} {t : τ}

/-- A step of `t` that looks after the same buffer as before. -/
theorem WaitInv.keeps (hi : WaitInv s) (lk : Option τ) {p : Pc} {d : BlkDev τ} (hmem : ∀ b, b ∈ d.list ↔ b ∈ s.dev.list)
    (hused : ∀ b, (s.dev.buf b).flags.unused = false → (d.buf b).flags.unused = false)
    (hwq : ∀ b, (d.buf b).wq = (s.dev.buf b).wq) (hold : (s.pc t).asleepOn = none) (hnew : p.asleepOn = none)
    (hknown : ∀ b, p.waitsFor = some b → b ∈ s.dev.list ∧ (s.dev.buf b).flags.unused = false)
    (hatt : ∀ b, (s.pc t).attends = some b → p.attends = some b) : WaitInv { s.to t p d with lock := lk } := by
  have hself : ({ s.to t p d with lock := lk } : CacheSt τ).pc t = p := CacheSt.to_pc_self p d
  refine hi.next (fun u hut => CacheSt.to_pc_ne hut p d) hmem hused hwq hold ?_ ?_ fun u b _ hb => ⟨t, ?_⟩
  · rw [hself, hnew]
  · rw [hself]
    exact hknown
  · rw [hself]
    exact hatt b hb

/-- A step of `t` from `p₀` to `p` that sets fields of one buffer other than its queue. -/
theorem WaitInv.updBuf (hi : WaitInv s) {f : BufCache τ → BufCache τ} {p₀ p : Pc} (b : Nat) (hf : KeepsBlock f)
    (hwq : ∀ x, (f x).wq = x.wq) (hpc : s.pc t = p₀) (hold : p₀.asleepOn = none) (hnew : p.asleepOn = none)
    (hknown : p.waitsFor = none) (hatt : p.attends = p₀.attends) : WaitInv (s.to t p (s.dev.upd b f)) := by
  refine hi.keeps s.lock (d := s.dev.upd b f) (fun _ => Iff.rfl) (fun x hx => ?_) (fun x => ?_) (hpc ▸ hold) hnew
    (fun x hx => ?_) fun x hx => ?_
  · by_cases hxb : x = b
    · rw [hxb, upd_buf_self, (hf _).2, ← hxb, hx]
    · rw [upd_buf_ne _ _ hxb, hx]
  · by_cases hxb : x = b
    · rw [hxb, upd_buf_self, hwq]
    · rw [upd_buf_ne _ _ hxb]
  · rw [hknown] at hx
    cases hx
  · rw [hatt, ← hpc, hx]

/-- A step of `t` from `p₀` to `p` that leaves the buffers alone. -/
theorem WaitInv.sameBufs (hi : WaitInv s) (lk : Option τ) {d : BlkDev τ} {p₀ p : Pc} (hlist : d.list = s.dev.list)
    (hbuf : d.buf = s.dev.buf) (hpc : s.pc t = p₀) (hold : p₀.asleepOn = none) (hnew : p.asleepOn = none)
    (hknown : p.waitsFor = none) (hatt : p.attends = p₀.attends) : WaitInv { s.to t p d with lock := lk } := by
  refine hi.keeps lk (fun x => by rw [hlist]) (fun x hx => by rw [hbuf, hx]) (fun x => by rw [hbuf]) (hpc ▸ hold)
    hnew (fun x hx => ?_) fun x hx => by rw [hatt, ← hpc, hx]
  rw [hknown] at hx
  cases hx

/-- The lookup of `get_buffer` finds the buffer in use: its user looks after it. -/
theorem WaitInv.wait (hi : WaitInv s) (hci : CacheInv l s) (hok : NoLostWake s (.step t)) {c : Call} {left b : Nat}
    {w : Option Nat} (hpc : s.pc t = .get c left w) (hc : Caches s.dev b c.blkno)
    (hb : (s.dev.buf b).flags.busy = true ∨ (s.dev.buf b).usr ≠ none) :
    WaitInv (s.to t (.enqueue c left b) s.dev) := by
  refine hi.next (fun u hut => CacheSt.to_pc_ne hut _ _) (fun _ => Iff.rfl) (fun _ => id) (fun _ => rfl)
    (by rw [hpc]; rfl) (by rw [CacheSt.to_pc_self]; rfl) (fun x hx => ?_) fun u x hu hx => ?_
  · rw [CacheSt.to_pc_self] at hx
    cases hx
    exact ⟨hc.mem, hc.used⟩
  · rcases hi.woken_cases hci hok hpc hu hx with hcx | ⟨v, hvt, hv⟩
    · obtain rfl := hci.ident.uniq x b c.blkno hcx hc
      have husr : (s.dev.buf x).usr ≠ none := hb.elim (hci.ident.usr x hc.mem).1 id
      obtain ⟨v, hv⟩ := Option.ne_none_iff_exists'.1 husr
      obtain ⟨k, hk⟩ := hci.usrs x hc.mem v hv
      have hvt : v ≠ t := by
        rintro rfl
        rw [hpc] at hk
        cases hk
      exact ⟨v, by rw [CacheSt.to_pc_ne hvt, Pc.attends_of_holds hk]⟩
    · exact ⟨v, by rw [CacheSt.to_pc_ne hvt, hv]⟩

/-- The lookup of `get_buffer` returns a buffer. -/
theorem WaitInv.grant (hi : WaitInv s) {c : Call} {left : Nat} {w : Option Nat} {b : Nat} {d : BlkDev τ}
    (hpc : s.pc t = .get c left w) (hlist : d.list = s.dev.list)
    (hused : ∀ x, (s.dev.buf x).flags.unused = false → (d.buf x).flags.unused = false)
    (hwq : ∀ x, (d.buf x).wq = (s.dev.buf x).wq)
    (hatt : ∀ u x, (s.pc u).asleepOn = some x → (s.pc t).attends = some x →
      x = b ∨ ∃ v, v ≠ t ∧ (s.pc v).attends = some x) :
    WaitInv (s.grant t c b d) := by
  have hself : (s.grant t c b d).pc t = c.after b := CacheSt.to_pc_self (c.after b) d
  have hafter : (c.after b).asleepOn = none ∧ (c.after b).waitsFor = none := by cases c <;> exact ⟨rfl, rfl⟩
  refine hi.next (fun u hut => CacheSt.to_pc_ne hut (c.after b) d) (fun x => ?_) hused hwq (by rw [hpc]; rfl) ?_ ?_
    fun u x hu hx => ?_
  · show x ∈ d.list ↔ _
    rw [hlist]
  · rw [hself, hafter.1]
  · rw [hself, hafter.2]
    intro x hx
    cases hx
  · rcases hatt u x hu hx with rfl | ⟨v, hvt, hv⟩
    · exact ⟨t, by rw [hself]; exact Pc.attends_of_holds (c.after_holds x)⟩
    · exact ⟨v, (congrArg Pc.attends (CacheSt.to_pc_ne hvt (c.after b) d)).trans hv⟩

/-- A thread queues up on a buffer that somebody looks after. -/
theorem WaitInv.enqueue (hi : WaitInv s) (hci : CacheInv l s) (hok : NoLostWake s (.step t)) {c : Call}
    {left b : Nat} (hpc : s.pc t = .enqueue c left b) :
    WaitInv (s.to t (.sleep c left b) (addWaiter b t s.dev)) := by
  obtain ⟨hb, hbu⟩ := hi.known t b (by rw [hpc]; rfl)
  have hnot : t ∉ (s.dev.buf b).wq := by
    rw [hi.wq b hb, hpc]
    simp [Pc.asleepOn]
  have hne : ∀ x, x ≠ b → (addWaiter b t s.dev).buf x = s.dev.buf x := fun x hx => upd_buf_ne _ _ hx
  have hself : ((addWaiter b t s.dev).buf b).wq = (s.dev.buf b).wq ++ [t] := by simp [addWaiter]
  have hun : ∀ x, ((addWaiter b t s.dev).buf x).flags = (s.dev.buf x).flags := by
    intro x
    by_cases hx : x = b
    · rw [hx]
      simp [addWaiter]
    · rw [hne x hx]
  refine ⟨fun u x hx => ?_, fun x hx u => ?_, fun x hx => ?_, fun u x hu => ?_⟩
  · have hk : x ∈ s.dev.list ∧ (s.dev.buf x).flags.unused = false := by
      by_cases hut : u = t
      · rw [hut, CacheSt.to_pc_self] at hx
        cases hx
        exact ⟨hb, hbu⟩
      · rw [CacheSt.to_pc_ne hut] at hx
        exact hi.known u x hx
    refine ⟨hk.1, ?_⟩
    show ((addWaiter b t s.dev).buf x).flags.unused = false
    rw [hun]
    exact hk.2
  · show u ∈ ((addWaiter b t s.dev).buf x).wq ↔ _
    by_cases hut : u = t
    · subst hut
      rw [CacheSt.to_pc_self]
      by_cases hxb : x = b
      · subst hxb
        simp [hself, Pc.asleepOn]
      · have : u ∉ (s.dev.buf x).wq := by
          rw [hi.wq x hx, hpc]
          simp [Pc.asleepOn]
        rw [hne x hxb]
        simp [Pc.asleepOn, this, Ne.symm hxb]
    · rw [CacheSt.to_pc_ne hut]
      by_cases hxb : x = b
      · rw [hxb, hself, List.mem_append, List.mem_singleton, or_iff_left hut]
        exact hi.wq b hb u
      · rw [hne x hxb]
        exact hi.wq x hx u
  · show ((addWaiter b t s.dev).buf x).wq.Nodup
    by_cases hxb : x = b
    · rw [hxb, hself, ← List.concat_eq_append]
      exact List.Nodup.concat hnot (hi.nodup b hb)
    · rw [hne x hxb]
      exact hi.nodup x hx
  · -- somebody attends to `x`, and it is not `t`, which attended to nothing
    have hold : ∃ v, (s.pc v).attends = some x := by
      by_cases hut : u = t
      · rw [hut, CacheSt.to_pc_self] at hu
        cases hu
        simp only [NoLostWake, hpc] at hok
        obtain ⟨v, -, hv⟩ := hok.attends hci hb (by rw [hpc]; rfl) (by rw [hpc]; rfl)
        exact ⟨v, hv⟩
      · rw [CacheSt.to_pc_ne hut] at hu
        exact hi.attended u x hu
    obtain ⟨v, hv⟩ := hold
    have hvt : v ≠ t := by
      rintro rfl
      rw [hpc] at hv
      cases hv
    exact ⟨v, by rw [CacheSt.to_pc_ne hvt, hv]⟩

/-- The first thread of the queue is woken, and looks after the buffer from now on. -/
theorem WaitInv.wakeFirst (hi : WaitInv s) {u : τ} {rest : List τ} {c : Call} {left b : Nat} (hb : b ∈ s.dev.list)
    (hwq : (s.dev.buf b).wq = u :: rest) (hpu : s.pc u = .sleep c left b) :
    WaitInv (s.to u (.get c left (some b)) (notifySection b s.dev).2) := by
  have hbu := (hi.known u b (by rw [hpu]; rfl)).2
  have hne : ∀ x, x ≠ b → (notifySection b s.dev).2.buf x = s.dev.buf x := fun x hx => by
    simp [notifySection, upd_buf_ne, hx]
  have hself : ((notifySection b s.dev).2.buf b).wq = rest := by simp [notifySection, hwq]
  have hsame := notifySection_sameData b s.dev
  obtain ⟨hur, hnd⟩ : u ∉ rest ∧ rest.Nodup := by
    have := hi.nodup b hb
    rw [hwq] at this
    exact List.nodup_cons.1 this
  refine ⟨fun v x hx => ?_, fun x hx v => ?_, fun x hx => ?_, fun v x hv => ?_⟩
  · have hk : x ∈ s.dev.list ∧ (s.dev.buf x).flags.unused = false := by
      by_cases hvu : v = u
      · rw [hvu, CacheSt.to_pc_self] at hx
        cases hx
        exact ⟨hb, hbu⟩
      · rw [CacheSt.to_pc_ne hvu] at hx
        exact hi.known v x hx
    exact ⟨(hsame.mem x).2 hk.1, (hsame.unused x).trans hk.2⟩
  · have hold := hi.wq x ((hsame.mem x).1 hx) v
    show v ∈ ((notifySection b s.dev).2.buf x).wq ↔ _
    by_cases hvu : v = u
    · subst hvu
      rw [CacheSt.to_pc_self]
      by_cases hxb : x = b
      · subst hxb
        simp [hself, Pc.asleepOn, hur]
      · rw [hne x hxb, hold, hpu]
        simp [Pc.asleepOn, Ne.symm hxb]
    · rw [CacheSt.to_pc_ne hvu, ← hold]
      by_cases hxb : x = b
      · rw [hxb, hself, hwq, List.mem_cons, or_iff_right hvu]
      · rw [hne x hxb]
  · show ((notifySection b s.dev).2.buf x).wq.Nodup
    by_cases hxb : x = b
    · rw [hxb, hself]
      exact hnd
    · rw [hne x hxb]
      exact hi.nodup x ((hsame.mem x).1 hx)
  · have hvu : v ≠ u := by
      rintro rfl
      rw [CacheSt.to_pc_self] at hv
      cases hv
    rw [CacheSt.to_pc_ne hvu] at hv
    obtain ⟨y, hy⟩ := hi.attended v x hv
    have hyu : y ≠ u := by
      rintro rfl
      rw [hpu] at hy
      cases hy
    exact ⟨y, by rw [CacheSt.to_pc_ne hyu, hy]⟩

/-- `notify_buffer` wakes the first thread of the queue, if there is one. -/
theorem WaitInv.notify (hi : WaitInv s) {b : Nat} {r : Ret} (hpc : s.pc t = .notify b r) :
    WaitInv (s.notified t b r) := by
  obtain ⟨hb, -⟩ := hi.known t b (by rw [hpc]; rfl)
  cases hwq : (s.dev.buf b).wq with
  | nil =>
    have heq : s.notified t b r = s.to t (.done r) (notifySection b s.dev).2 := by
      simp [CacheSt.notified, notifySection, hwq]
    have hsame := notifySection_sameData b s.dev
    rw [heq]
    refine hi.next (fun u hut => CacheSt.to_pc_ne hut _ _) hsame.mem (fun x hx => (hsame.unused x).trans hx)
      (fun x => ?_) (by rw [hpc]; rfl) (by rw [CacheSt.to_pc_self]; rfl) ?_ fun u x hu hx => ?_
    · show ((notifySection b s.dev).2.buf x).wq = _
      by_cases hxb : x = b
      · simp [hxb, notifySection, hwq]
      · simp [notifySection, upd_buf_ne, hxb]
    · rw [CacheSt.to_pc_self]
      intro x hx
      cases hx
    · rw [hpc] at hx
      cases hx
      have := (hi.wq b hb u).2 hu
      rw [hwq] at this
      cases this
  | cons u rest =>
    obtain ⟨c, left, hpu⟩ := Pc.asleepOn_eq ((hi.wq b hb u).1 (by simp [hwq]))
    have htu : t ≠ u := by
      rintro rfl
      rw [hpc] at hpu
      cases hpu
    have heq : s.notified t b r
        = (s.to u (.get c left (some b)) (notifySection b s.dev).2).to t (.done r) (notifySection b s.dev).2 := by
      simp [CacheSt.notified, notifySection, hwq, hpu, Pc.wake]
    have hpt : (s.to u (.get c left (some b)) (notifySection b s.dev).2).pc t = .notify b r := by
      rw [CacheSt.to_pc_ne htu, hpc]
    rw [heq]
    -- the woken thread takes over from the one that notifies
    refine (hi.wakeFirst hb hwq hpu).next (fun v hvt => CacheSt.to_pc_ne hvt _ _) (fun _ => Iff.rfl) (fun _ => id)
      (fun _ => rfl) (by rw [hpt]; rfl) (by rw [CacheSt.to_pc_self]; rfl) ?_ fun v x _ hx => ⟨u, ?_⟩
    · rw [CacheSt.to_pc_self]
      intro x hx
      cases hx
    · rw [hpt] at hx
      cases hx
      rw [CacheSt.to_pc_ne htu.symm, CacheSt.to_pc_self]
      rfl

theorem WaitInv.move (hi : WaitInv s) (hci : CacheInv l s) (hok : NoLostWake s (.step t)) {p : Pc}
    (hm : Move s.dev s.lock t (s.pc t) p) : WaitInv (s.to t p s.dev) := by
  by_cases hget : ∃ c left w, s.pc t = .get c left w
  · obtain ⟨c, left, w, hpc⟩ := hget
    rw [hpc] at hm
    cases hm with
    | wait hl hc hb => exact hi.wait hci hok hpc hc hb
    | retry hl hmiss =>
      refine hi.next (fun u hut => CacheSt.to_pc_ne hut _ _) (fun _ => Iff.rfl) (fun _ => id) (fun _ => rfl)
        (by rw [hpc]; rfl) (by rw [CacheSt.to_pc_self]; rfl) (fun x hx => ?_) fun u x hu hx => ?_
      · rw [CacheSt.to_pc_self] at hx
        cases hx
      · obtain ⟨v, hvt, hv⟩ := (hi.woken_cases hci hok hpc hu hx).resolve_left (hmiss x)
        exact ⟨v, by rw [CacheSt.to_pc_ne hvt, hv]⟩
  · obtain ⟨h1, h2, h3, h4⟩ := hm.waits fun c left w h => hget ⟨c, left, w, h⟩
    exact hi.sameBufs s.lock rfl rfl rfl h1 h2 h3 h4

/-- **One step keeps the waiters looked after**, if it is not one of the two that lose a wake-up. -/
theorem WaitInv.tstep (hi : WaitInv s) (hci : CacheInv l s) (hok : NoLostWake s (.step t)) {s' : CacheSt τ}
    (h : TStep s t s') : WaitInv s' := by
  cases h with
  | move hm => exact hi.move hci hok hm
  | @hit c left w b hpc hl hc hb hu =>
    refine hi.grant hpc rfl (fun x hx => ((takeBuf_sameData t b s.dev).unused x).trans hx) (fun x => ?_)
      fun u x hu hx => (hi.woken_cases hci hok hpc hu hx).imp_left fun hcx => hci.ident.uniq x b c.blkno hcx hc
    by_cases hxb : x = b
    · simp [hxb, takeBuf]
    · simp [takeBuf, upd_buf_ne, hxb]
  | @recycle c left w b hpc hl hm hf hmiss =>
    refine hi.grant hpc rfl (fun x hx => ?_) (fun x => ?_)
      fun u x hu hx => .inr ((hi.woken_cases hci hok hpc hu hx).resolve_left (hmiss x))
    · by_cases hxb : x = b
      · simp [hxb, recycleBuf, bBusy]
      · simp [recycleBuf, upd_buf_ne, hxb, hx]
    · by_cases hxb : x = b
      · simp [hxb, recycleBuf]
      · simp [recycleBuf, upd_buf_ne, hxb]
  | enqueue hpc hl => exact hi.enqueue hci hok hpc
  | syncLock hpc hl => exact hi.sameBufs (some t) rfl rfl hpc rfl rfl rfl rfl
  | @syncDone who rv hpc =>
    obtain ⟨h1, h2, h3⟩ := who.after_waits rv
    exact hi.sameBufs none rfl rfl hpc rfl h1 h2 (h3 [])
  | syncWrite hpc hd hr => exact hi.sameBufs s.lock rfl rfl hpc rfl rfl rfl rfl
  | syncDequeue hpc => exact hi.sameBufs s.lock rfl rfl hpc rfl rfl rfl rfl
  | syncClear hpc => exact hi.updBuf _ (fun _ => ⟨rfl, rfl⟩) (fun _ => rfl) hpc rfl rfl rfl rfl
  | readUpdate hpc hl hd hr => exact hi.updBuf _ (fun _ => ⟨rfl, rfl⟩) (fun _ => rfl) hpc rfl rfl rfl rfl
  | readSetValid hpc => exact hi.updBuf _ (fun _ => ⟨rfl, rfl⟩) (fun _ => rfl) hpc rfl rfl rfl rfl
  | writeCopy hpc => exact hi.updBuf _ (fun _ => ⟨rfl, rfl⟩) (fun _ => rfl) hpc rfl rfl rfl rfl
  | writeDirty hpc => exact hi.updBuf _ (fun _ => ⟨rfl, rfl⟩) (fun _ => rfl) hpc rfl rfl rfl rfl
  | @writeCache k v b hpc hl =>
    rw [queueBuffer_eq]
    exact hi.sameBufs s.lock rfl rfl hpc rfl rfl rfl rfl
  | @release k b r hpc hl =>
    have hh : Holds s.dev t b k := (hci.pcs t).holds b k (by rw [hpc]; rfl)
    have hsame := releaseSection_sameData hh.caches.mem
    refine hi.keeps s.lock (d := releaseSection b s.dev) hsame.mem (fun x hx => (hsame.unused x).trans hx) (fun x => ?_)
      (by rw [hpc]; rfl) rfl (fun x hx => ?_) fun x hx => ?_
    · by_cases hxb : x = b
      · simp [hxb, releaseSection]
      · simp [releaseSection, upd_buf_ne, hxb]
    · cases hx
      exact ⟨hh.caches.mem, hh.caches.used⟩
    · rw [hpc] at hx
      cases hx
      rfl
  | notify hpc hl => exact hi.notify hpc

theorem waitInv_cacheStep (hi : WaitInv s) (hci : CacheInv l s) {s' : CacheSt τ} {a : CacheAct τ}
    (hok : NoLostWake s a) (h : cacheStep s a = some s') : WaitInv s' := by
  cases a with
  | call t c =>
    simp only [cacheStep] at h
    split at h
    · rename_i hf
      cases h
      obtain ⟨h1, h2⟩ := Pc.waits_of_free hf
      have hi' : WaitInv (s.to t (.get c maxBgetRetry none) s.dev) :=
        hi.sameBufs s.lock rfl rfl rfl h1 rfl rfl h2.symm
      exact ⟨hi'.known, hi'.wq, hi'.nodup, hi'.attended⟩
    · cases h
  | sync t =>
    simp only [cacheStep] at h
    split at h
    · rename_i hf
      cases h
      obtain ⟨h1, h2⟩ := Pc.waits_of_free hf
      exact hi.sameBufs s.lock rfl rfl rfl h1 rfl rfl h2.symm
    · cases h
  | step t => exact hi.tstep hci hok (threadStep_cases h)

end

/-- **No stranded waiter**, in every run that keeps to `NoLostWake`: a thread asleep on a buffer will be woken. -/
theorem waiters_attended {τ : Type} [DecidableEq τ] {d d' : BlkDev τ} (bufs : List (Option Nat)) (hbare : Bare d)
    (hnd : bufs.Nodup) (hinit : bdevInitBufferCache bufs d = (0, d')) (s : CacheSt τ)
    (hrun : Reaches cacheStep NoLostWake (cacheStart d') s) (t : τ) (b : Nat) (ht : (s.pc t).asleepOn = some b) :
    Attended s t b := by
  have hst := bdevInit_spec hbare hinit
  have h0 : WaitInv (cacheStart d') := .start d' fun b hb => by rw [hst.fresh b hb]; rfl
  have hci := reaches_cacheInv hst hnd hrun
  have hi : WaitInv s := hrun.invariant_of (fun u hu => reaches_cacheInv hst hnd hu) h0
    fun _ _ _ hci hi hok hs => waitInv_cacheStep hi hci hok hs
  obtain ⟨u, hu⟩ := hi.attended t b ht
  rcases Pc.attends_cases hu with ⟨k, hk⟩ | hn | hw
  · have hut : u ≠ t := by
      rintro rfl
      obtain ⟨c, left, hp⟩ := Pc.asleepOn_eq ht
      rw [hp] at hk
      cases hk
    have hh := (hci.pcs u).holds b k hk
    exact .inl ⟨(hci.ident.usr b hh.caches.mem).2 (by rw [hh.usr]; simp), u, hut, k, hk⟩
  · exact .inr (.inl ⟨u, hn⟩)
  · exact .inr (.inr ⟨u, hw⟩)

instance {τ : Type} [Fintype τ] [DecidableEq τ] (s : CacheSt τ) (t : τ) (b : Nat) : Decidable (LookedAfter s t b) :=
  inferInstanceAs (Decidable (_ ∨ _))

instance {τ : Type} [Fintype τ] [DecidableEq τ] (s : CacheSt τ) (a : CacheAct τ) : Decidable (NoLostWake s a) := by
  unfold NoLostWake
  split
  · split <;> infer_instance
  · infer_instance

/-- Thread 1 queues up on the buffer that thread 0 has: it will be woken. -/
theorem waiters_attended_two_readers :
    ∃ s, Reaches cacheStep NoLostWake (cacheStart (bdevInitBufferCache [some 0x2000] (zeroDisk (Fin 2))).2) s ∧
      (s.pc 1).asleepOn = some 0x2000 ∧ Attended s 1 0x2000 := by
  obtain ⟨s, hrun, hs⟩ := exists_reaches cacheStep NoLostWake
    (cacheStart (bdevInitBufferCache [some 0x2000] (zeroDisk (Fin 2))).2)
    [.call 0 (.read 0), .step 0, .call 1 (.read 0), .step 1, .step 1]
    (fun s => (s.pc 1).asleepOn = some 0x2000) (by decide)
  have h1 := of_decide_eq_true hs
  exact ⟨s, hrun, h1, waiters_attended [some 0x2000] ⟨rfl, rfl⟩ (by decide) rfl s hrun 1 0x2000 h1⟩

/-! ## The two ways to lose a wake-up -/

/-- Nobody has the buffer, is about to notify it, or was woken from it. -/
def Deserted {τ : Type} (s : CacheSt τ) (b : Nat) : Prop :=
  (s.dev.buf b).flags.busy = false ∧ ∀ u, (s.pc u).notifying ≠ some b ∧ (s.pc u).wokenFrom ≠ some b

instance {τ : Type} [Fintype τ] (s : CacheSt τ) (b : Nat) : Decidable (Deserted s b) :=
  inferInstanceAs (Decidable (_ ∧ _))

theorem Deserted.not_attended {τ : Type} {s : CacheSt τ} {b : Nat} (h : Deserted s b) (t : τ) : ¬Attended s t b := by
  rintro (⟨hb, -⟩ | ⟨u, hu⟩ | ⟨u, hu⟩)
  · rw [h.1] at hb
    cases hb
  · exact (h.2 u).1 hu
  · exact (h.2 u).2 hu

/-- All of thread `t`'s steps after `get_buffer` of a read that finds nothing in the buffer. -/
def readToEnd {τ : Type} (t : τ) : List (CacheAct τ) := List.replicate 8 (.step t)

/-- Thread 1 finds the buffer busy; thread 0 releases and notifies it; thread 1 queues up. -/
def lateWaiter : List (CacheAct (Fin 2)) :=
  [.call 0 (.read 0), .step 0, .call 1 (.read 0), .step 1] ++ readToEnd 0 ++ [.step 1]

/-- Threads 1, 2 and 3 wait for block 0. Thread 0 releases its buffer, takes it again for block 2 and releases
it; of the two threads woken, thread 1 takes the other buffer for block 0 and thread 2 goes to wait there. -/
def movedBlock : List (CacheAct (Fin 4)) :=
  [.call 0 (.write 1 fun _ => 1)] ++ List.replicate 7 (.step 0) ++ [.call 0 (.read 0), .step 0] ++
    [.call 1 (.read 0), .step 1, .step 1, .call 2 (.read 0), .step 2, .step 2, .call 3 (.read 0), .step 3, .step 3] ++
    readToEnd 0 ++ [.call 0 (.read 2), .step 0] ++ List.replicate 8 (.step 1) ++ readToEnd 0 ++ [.step 2]

/-- **A stranded waiter, in two runs.** In the first a thread queues up on a buffer that has been
notified already, and in the second the block that three threads wait for moves to another buffer. -/
theorem waiter_stranded :
    (∃ s, Reaches cacheStep Any (cacheStart (bdevInitBufferCache [some 0x2000] (zeroDisk (Fin 2))).2) s ∧
      (s.pc 1).asleepOn = some 0x2000 ∧ ¬Attended s 1 0x2000) ∧
    ∃ s, Reaches cacheStep Any (cacheStart
        (bdevInitBufferCache [some 0x2000, some 0x3000] { zeroDisk (Fin 4) with totalBlks := 3 }).2) s ∧
      (s.pc 3).asleepOn = some 0x2000 ∧ ¬Attended s 3 0x2000 := by
  constructor
  · obtain ⟨s, hrun, hs⟩ := exists_reaches cacheStep Any
      (cacheStart (bdevInitBufferCache [some 0x2000] (zeroDisk (Fin 2))).2) lateWaiter
      (fun s => (s.pc 1).asleepOn = some 0x2000 ∧ Deserted s 0x2000) (by decide)
    obtain ⟨h1, h2⟩ := of_decide_eq_true hs
    exact ⟨s, hrun, h1, h2.not_attended 1⟩
  · obtain ⟨s, hrun, hs⟩ := exists_reaches cacheStep Any (cacheStart
      (bdevInitBufferCache [some 0x2000, some 0x3000] { zeroDisk (Fin 4) with totalBlks := 3 }).2) movedBlock
      (fun s => (s.pc 3).asleepOn = some 0x2000 ∧ Deserted s 0x2000) (by decide +kernel)
    obtain ⟨h1, h2⟩ := of_decide_eq_true hs
    exact ⟨s, hrun, h1, h2.not_attended 3⟩

end RedMagic.Bbuf
