import RedMagic.Lib.Loop

/-!
# The real-time clock (src/rtc.c, include/rtc.h), and the timer that is set by it (src/lapic.c:143-162)

| here | there |
| --- | --- |
| `Chip` | what the registers of the clock yield: `chip n reg` is the byte that the read number `n` finds in `reg` |
| `cmosRead`, `fillRtcdate` | `cmos_read`, `fill_rtcdate`: one read, and six of them |
| `collect` | a round of the loop of `rtc_time` |
| `conv`, `finish` | the macro `CONV`, and what `rtc_time` makes of the date it has read |
| `rtcTime`, `rtcDelay` | `rtc_time` and `rtc_delay`, with at most `fuel` rounds of each loop |
| `lapicInitTimer` | `lapic_init_timer`; `bus n` is the bus cycles up to the read number `n` |
| `Clock`, `Clock.Drives` | a clock, and that the chip is one |

The clock goes on while it is read. Once a second it brings its registers up to date, one after the other, and says so in
`CMOS_STATA`; a register read in the meantime may show the old time or the new one.
-/

namespace RedMagic.Rtc

open Loop

abbrev Chip := Nat → Nat → UInt8

/-- `rtcdate_t`. -/
structure RtcDate where
  second : Nat
  minute : Nat
  hour : Nat
  day : Nat
  month : Nat
  year : Nat
deriving DecidableEq, Repr

inductive Field where
  | second
  | minute
  | hour
  | day
  | month
  | year
deriving DecidableEq, Repr

/-- `SECS`, `MINS`, `HOURS`, `DAY`, `MONTH` and `YEAR`. -/
def Field.reg : Field → Nat
  | second => 0x00
  | minute => 0x02
  | hour => 0x04
  | day => 0x07
  | month => 0x08
  | year => 0x09

def RtcDate.field (d : RtcDate) : Field → Nat
  | .second => d.second
  | .minute => d.minute
  | .hour => d.hour
  | .day => d.day
  | .month => d.month
  | .year => d.year

def cmosStata : Nat := 0x0a
def cmosStatb : Nat := 0x0b

/-- `CMOS_UIP`, the bit `1 << 7`: an update is in progress. -/
def cmosUip : UInt8 := 0x80

def cmosRead (chip : Chip) (n reg : Nat) : Nat := (chip n reg).toNat

/-- `n` reads have been made before. -/
def fillRtcdate (chip : Chip) (n : Nat) : RtcDate :=
  ⟨cmosRead chip n Field.second.reg, cmosRead chip (n + 1) Field.minute.reg, cmosRead chip (n + 2) Field.hour.reg,
    cmosRead chip (n + 3) Field.day.reg, cmosRead chip (n + 4) Field.month.reg, cmosRead chip (n + 5) Field.year.reg⟩

def collect (chip : Chip) (n : Nat) : Nat ⊕ (RtcDate × Nat) :=
  let t1 := fillRtcdate chip n
  if chip (n + 6) cmosStata &&& cmosUip ≠ 0 then .inl (n + 7)
  else
    let t2 := fillRtcdate chip (n + 7)
    if t1 = t2 then .inr (t1, n + 13) else .inl (n + 13)

def conv (x : Nat) : Nat := x >>> 4 * 10 + (x &&& 0xf)

def RtcDate.map (f : Nat → Nat) (t : RtcDate) : RtcDate := ⟨f t.second, f t.minute, f t.hour, f t.day, f t.month, f t.year⟩

/-- The bit `1 << 2` of `CMOS_STATB` is clear. -/
def isBcd (chip : Chip) (n : Nat) : Bool := chip n cmosStatb &&& 0x04 = 0

def finish (bcd : Bool) (t : RtcDate) : RtcDate :=
  let t := if bcd then t.map conv else t
  { t with year := t.year + 2000 }

def rtcTime (chip : Chip) (fuel n : Nat) : Option (RtcDate × Nat) :=
  (loop (collect chip) fuel (n + 1)).map fun r => (finish (isBcd chip n) r.1, r.2)

/-- The `do` loop of `rtc_delay`, and those of `lapic_init_timer`: read the time until the second is another one. -/
def waitChange (chip : Chip) (fuel second : Nat) : Nat → Nat → Option (RtcDate × Nat)
  | 0, _ => none
  | k + 1, n =>
    match rtcTime chip fuel n with
    | none => none
    | some (rtc1, n) => if rtc1.second = second then waitChange chip fuel second k n else some (rtc1, n)

def rtcDelay (chip : Chip) (fuel : Nat) : Nat → Nat → Option Nat
  | 0, n => some n
  | seconds + 1, n =>
    match rtcTime chip fuel n with
    | none => none
    | some (rtc2, n) => (waitChange chip fuel rtc2.second fuel n).bind fun r => rtcDelay chip fuel seconds r.2

/-- `TCCR` of the local APIC, when `elapsed` cycles have gone by since its periodic timer was set to `icr`. -/
def tccr (icr elapsed : Nat) : Nat := icr - elapsed % (icr + 1)

/-- The exception that a division by 0 raises. -/
inductive Trap where
  | divideError
deriving DecidableEq, Repr

/-- The count that the timer is set to in the end. -/
def lapicInitTimer (chip : Chip) (bus : Nat → Nat) (fuel frequency n : Nat) : Option (Except Trap (Nat × Nat)) :=
  (rtcTime chip fuel n).bind fun r₀ =>
    (waitChange chip fuel r₀.1.second fuel r₀.2).bind fun r₁ =>
      -- `lapic_set_timer(~0)` is here
      (waitChange chip fuel r₁.1.second fuel r₁.2).map fun r₂ =>
        let icr := 0xFFFFFFFF
        let ccr := tccr icr (bus r₂.2 - bus r₁.2)
        if frequency = 0 then .error .divideError else .ok ((icr - ccr) / frequency, r₂.2)

/-! ## The clock -/

structure Clock where
  /-- The time in seconds at the read number `n`. -/
  time : Nat → Nat
  /-- The time whose field `f` its register shows then. -/
  shown : Nat → Field → Nat
  /-- Day, month and the last two digits of the year. -/
  calendar : Nat → Nat × Nat × Nat
  /-- The registers hold binary coded decimals. -/
  bcd : Bool

def Clock.date (c : Clock) (t : Nat) : RtcDate :=
  let d := c.calendar (t / 86400)
  ⟨t % 60, t / 60 % 60, t / 3600 % 24, d.1, d.2.1, d.2.2⟩

def encode (bcd : Bool) (x : Nat) : Nat := if bcd then x / 10 * 16 + x % 10 else x

structure Clock.Drives (c : Clock) (chip : Chip) : Prop where
  value : ∀ n f, (chip n (Field.reg f)).toNat = encode c.bcd ((c.date (c.shown n f)).field f)
  mode : ∀ n, isBcd chip n = c.bcd
  /-- Registers that are not being brought up to date show the time. -/
  settled : ∀ n f, chip n cmosStata &&& cmosUip = 0 → c.shown n f = c.time n
  shown_mono : ∀ f m n, m ≤ n → c.shown m f ≤ c.shown n f
  time_mono : ∀ m n, m ≤ n → c.time m ≤ c.time n

/-- A round of `rtc_time`, which makes 13 reads, takes less than a minute. -/
def Clock.Prompt (c : Clock) : Prop := ∀ n f, c.shown (n + 13) f < c.shown n f + 60

/-- No update falls into the reads from `n` on up to `m`. -/
def Clock.Quiet (c : Clock) (chip : Chip) (n m : Nat) : Prop :=
  ∀ k, n ≤ k → k < m → chip k cmosStata &&& cmosUip = 0 ∧ c.time k = c.time n

/-- The date at the read number `k`, as `rtc_time` gives it. -/
def Clock.dateAt (c : Clock) (k : Nat) : RtcDate :=
  let d := c.date (c.time k)
  { d with year := d.year + 2000 }

theorem Clock.time_ne (c : Clock) {i j : Nat} (h : (c.dateAt i).second ≠ (c.dateAt j).second) : c.time i ≠ c.time j := by
  intro heq
  exact h (by simp only [Clock.dateAt, heq])

theorem encode_inj {bcd : Bool} {x y : Nat} (h : encode bcd x = encode bcd y) : x = y := by
  cases bcd with
  | false => exact h
  | true =>
    simp only [encode, if_true] at h
    omega

theorem conv_encode (x : Nat) : conv (encode true x) = x := by
  have hand : ∀ y, y &&& 0xf = y % 16 := fun y => Nat.and_two_pow_sub_one_eq_mod y 4
  simp only [conv, encode, if_true, Nat.shiftRight_eq_div_pow, hand]
  omega

/-- Within a minute a field that shows the same twice has shown it all the time: the seconds have not gone round, and every other
field changes once at most. -/
theorem Clock.field_steady (c : Clock) (f : Field) {a t b : Nat} (hat : a ≤ t) (htb : t ≤ b) (hb : b < a + 60)
    (h : (c.date a).field f = (c.date b).field f) : (c.date t).field f = (c.date a).field f := by
  have hday : t / 86400 = a / 86400 ∨ t / 86400 = b / 86400 := by omega
  cases f with
  | second =>
    simp only [RtcDate.field, Clock.date] at h ⊢
    omega
  | minute =>
    simp only [RtcDate.field, Clock.date] at h ⊢
    omega
  | hour =>
    simp only [RtcDate.field, Clock.date] at h ⊢
    omega
  | _ =>
    simp only [RtcDate.field, Clock.date] at h ⊢
    rcases hday with hd | hd
    · rw [hd]
    · rw [hd, h]

section
variable {c : Clock} {chip : Chip} (hc : c.Drives chip)
include hc

/-- A register that is the same before and after the read number `k`, which finds no update in progress, shows the time at `k`. -/
theorem Clock.Drives.read_eq (hprompt : c.Prompt) (f : Field) {n k m : Nat} (hnk : n ≤ k) (hkm : k ≤ m) (hm : m ≤ n + 13)
    (hk : chip k cmosStata &&& cmosUip = 0) (h : cmosRead chip n f.reg = cmosRead chip m f.reg) :
    cmosRead chip n f.reg = encode c.bcd ((c.date (c.time k)).field f) := by
  simp only [cmosRead, hc.value] at h ⊢
  rw [← hc.settled k f hk, c.field_steady f (hc.shown_mono f n k hnk) (hc.shown_mono f k m hkm) ?_ (encode_inj h)]
  have hlast := hc.shown_mono f m (n + 13) hm
  have hless := hprompt n f
  omega

theorem Clock.Drives.fill_eq (hprompt : c.Prompt) {n : Nat} (hk : chip (n + 6) cmosStata &&& cmosUip = 0)
    (h : fillRtcdate chip n = fillRtcdate chip (n + 7)) :
    fillRtcdate chip n = (c.date (c.time (n + 6))).map (encode c.bcd) := by
  simp only [fillRtcdate, RtcDate.mk.injEq] at h
  obtain ⟨h0, h1, h2, h3, h4, h5⟩ := h
  simp only [fillRtcdate, RtcDate.map, RtcDate.mk.injEq]
  refine ⟨?_, ?_, ?_, ?_, ?_, ?_⟩
  · exact hc.read_eq hprompt .second (by omega) (by omega) (by omega) hk h0
  · exact hc.read_eq hprompt .minute (by omega) (by omega) (by omega) hk h1
  · exact hc.read_eq hprompt .hour (by omega) (by omega) (by omega) hk h2
  · exact hc.read_eq hprompt .day (by omega) (by omega) (by omega) hk h3
  · exact hc.read_eq hprompt .month (by omega) (by omega) (by omega) hk h4
  · exact hc.read_eq hprompt .year (by omega) (by omega) (by omega) hk h5

/-- What the loop leaves with is the date at the read of `CMOS_STATA` in its last round. -/
theorem Clock.Drives.collected (hprompt : c.Prompt) {n : Nat} {r : RtcDate × Nat} (h : Ends (collect chip) n r) :
    ∃ k, n ≤ k ∧ r.2 = k + 7 ∧ r.1 = (c.date (c.time k)).map (encode c.bcd) := by
  induction h with
  | @done n r h =>
    simp only [collect] at h
    split at h
    · cases h
    · rename_i hk
      split at h
      · rename_i heq
        cases h
        exact ⟨n + 6, by omega, rfl, hc.fill_eq hprompt (by simpa using hk) heq⟩
      · cases h
  | @again n n' r h _ ih =>
    obtain ⟨k, hnk, hkr, hd⟩ := ih
    refine ⟨k, ?_, hkr, hd⟩
    simp only [collect] at h
    split at h
    · cases h
      omega
    · split at h
      · cases h
      · cases h
        omega

theorem Clock.Drives.finish_date (n t : Nat) :
    finish (isBcd chip n) ((c.date t).map (encode c.bcd)) = { c.date t with year := (c.date t).year + 2000 } := by
  rw [hc.mode]
  cases hb : c.bcd with
  | false => rfl
  | true => simp only [finish, if_true, RtcDate.map, conv_encode]

theorem Clock.Drives.rtcTime_eq (hprompt : c.Prompt) {fuel n m : Nat} {d : RtcDate} (h : rtcTime chip fuel n = some (d, m)) :
    ∃ k, n < k ∧ m = k + 7 ∧ d = c.dateAt k := by
  obtain ⟨r, hr, heq⟩ := Option.map_eq_some_iff.1 h
  obtain ⟨k, hnk, hkr, hd⟩ := hc.collected hprompt (ends_iff.2 ⟨fuel, hr⟩)
  cases heq
  refine ⟨k, hnk, hkr, ?_⟩
  rw [hd, hc.finish_date]
  rfl

/-- A round without an update in it is the last one. -/
theorem Clock.Drives.collect_quiet {n : Nat} (hq : c.Quiet chip n (n + 13)) : collect chip n = .inr (fillRtcdate chip n, n + 13) := by
  have hreads : ∀ i j f, i < 13 → j < 13 → cmosRead chip (n + i) (Field.reg f) = cmosRead chip (n + j) f.reg := by
    intro i j f hi hj
    obtain ⟨hui, hti⟩ := hq (n + i) (by omega) (by omega)
    obtain ⟨huj, htj⟩ := hq (n + j) (by omega) (by omega)
    simp only [cmosRead, hc.value, hc.settled _ f hui, hc.settled _ f huj, hti, htj]
  have hsame : fillRtcdate chip n = fillRtcdate chip (n + 7) := by
    simp only [fillRtcdate, RtcDate.mk.injEq]
    exact ⟨hreads 0 7 _ (by decide) (by decide), hreads 1 8 _ (by decide) (by decide), hreads 2 9 _ (by decide) (by decide),
      hreads 3 10 _ (by decide) (by decide), hreads 4 11 _ (by decide) (by decide), hreads 5 12 _ (by decide) (by decide)⟩
  have huip : ¬ chip (n + 6) cmosStata &&& cmosUip ≠ 0 := by
    simpa using (hq (n + 6) (by omega) (by omega)).1
  rw [collect, if_neg huip, if_pos hsame]

/-- The loop ends in a stretch of 25 reads without an update, wherever its rounds begin. -/
theorem Clock.Drives.collect_ends {q : Nat} (hq : c.Quiet chip q (q + 25)) {n : Nat} (hn : n ≤ q + 12) :
    ∃ r, Ends (collect chip) n r ∧ r.2 ≤ q + 25 := by
  by_cases hqn : q ≤ n
  · refine ⟨_, .done (hc.collect_quiet fun k hk hk' => ?_), by dsimp only; omega⟩
    obtain ⟨hu, ht⟩ := hq k (by omega) (by omega)
    exact ⟨hu, ht.trans (hq n hqn (by omega)).2.symm⟩
  · have hround : (∃ r, collect chip n = .inr r ∧ r.2 ≤ q + 25) ∨ ∃ n', collect chip n = .inl n' ∧ n < n' ∧ n' ≤ q + 12 := by
      simp only [collect]
      split
      · exact .inr ⟨n + 7, rfl, by omega, by omega⟩
      · split
        · exact .inl ⟨_, rfl, by dsimp only; omega⟩
        · exact .inr ⟨n + 13, rfl, by omega, by omega⟩
    rcases hround with ⟨r, hr, hle⟩ | ⟨n', hr, hlt, hle⟩
    · exact ⟨r, .done hr, hle⟩
    · obtain ⟨r, hends, hr25⟩ := collect_ends hq hle
      exact ⟨r, .again hr hends, hr25⟩
termination_by q + 12 - n

/-- `rtc_time` called before 25 reads without an update returns in them. -/
theorem Clock.Drives.rtcTime_returns {n q : Nat} (hnq : n ≤ q) (hq : c.Quiet chip q (q + 25)) :
    ∃ fuel d m, rtcTime chip fuel n = some (d, m) ∧ m ≤ q + 25 := by
  obtain ⟨r, hr, hle⟩ := hc.collect_ends hq (show n + 1 ≤ q + 12 by omega)
  obtain ⟨fuel, hfuel⟩ := ends_iff.1 hr
  exact ⟨fuel, _, _, by rw [rtcTime, hfuel]; rfl, hle⟩

end

/-- **A consistent time.** On a clock that goes on while it is read, one register after the other, and in whichever of the two
formats it keeps its registers: the date that `rtc_time` returns is the date that the clock had at one moment of the call, as
long as no round of its loop takes a minute; and it returns once 25 reads fall between two updates. -/
theorem rtc_time_snapshot (chip : Chip) (c : Clock) (hc : c.Drives chip) (hprompt : c.Prompt) (n : Nat) :
    (∀ fuel d m, rtcTime chip fuel n = some (d, m) → ∃ k, n < k ∧ k < m ∧ d = c.dateAt k) ∧
      ((∃ q, n ≤ q ∧ c.Quiet chip q (q + 25)) → ∃ fuel d m, rtcTime chip fuel n = some (d, m)) := by
  refine ⟨fun fuel d m h => ?_, ?_⟩
  · obtain ⟨k, hnk, rfl, hd⟩ := hc.rtcTime_eq hprompt h
    exact ⟨k, hnk, by omega, hd⟩
  · rintro ⟨q, hnq, hq⟩
    obtain ⟨fuel, d, m, h, -⟩ := hc.rtcTime_returns hnq hq
    exact ⟨fuel, d, m, h⟩

/-- A hundred reads a second from the first minute's last second on; the first tick comes with the fifth read. -/
def wallClock : Clock where
  time n := 59 + (n + 95) / 100
  shown n _ := 59 + (n + 95) / 100
  calendar _ := (17, 11, 26)
  bcd := true

def wallChip : Chip := fun n reg =>
  UInt8.ofNat <|
    match reg with
    | 0x00 => encode true (wallClock.date (wallClock.time n)).second
    | 0x02 => encode true (wallClock.date (wallClock.time n)).minute
    | 0x04 => encode true (wallClock.date (wallClock.time n)).hour
    | 0x07 => encode true (wallClock.date (wallClock.time n)).day
    | 0x08 => encode true (wallClock.date (wallClock.time n)).month
    | 0x09 => encode true (wallClock.date (wallClock.time n)).year
    | 0x0a => 0
    | _ => 2

theorem toNat_ofNat_encode {x : Nat} (hx : x < 100) : (UInt8.ofNat (encode true x)).toNat = encode true x := by
  rw [UInt8.toNat_ofNat']
  refine Nat.mod_eq_of_lt ?_
  simp only [encode, if_true]
  omega

theorem wallClock_drives : wallClock.Drives wallChip where
  value := by
    intro n f
    cases f with
    | second => exact toNat_ofNat_encode (Nat.lt_trans (Nat.mod_lt _ (by decide)) (by decide))
    | minute => exact toNat_ofNat_encode (Nat.lt_trans (Nat.mod_lt _ (by decide)) (by decide))
    | hour => exact toNat_ofNat_encode (Nat.lt_trans (Nat.mod_lt _ (by decide)) (by decide))
    | day => exact toNat_ofNat_encode (x := 17) (by decide)
    | month => exact toNat_ofNat_encode (x := 11) (by decide)
    | year => exact toNat_ofNat_encode (x := 26) (by decide)
  mode := fun _ => (by decide : decide (UInt8.ofNat 2 &&& 0x04 = 0) = true)
  settled := fun _ _ _ => rfl
  shown_mono := by
    intro f m n h
    simp only [wallClock]
    omega
  time_mono := by
    intro m n h
    simp only [wallClock]
    omega

theorem wallClock_prompt : wallClock.Prompt := by
  intro n f
  simp only [wallClock]
  omega

/-- The tick falls into the first round, which is made again. -/
theorem rtc_time_snapshot_tick :
    rtcTime wallChip 2 0 = some (⟨0, 1, 0, 17, 11, 2026⟩, 27) ∧
      ∃ k, 0 < k ∧ k < 27 ∧ (⟨0, 1, 0, 17, 11, 2026⟩ : RtcDate) = wallClock.dateAt k :=
  ⟨by decide, (rtc_time_snapshot wallChip wallClock wallClock_drives wallClock_prompt 0).1 2 _ _ (by decide)⟩

/-! ## Delays -/

section
variable {chip : Chip} {fuel fuel' : Nat}

theorem rtcTime_mono (hf : fuel ≤ fuel') {n : Nat} {r : RtcDate × Nat} (h : rtcTime chip fuel n = some r) :
    rtcTime chip fuel' n = some r := by
  obtain ⟨t, ht, hr⟩ := Option.map_eq_some_iff.1 h
  rw [rtcTime, loop_mono ht hf, Option.map_some, hr]

theorem waitChange_mono (hf : fuel ≤ fuel') {second k k' n : Nat} {r : RtcDate × Nat} (hk : k ≤ k')
    (h : waitChange chip fuel second k n = some r) : waitChange chip fuel' second k' n = some r := by
  induction k generalizing n k' with
  | zero => cases h
  | succ k ih =>
    obtain ⟨k', rfl⟩ : ∃ j, k' = j + 1 := ⟨k' - 1, by omega⟩
    simp only [waitChange] at h ⊢
    cases ht : rtcTime chip fuel n with
    | none =>
      rw [ht] at h
      cases h
    | some r =>
      rw [ht] at h
      rw [rtcTime_mono hf ht]
      dsimp only at h ⊢
      split
      · rw [if_pos ‹_›] at h
        exact ih (by omega) h
      · rwa [if_neg ‹_›] at h

theorem rtcDelay_mono (hf : fuel ≤ fuel') {seconds n m : Nat} (h : rtcDelay chip fuel seconds n = some m) :
    rtcDelay chip fuel' seconds n = some m := by
  induction seconds generalizing n with
  | zero => exact h
  | succ seconds ih =>
    simp only [rtcDelay] at h ⊢
    cases ht : rtcTime chip fuel n with
    | none =>
      rw [ht] at h
      cases h
    | some r =>
      rw [ht] at h
      rw [rtcTime_mono hf ht]
      obtain ⟨r₁, hwait, hrest⟩ := Option.bind_eq_some_iff.1 h
      exact Option.bind_eq_some_iff.2 ⟨r₁, waitChange_mono hf hf hwait, ih hrest⟩

end

/-- The clock ticks, a round of `rtc_time` takes no longer than a second, and within a second of any moment, and seven reads after
it, there is room for 25 reads without an update. -/
structure Clock.Runs (c : Clock) (chip : Chip) : Prop where
  ticks : ∀ n, ∃ k, c.time n < c.time k
  quick : ∀ n, c.time (n + 13) ≤ c.time n + 1
  calm : ∀ n, ∃ q, n + 7 ≤ q ∧ c.Quiet chip q (q + 25) ∧ c.time (q + 25) ≤ c.time n + 1

section
variable {c : Clock} {chip : Chip} (hc : c.Drives chip) (hprompt : c.Prompt)
include hc hprompt

/-- The loop stops at the first date with another second. What holds where a date was read, and where the next one was read as long
as it has the same second, holds at `p'`, where the last date before that one was read. -/
theorem Clock.Drives.waitChange_rule {Q : Nat → Prop} {fuel k p second : Nat} {r : RtcDate × Nat} (hp : Q p)
    (hkeep : ∀ p i, Q p → p < i → rtcTime chip fuel (p + 7) = some (c.dateAt i, i + 7) → (c.dateAt i).second = second → Q i)
    (h : waitChange chip fuel second k (p + 7) = some r) :
    ∃ p' i, p ≤ p' ∧ p' < i ∧ Q p' ∧ (c.dateAt i).second ≠ second ∧ r = (c.dateAt i, i + 7) ∧
      rtcTime chip fuel (p' + 7) = some r := by
  induction k generalizing p with
  | zero => cases h
  | succ k ih =>
    simp only [waitChange] at h
    cases ht : rtcTime chip fuel (p + 7) with
    | none =>
      rw [ht] at h
      cases h
    | some r' =>
      obtain ⟨d, n'⟩ := r'
      rw [ht] at h
      obtain ⟨i, hni, rfl, rfl⟩ := hc.rtcTime_eq hprompt ht
      dsimp only at h
      split at h
      · rename_i hsec
        obtain ⟨p', i', hle, hrest⟩ := ih (hkeep p i hp (by omega) ht hsec) h
        exact ⟨p', i', by omega, hrest⟩
      · rename_i hne
        cases h
        exact ⟨p, i, Nat.le_refl _, by omega, hp, hne, rfl, ht⟩

theorem Clock.Drives.rtcDelay_later {fuel seconds n m : Nat} (h : rtcDelay chip fuel seconds n = some m) :
    n ≤ m ∧ c.time n + seconds ≤ c.time m := by
  induction seconds generalizing n with
  | zero =>
    cases h
    exact ⟨Nat.le_refl _, Nat.le_refl _⟩
  | succ seconds ih =>
    simp only [rtcDelay] at h
    cases ht : rtcTime chip fuel n with
    | none =>
      rw [ht] at h
      cases h
    | some r =>
      obtain ⟨d, n'⟩ := r
      rw [ht] at h
      obtain ⟨k, hnk, rfl, rfl⟩ := hc.rtcTime_eq hprompt ht
      obtain ⟨r₁, hwait, hrest⟩ := Option.bind_eq_some_iff.1 h
      obtain ⟨p, i, hkp, hpi, -, hne, rfl, -⟩ :=
        hc.waitChange_rule hprompt (Q := fun _ => True) trivial (fun _ _ _ _ _ _ => trivial) hwait
      obtain ⟨hle, hmore⟩ := ih hrest
      -- another second is a later one
      have hdiff := c.time_ne hne
      have hstart := hc.time_mono n k (by omega)
      have hnext := hc.time_mono k i (by omega)
      have hback := hc.time_mono i (i + 7) (by omega)
      dsimp only at hle hmore
      exact ⟨by omega, by omega⟩

variable (hruns : c.Runs chip)
include hruns

theorem Clock.Drives.rtcTime_soon (n : Nat) :
    ∃ fuel k, n < k ∧ rtcTime chip fuel n = some (c.dateAt k, k + 7) := by
  obtain ⟨q, hnq, hq, -⟩ := hruns.calm n
  obtain ⟨fuel, d, m, h, -⟩ := hc.rtcTime_returns (show n ≤ q by omega) hq
  obtain ⟨k, hnk, rfl, rfl⟩ := hc.rtcTime_eq hprompt h
  exact ⟨fuel, k, hnk, h⟩

omit hprompt in
/-- Of two dates read one after the other the second is a second later at most. -/
theorem Clock.Drives.rtcTime_next {fuel p i : Nat} (h : rtcTime chip fuel (p + 7) = some (c.dateAt i, i + 7)) :
    c.time i ≤ c.time p + 1 := by
  obtain ⟨q, hnq, hq, hsoon⟩ := hruns.calm p
  obtain ⟨fuel', d, m, h', hm⟩ := hc.rtcTime_returns hnq hq
  have hsame := rtcTime_mono (Nat.le_max_left fuel fuel') h
  rw [rtcTime_mono (Nat.le_max_right fuel fuel') h'] at hsame
  cases hsame
  have hi := hc.time_mono i (q + 25) (by omega)
  omega

omit hprompt in
/-- The same second again is the same time, another one is the next. -/
theorem Clock.Drives.time_next {fuel j p i : Nat} (hp : c.time p = c.time j)
    (h : rtcTime chip fuel (p + 7) = some (c.dateAt i, i + 7)) (hpi : p ≤ i) :
    c.time i = if (c.dateAt i).second = (c.dateAt j).second then c.time j else c.time j + 1 := by
  have hnext := hc.rtcTime_next hruns h
  have hmono := hc.time_mono p i hpi
  by_cases hsec : (c.dateAt i).second = (c.dateAt j).second
  · rw [if_pos hsec]
    simp only [Clock.dateAt, Clock.date] at hsec
    omega
  · rw [if_neg hsec]
    have hdiff := c.time_ne hsec
    omega

/-- The loop of `rtc_delay` ends: it sees the next second before a minute has gone by. -/
theorem Clock.Drives.waitChange_returns {j k : Nat} (hk : c.time j < c.time k) (p : Nat) (hp : c.time p = c.time j) :
    ∃ fuel i, p < i ∧ waitChange chip fuel (c.dateAt j).second fuel (p + 7) = some (c.dateAt i, i + 7) := by
  obtain ⟨fuel, i, hni, h⟩ := hc.rtcTime_soon hprompt hruns (p + 7)
  have htime := hc.time_next hruns hp h (by omega)
  by_cases hsec : (c.dateAt i).second = (c.dateAt j).second
  · rw [if_pos hsec] at htime
    have hik : i < k := by
      refine Nat.lt_of_not_le fun hle => ?_
      have hback := hc.time_mono k i hle
      omega
    obtain ⟨fuel', i', hlt, h'⟩ := waitChange_returns hk i htime
    refine ⟨max fuel fuel' + 1, i', by omega, ?_⟩
    rw [waitChange, rtcTime_mono (by omega) h]
    dsimp only
    rw [if_pos hsec]
    exact waitChange_mono (by omega) (by omega) h'
  · refine ⟨fuel + 1, i, by omega, ?_⟩
    rw [waitChange, rtcTime_mono (by omega) h]
    exact if_neg hsec
termination_by k - p

theorem Clock.Drives.rtcDelay_returns (seconds n : Nat) : ∃ fuel m, rtcDelay chip fuel seconds n = some m := by
  induction seconds generalizing n with
  | zero => exact ⟨0, n, rfl⟩
  | succ seconds ih =>
    obtain ⟨fuel, k, hnk, h⟩ := hc.rtcTime_soon hprompt hruns n
    obtain ⟨k', hk'⟩ := hruns.ticks k
    obtain ⟨fuel₁, i, -, hwait⟩ := hc.waitChange_returns hprompt hruns hk' k rfl
    obtain ⟨fuel₂, m, hrest⟩ := ih (i + 7)
    refine ⟨max fuel (max fuel₁ fuel₂), m, ?_⟩
    rw [rtcDelay, rtcTime_mono (by omega) h]
    exact Option.bind_eq_some_iff.2 ⟨_, waitChange_mono (by omega) (by omega) hwait, rtcDelay_mono (by omega) hrest⟩

/-- The second that the loop stops at is the next one. -/
theorem Clock.Drives.waitChange_next {fuel k j p : Nat} {r : RtcDate × Nat} (hp : c.time p = c.time j)
    (h : waitChange chip fuel (c.dateAt j).second k (p + 7) = some r) :
    ∃ p' i, p ≤ p' ∧ p' < i ∧ c.time p' = c.time j ∧ c.time i = c.time j + 1 ∧ r = (c.dateAt i, i + 7) ∧
      rtcTime chip fuel (p' + 7) = some r := by
  obtain ⟨p', i, hle, hlt, hp', hne, rfl, ht⟩ := hc.waitChange_rule hprompt (Q := fun q => c.time q = c.time j) hp
    (fun q i hq hqi ht hsec => (hc.time_next hruns hq ht (Nat.le_of_lt hqi)).trans (if_pos hsec)) h
  exact ⟨p', i, hle, hlt, hp', (hc.time_next hruns hp' ht (Nat.le_of_lt hlt)).trans (if_neg hne), rfl, ht⟩

theorem Clock.Drives.lapicInitTimer_returns (bus : Nat → Nat) {frequency : Nat} (hfreq : 0 < frequency) (n : Nat) :
    ∃ fuel r, lapicInitTimer chip bus fuel frequency n = some (.ok r) := by
  obtain ⟨fuel, k, -, h⟩ := hc.rtcTime_soon hprompt hruns n
  obtain ⟨k', hk'⟩ := hruns.ticks k
  obtain ⟨fuel₁, i, -, hwait⟩ := hc.waitChange_returns hprompt hruns hk' k rfl
  obtain ⟨i', hi'⟩ := hruns.ticks i
  obtain ⟨fuel₂, i₂, -, hwait₂⟩ := hc.waitChange_returns hprompt hruns hi' i rfl
  have hf : fuel ≤ max fuel (max fuel₁ fuel₂) := Nat.le_max_left ..
  have hf₁ : fuel₁ ≤ max fuel (max fuel₁ fuel₂) := by omega
  have hf₂ : fuel₂ ≤ max fuel (max fuel₁ fuel₂) := by omega
  exact ⟨_, _, Option.bind_eq_some_iff.2 ⟨_, rtcTime_mono hf h, Option.bind_eq_some_iff.2 ⟨_, waitChange_mono hf₁ hf₁ hwait,
    Option.map_eq_some_iff.2 ⟨_, waitChange_mono hf₂ hf₂ hwait₂, if_neg (Nat.ne_of_gt hfreq)⟩⟩⟩⟩

end

/-- **A delay is no shorter than asked for**, and it ends. From the call of `rtc_delay` to its return the clock goes on by at least
`seconds`. -/
theorem rtc_delay_waits (chip : Chip) (c : Clock) (hc : c.Drives chip) (hprompt : c.Prompt) (hruns : c.Runs chip) (seconds n : Nat) :
    (∃ fuel m, rtcDelay chip fuel seconds n = some m) ∧
      ∀ fuel m, rtcDelay chip fuel seconds n = some m → c.time n + seconds ≤ c.time m :=
  ⟨hc.rtcDelay_returns hprompt hruns seconds n, fun _ _ h => (hc.rtcDelay_later hprompt h).2⟩

/-- **The timer counts a second.** For a frequency other than 0 `lapic_init_timer` returns, and divides by the frequency what the
bus has counted from one tick of the clock to the next, up to one call of `rtc_time` at either end: the first tick comes between
the two dates read at `k₀` and `k₁`, which is when counting starts, and the next one between those at `k₂` and `k₃`, which is
when it ends. -/
theorem timer_counts_second (chip : Chip) (c : Clock) (hc : c.Drives chip) (hprompt : c.Prompt) (hruns : c.Runs chip)
    (bus : Nat → Nat) (hbus : ∀ n m, c.time m ≤ c.time n + 2 → bus m - bus n < 0x100000000) (frequency n : Nat)
    (hfreq : 0 < frequency) :
    (∃ fuel r, lapicInitTimer chip bus fuel frequency n = some (.ok r)) ∧
      ∀ fuel icr m, lapicInitTimer chip bus fuel frequency n = some (.ok (icr, m)) →
        ∃ k₀ k₁ k₂ k₃, n < k₀ ∧ k₀ < k₁ ∧ k₁ ≤ k₂ ∧ k₂ < k₃ ∧
          c.time k₁ = c.time k₀ + 1 ∧ c.time k₂ = c.time k₁ ∧ c.time k₃ = c.time k₂ + 1 ∧
          rtcTime chip fuel (k₀ + 7) = some (c.dateAt k₁, k₁ + 7) ∧ rtcTime chip fuel (k₂ + 7) = some (c.dateAt k₃, k₃ + 7) ∧
          icr = (bus (k₃ + 7) - bus (k₁ + 7)) / frequency := by
  refine ⟨hc.lapicInitTimer_returns hprompt hruns bus hfreq n, fun fuel icr m h => ?_⟩
  obtain ⟨⟨d, n₀⟩, h₀, h⟩ := Option.bind_eq_some_iff.1 h
  obtain ⟨r₁, h₁, h⟩ := Option.bind_eq_some_iff.1 h
  obtain ⟨r₂, h₂, h⟩ := Option.map_eq_some_iff.1 h
  obtain ⟨j, hnj, rfl, rfl⟩ := hc.rtcTime_eq hprompt h₀
  obtain ⟨k₀, k₁, hjk, h01, ht₀, ht₁, rfl, hr₁⟩ := hc.waitChange_next hprompt hruns rfl h₁
  obtain ⟨k₂, k₃, h12, h23, ht₂, ht₃, rfl, hr₂⟩ := hc.waitChange_next hprompt hruns rfl h₂
  refine ⟨k₀, k₁, k₂, k₃, by omega, h01, h12, h23, by omega, ht₂, by omega, hr₁, hr₂, ?_⟩
  -- the counter has not gone round
  have hquick := hruns.quick k₃
  have hlate := hc.time_mono (k₃ + 7) (k₃ + 13) (by omega)
  have hearly := hc.time_mono k₁ (k₁ + 7) (by omega)
  have hless := hbus (k₁ + 7) (k₃ + 7) (by omega)
  dsimp only at h
  rw [if_neg (Nat.ne_of_gt hfreq)] at h
  have hicr := (Prod.mk.inj (Except.ok.inj h)).1
  dsimp only [tccr] at hicr
  rw [← hicr, Nat.mod_eq_of_lt (by omega)]
  congr 1
  omega

theorem wallClock_runs : wallClock.Runs wallChip where
  ticks := by
    intro n
    refine ⟨n + 100, ?_⟩
    simp only [wallClock]
    omega
  quick := by
    intro n
    simp only [wallClock]
    omega
  calm := by
    intro n
    -- now, or at the next tick
    obtain ⟨q, hnq, hq, hq'⟩ : ∃ q, n + 7 ≤ q ∧ (q + 95) % 100 ≤ 75 ∧ (q + 25 + 95) / 100 ≤ (n + 95) / 100 + 1 := by
      by_cases h : (n + 7 + 95) % 100 ≤ 75
      · exact ⟨n + 7, by omega, h, by omega⟩
      · exact ⟨n + 7 + (100 - (n + 7 + 95) % 100), by omega, by omega, by omega⟩
    refine ⟨q, hnq, fun k hk hk' => ⟨(by decide : UInt8.ofNat 0 &&& cmosUip = 0), ?_⟩, ?_⟩
    · simp only [wallClock]
      omega
    · simp only [wallClock]
      omega

theorem rtc_delay_waits_three :
    ∃ fuel m, rtcDelay wallChip fuel 3 0 = some m ∧ wallClock.time 0 + 3 ≤ wallClock.time m := by
  obtain ⟨⟨fuel, m, h⟩, hwaits⟩ := rtc_delay_waits wallChip wallClock wallClock_drives wallClock_prompt wallClock_runs 3 0
  exact ⟨fuel, m, h, hwaits fuel m h⟩

/-- Three thousand cycles to a read, and a frequency of a hundred. -/
theorem timer_counts_second_wall :
    ∃ fuel icr m k₁ k₃, lapicInitTimer wallChip (3000 * ·) fuel 100 0 = some (.ok (icr, m)) ∧
      wallClock.time k₃ = wallClock.time k₁ + 1 ∧ icr = (3000 * (k₃ + 7) - 3000 * (k₁ + 7)) / 100 := by
  obtain ⟨⟨fuel, ⟨icr, m⟩, h⟩, hcounts⟩ := timer_counts_second wallChip wallClock wallClock_drives wallClock_prompt wallClock_runs
    (3000 * ·) (fun n m hnm => by simp only [wallClock] at hnm; omega) 100 0 (by decide)
  obtain ⟨_, k₁, _, k₃, -, -, -, -, -, h2, h3, -, -, hicr⟩ := hcounts fuel icr m h
  exact ⟨fuel, icr, m, k₁, k₃, h, by omega, hicr⟩

end RedMagic.Rtc
