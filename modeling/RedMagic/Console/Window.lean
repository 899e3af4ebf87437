import RedMagic.Console.Basic

/-!
# The screen as a window on an unbounded terminal

`Terminal` has rows without end and never scrolls. What the console shows is the 25 rows of it that begin with row
`scrolls`, the number of times the console has scrolled (`Window`). The rows behind the window are blank, so the
row that `scroll` blanks is the row of the terminal that comes into view.
-/

namespace RedMagic.C80

open Memory

/-! ## The reference terminal -/

structure Terminal where
  /-- The cell at a row and a column. -/
  cell : Nat → Nat → UInt16
  x : Nat
  y : Nat

namespace Terminal

def fresh : Terminal := ⟨fun _ _ => blank, 0, 0⟩

/-- Store a cell at the cursor and step to the right. -/
def print (t : Terminal) (w : UInt16) : Terminal :=
  { t with cell := Function.update t.cell t.y (Function.update (t.cell t.y) t.x w), x := t.x + 1 }

def newline (t : Terminal) : Terminal := { t with x := 0, y := t.y + 1 }

/-- What a character does, before the end of the row is looked at. -/
def key (t : Terminal) (c : Int8) (attr : UInt16) : Terminal :=
  if c = 0x08 then { t with x := t.x - 1 }
  else if c = 0x09 then { t with x := (t.x / 8 + 1) * 8 }
  else if c = 0x0D then { t with x := 0 }
  else if c = 0x0A then t.newline
  else if 0x20 ≤ c then t.print (cellOf c attr)
  else t

def wrap (t : Terminal) : Terminal := if 80 ≤ t.x then t.newline else t

def putc (t : Terminal) (c : Int8) (attr : UInt16) : Terminal := (t.key c attr).wrap

end Terminal

/-- The attribute of a cell: the background in the upper half of a byte, the foreground in the lower. -/
def attrOf (back fore : RealColor) : UInt16 := ((back.toU8 <<< 4) ||| (fore.toU8 &&& 0x0F)).toUInt16 <<< 8

def Terminal.call (t : Terminal) : Call → Terminal
  | .put c => t.putc c (attrOf .black .white)
  | .putcColor c back fore => t.putc c (attrOf back fore)

/-! ## One call -/

/-- The part of a call before the end of the row is looked at. -/
def key (s : Console) (c : Int8) (attr : UInt16) : Console :=
  if c = 0x08 ∧ s.cursorX ≠ 0 then { s with cursorX := s.cursorX - 1 }
  else if c = 0x09 then { s with cursorX := (s.cursorX + 8) &&& ~~~(8 - 1) }
  else if c = 0x0D then { s with cursorX := 0 }
  else if c = 0x0A then { s with cursorX := 0, cursorY := s.cursorY + 1 }
  else if 0x20 ≤ c then
    { s with video := s.video.write (location s) (cellOf c attr), cursorX := s.cursorX + 1 }
  else s

def wrap (s : Console) : Console :=
  if 80 ≤ s.cursorX then { s with cursorX := 0, cursorY := s.cursorY + 1 } else s

theorem c80PutcColor_eq (s : Console) (c : Int8) (back fore : RealColor) :
    c80PutcColor s c back fore = moveCursor (scroll (wrap (key s c (attrOf back fore)))) := rfl

/-- The cursors are at the same place, and the screen shows the rows of the terminal from `scrolls` on. -/
structure Shows (s : Console) (t : Terminal) : Prop where
  x : t.x = s.cursorX.toNat
  y : t.y = s.scrolls + s.cursorY.toNat
  cells : ∀ r < 25, ∀ x < 80, s.video.cell (80 * r + x) = t.cell (s.scrolls + r) x
  below : ∀ r, s.scrolls + 25 ≤ r → ∀ x, t.cell r x = blank
  written : ∀ i ∈ s.video.written, i < 2000

/-- `Shows`, with the cursor on the screen. -/
structure OnScreen (s : Console) (t : Terminal) : Prop extends Shows s t where
  x_lt : s.cursorX.toNat < 80
  y_lt : s.cursorY.toNat < 25

/-- What holds between two calls: also the registers of the VGA board hold the index of the cursor's cell. -/
structure Window (s : Console) (t : Terminal) : Prop extends OnScreen s t where
  hardware : (s.crtc 14).toNat * 256 + (s.crtc 15).toNat = location s

theorem toNat_tab {x : UInt8} (hx : x.toNat < 80) : ((x + 8) &&& ~~~(8 - 1)).toNat = (x.toNat / 8 + 1) * 8 := by
  have htab : ∀ n < 80, ((UInt8.ofNat n + 8) &&& ~~~(8 - 1)).toNat = (n / 8 + 1) * 8 := by decide
  have h := htab x.toNat hx
  rwa [UInt8.ofNat_toNat] at h

theorem toNat_succ {x : UInt8} (hx : x.toNat < 80) : (x + 1).toNat = x.toNat + 1 := by
  rw [UInt8.toNat_add, show (1 : UInt8).toNat = 1 from rfl, Nat.mod_eq_of_lt (by omega)]

theorem toNat_pred {x : UInt8} (hx : x ≠ 0) : (x - 1).toNat = x.toNat - 1 := by
  have hpos : x.toNat ≠ 0 := fun h => hx (UInt8.toNat_inj.1 h)
  have hlt := x.toNat_lt
  rw [UInt8.toNat_sub, show (1 : UInt8).toNat = 1 from rfl]
  omega

section
variable {s : Console} {t : Terminal}

/-- A line feed, or the end of a row. -/
theorem Shows.newline (h : Shows s t) (hy : s.cursorY.toNat < 80) :
    Shows { s with cursorX := 0, cursorY := s.cursorY + 1 } t.newline := by
  refine ⟨rfl, ?_, h.cells, h.below, h.written⟩
  show t.y + 1 = s.scrolls + (s.cursorY + 1).toNat
  rw [toNat_succ hy, h.y]
  omega

theorem OnScreen.print (h : OnScreen s t) (w : UInt16) :
    Shows { s with video := s.video.write (location s) w, cursorX := s.cursorX + 1 } (t.print w) := by
  have hx := h.x_lt
  have hy := h.y_lt
  refine ⟨?_, h.y, ?_, ?_, ?_⟩
  · show t.x + 1 = (s.cursorX + 1).toNat
    rw [toNat_succ hx, h.x]
  · intro r hr x hx'
    show (s.video.write (location s) w).cell (80 * r + x) = Function.update t.cell t.y _ (s.scrolls + r) x
    rw [Mem.cell_write]
    -- the index is the cursor's exactly for the cursor's row and column
    by_cases hrow : r = s.cursorY.toNat
    · subst hrow
      rw [← h.y, Function.update_self, Function.update_apply, h.x, h.cells _ hr _ hx', ← h.y]
      unfold location
      grind
    · rw [Function.update_of_ne (by rw [h.y]; omega), h.cells r hr x hx', if_neg]
      unfold location
      omega
  · intro r hr x
    show Function.update t.cell t.y _ r x = blank
    rw [Function.update_of_ne (by rw [h.y]; dsimp only at hr; omega)]
    exact h.below r hr x
  · intro i hi
    rcases Mem.mem_written_write.1 hi with rfl | hold
    · unfold location
      omega
    · exact h.written i hold

/-- Where the cursor is before the end of the row is looked at: at most one place to the right of the row, or
one row below the screen. -/
def NearScreen (s : Console) : Prop :=
  (s.cursorX.toNat ≤ 80 ∧ s.cursorY.toNat < 25) ∨ (s.cursorX.toNat < 80 ∧ s.cursorY.toNat ≤ 25)

theorem OnScreen.key (h : OnScreen s t) (c : Int8) (attr : UInt16) :
    Shows (key s c attr) (t.key c attr) ∧ NearScreen (C80.key s c attr) := by
  have hx := h.x_lt
  have hy := h.y_lt
  unfold C80.key Terminal.key
  by_cases hback : c = 0x08
  · subst hback
    by_cases hzero : s.cursorX = 0
    · -- a backspace in the first column is none of the cases
      have hx0 : t.x - 1 = s.cursorX.toNat := by simp [h.x, hzero]
      rw [if_neg fun hc => hc.2 hzero, if_neg (by decide), if_neg (by decide), if_neg (by decide), if_neg (by decide),
        if_pos rfl]
      exact ⟨⟨hx0, h.y, h.cells, h.below, h.written⟩, .inl ⟨Nat.le_of_lt hx, hy⟩⟩
    · have hx0 : t.x - 1 = (s.cursorX - 1).toNat := by rw [toNat_pred hzero, h.x]
      rw [if_pos ⟨rfl, hzero⟩, if_pos rfl]
      refine ⟨⟨hx0, h.y, h.cells, h.below, h.written⟩, .inl ⟨?_, hy⟩⟩
      show (s.cursorX - 1).toNat ≤ 80
      rw [toNat_pred hzero]
      omega
  rw [if_neg fun hc => hback hc.1, if_neg hback]
  by_cases htab : c = 0x09
  · have htab' := toNat_tab hx
    rw [if_pos htab, if_pos htab]
    refine ⟨⟨?_, h.y, h.cells, h.below, h.written⟩, .inl ⟨?_, hy⟩⟩
    · show (t.x / 8 + 1) * 8 = _
      rw [htab', h.x]
    · rw [htab']
      omega
  rw [if_neg htab, if_neg htab]
  by_cases hcr : c = 0x0D
  · rw [if_pos hcr, if_pos hcr]
    exact ⟨⟨rfl, h.y, h.cells, h.below, h.written⟩, .inl ⟨Nat.zero_le _, hy⟩⟩
  rw [if_neg hcr, if_neg hcr]
  by_cases hlf : c = 0x0A
  · rw [if_pos hlf, if_pos hlf]
    refine ⟨h.toShows.newline (by omega), .inr ⟨show (0 : UInt8).toNat < 80 by decide, ?_⟩⟩
    show (s.cursorY + 1).toNat ≤ 25
    rw [toNat_succ (by omega)]
    omega
  rw [if_neg hlf, if_neg hlf]
  by_cases hprint : 0x20 ≤ c
  · rw [if_pos hprint, if_pos hprint]
    refine ⟨h.print _, .inl ⟨?_, hy⟩⟩
    show (s.cursorX + 1).toNat ≤ 80
    rw [toNat_succ hx]
    omega
  · rw [if_neg hprint, if_neg hprint]
    exact ⟨h.toShows, .inl ⟨Nat.le_of_lt hx, hy⟩⟩

theorem Shows.wrap (h : Shows s t) (hnear : NearScreen s) :
    Shows (wrap s) t.wrap ∧ (C80.wrap s).cursorX.toNat < 80 ∧ (C80.wrap s).cursorY.toNat ≤ 25 := by
  have hiff : 80 ≤ s.cursorX ↔ 80 ≤ t.x := by rw [h.x, UInt8.le_iff_toNat_le, show (80 : UInt8).toNat = 80 from rfl]
  unfold C80.wrap Terminal.wrap
  by_cases hx : 80 ≤ t.x
  · rw [if_pos hx, if_pos (hiff.2 hx)]
    have hy : s.cursorY.toNat < 25 := by
      rw [h.x] at hx
      unfold NearScreen at hnear
      omega
    refine ⟨h.newline (by omega), show (0 : UInt8).toNat < 80 by decide, ?_⟩
    show (s.cursorY + 1).toNat ≤ 25
    rw [toNat_succ (by omega)]
    omega
  · rw [if_neg hx, if_neg fun hle => hx (hiff.1 hle)]
    rw [h.x] at hx
    unfold NearScreen at hnear
    exact ⟨h, by omega, by omega⟩

/-- When the cursor is below the screen, the window moves down by one row. -/
theorem Shows.scroll (h : Shows s t) (hx : s.cursorX.toNat < 80) (hy : s.cursorY.toNat ≤ 25) : OnScreen (scroll s) t := by
  have hiff : 25 ≤ s.cursorY ↔ 25 ≤ s.cursorY.toNat := UInt8.le_iff_toNat_le
  unfold C80.scroll
  by_cases hlast : 25 ≤ s.cursorY.toNat
  · rw [if_pos (hiff.2 hlast)]
    refine ⟨⟨h.x, ?_, ?_, ?_, ?_⟩, hx, show (24 : UInt8).toNat < 25 by decide⟩
    · show t.y = s.scrolls + 1 + 24
      rw [h.y]
      omega
    · intro r hr x hx'
      show ((s.video.copyDown 80 (24 * 80)).fill (24 * 80) 80 blank).cell (80 * r + x) = t.cell (s.scrolls + 1 + r) x
      rw [Mem.cell_fill, Mem.cell_copyDown _ (by decide)]
      by_cases hrow : r < 24
      · rw [if_neg (by omega), if_pos (by omega), show 80 * r + x + 80 = 80 * (r + 1) + x by omega,
          h.cells (r + 1) (by omega) x hx', show s.scrolls + (r + 1) = s.scrolls + 1 + r by omega]
      · rw [if_pos (by omega), h.below _ (by omega)]
    · intro r hr x
      exact h.below r (Nat.le_trans (Nat.add_le_add_right (Nat.le_succ _) _) hr) x
    · intro i hi
      rw [Mem.mem_written_fill, Mem.mem_written_copyDown] at hi
      rcases hi with hi | hi | hi
      · omega
      · omega
      · exact h.written i hi
  · rw [if_neg fun hle => hlast (hiff.1 hle)]
    exact ⟨h, hx, by omega⟩

end

/-! ## The hardware cursor -/

theorem moveCursor_eq (s : Console) :
    moveCursor s = { s with
      crtcIndex := 15
      crtc := Function.update (Function.update s.crtc 14 ((s.cursorY.toUInt16 * 80 + s.cursorX.toUInt16) >>> 8).toUInt8) 15
        (s.cursorY.toUInt16 * 80 + s.cursorX.toUInt16).toUInt8 } := by
  simp [moveCursor, outb]

theorem moveCursor_crtc {s : Console} (hx : s.cursorX.toNat < 80) (hy : s.cursorY.toNat < 25) :
    ((moveCursor s).crtc 14).toNat * 256 + ((moveCursor s).crtc 15).toNat = location s := by
  have hloc : (s.cursorY.toUInt16 * 80 + s.cursorX.toUInt16).toNat = location s := by
    simp only [location, UInt16.toNat_add, UInt16.toNat_mul, UInt8.toNat_toUInt16, show (80 : UInt16).toNat = 80 from rfl]
    omega
  have hlt : location s < 2000 := by
    unfold location
    omega
  rw [moveCursor_eq]
  dsimp only
  rw [Function.update_self, Function.update_of_ne (by decide), Function.update_self, UInt16.toNat_toUInt8,
    UInt16.toNat_toUInt8, UInt16.toNat_shiftRight, hloc, show (8 : UInt16).toNat % 16 = 8 from rfl, Nat.shiftRight_eq_div_pow]
  omega

theorem OnScreen.moveCursor {s : Console} {t : Terminal} (h : OnScreen s t) : Window (moveCursor s) t := by
  have hcrtc := moveCursor_crtc h.x_lt h.y_lt
  rw [moveCursor_eq] at hcrtc ⊢
  exact ⟨⟨⟨h.x, h.y, h.cells, h.below, h.written⟩, h.x_lt, h.y_lt⟩, hcrtc⟩

/-! ## Runs -/

theorem c80Clear_window (video : Nat → UInt16) (x y index : UInt8) (crtc : UInt8 → UInt8) :
    Window (c80Clear ⟨⟨video, []⟩, x, y, index, crtc, 0⟩) .fresh := by
  have h0 : (0 : UInt8).toNat = 0 := rfl
  refine OnScreen.moveCursor ⟨⟨h0.symm, h0.symm, ?_, fun _ _ _ => rfl, ?_⟩, by rw [h0]; decide, by rw [h0]; decide⟩
  · intro r hr x hx
    dsimp only [Terminal.fresh]
    rw [Mem.cell_fill, if_pos (by omega)]
  · intro i hi
    rcases Mem.mem_written_fill.1 hi with hlt | hnil
    · omega
    · cases hnil

theorem Window.putcColor {s : Console} {t : Terminal} (h : Window s t) (c : Int8) (back fore : RealColor) :
    Window (c80PutcColor s c back fore) (t.putc c (attrOf back fore)) := by
  obtain ⟨hkey, hnear⟩ := h.key c (attrOf back fore)
  obtain ⟨hwrap, hx, hy⟩ := hkey.wrap hnear
  rw [c80PutcColor_eq]
  exact (hwrap.scroll hx hy).moveCursor

theorem Window.call {s : Console} {t : Terminal} (h : Window s t) (a : Call) : Window (call s a) (t.call a) := by
  cases a with
  | put c => exact h.putcColor c .black .white
  | putcColor c back fore => exact h.putcColor c back fore

theorem Window.calls {s : Console} {t : Terminal} (h : Window s t) (as : List Call) :
    Window (as.foldl C80.call s) (as.foldl Terminal.call t) := by
  induction as generalizing s t with
  | nil => exact h
  | cons a as ih => exact ih (h.call a)

/-- `c80_write_color`, and with it `c80_write`, is a run. -/
theorem c80WriteColor_eq_foldl (s : Console) (back fore : RealColor) (cs : List Int8) :
    c80WriteColor s back fore cs = ((cs.takeWhile (· ≠ 0)).map fun c => .putcColor c back fore).foldl call s := by
  induction cs generalizing s with
  | nil => rfl
  | cons c cs ih =>
    rw [c80WriteColor]
    by_cases hc : c = 0
    · simp [hc]
    · rw [if_neg hc, ih, List.takeWhile_cons_of_pos (by simpa using hc)]
      rfl

/-- A string that is written on the screen is written on the terminal. -/
theorem Window.writeColor {s : Console} {t : Terminal} (h : Window s t) (back fore : RealColor) (cs : List Int8) :
    Window (c80WriteColor s back fore cs) ((cs.takeWhile (· ≠ 0)).foldl (fun t c => t.putc c (attrOf back fore)) t) := by
  have hrun := h.calls ((cs.takeWhile (· ≠ 0)).map fun c => .putcColor c back fore)
  rwa [← c80WriteColor_eq_foldl, List.foldl_map] at hrun

theorem Window.write {s : Console} {t : Terminal} (h : Window s t) (cs : List Int8) :
    Window (c80Write s cs) ((cs.takeWhile (· ≠ 0)).foldl (fun t c => t.putc c (attrOf .black .white)) t) := by
  rw [c80Write_eq]
  exact h.writeColor .black .white cs

/-- **The console is a window.** From `c80_clear` on, after any calls, the cursor is on the screen, nothing was
written behind the screen, and the screen shows the rows of the terminal that begin with the number of scrolls. The two
functions do the same in every state. -/
theorem console_is_window (video : Nat → UInt16) (x y index : UInt8) (crtc : UInt8 → UInt8) (calls : List Call) :
    let s := calls.foldl call (c80Clear ⟨⟨video, []⟩, x, y, index, crtc, 0⟩)
    let t := calls.foldl Terminal.call .fresh
    (s.cursorX.toNat < 80 ∧ s.cursorY.toNat < 25) ∧
      (∀ i ∈ s.video.written, i < 2000) ∧
      (∀ r < 25, ∀ x < 80, s.video.cell (80 * r + x) = t.cell (s.scrolls + r) x) ∧
      ∀ s c, c80Put s c = c80PutcColor s c .black .white := by
  intro s t
  have h : Window s t := (c80Clear_window video x y index crtc).calls calls
  exact ⟨⟨h.x_lt, h.y_lt⟩, h.written, h.cells, c80Put_eq⟩

end RedMagic.C80
