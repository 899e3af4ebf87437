import RedMagic.Lib.Memory

/-!
# The text console (src/C80.c)

| here | there |
| --- | --- |
| `Console.video`      | `video_memory`; index `i` is the cell `video_memory[i]`, and the memory goes on behind the screen |
| `cursorX`, `cursorY` | `cursor_x`, `cursor_y` |
| `crtcIndex`, `crtc`  | the VGA board behind the ports `0x3D4` and `0x3D5` |
| `moveCursor`, `scroll` | `C80.c:17-53` |
| `c80Put`, `c80Clear`, `c80Write` | `C80.c:56-131` |
| `c80PutcColor`, `c80WriteColor` | `C80.c:133-169` |

`char` is signed. `scrolls` counts the times that `scroll` moved the text; it is not part of the code.
-/

namespace RedMagic.C80

open Memory

/-- `real_color_t`. -/
inductive RealColor where
  | black | blue | green | cyan | red | magenta | brown | lightGrey
  | darkGrey | lightBlue | lightGreen | lightCyan | lightRed | lightMagenta | lightBrown | white
deriving DecidableEq, Repr

/-- A colour as `_u8`. -/
def RealColor.toU8 : RealColor → UInt8
  | .black => 0
  | .blue => 1
  | .green => 2
  | .cyan => 3
  | .red => 4
  | .magenta => 5
  | .brown => 6
  | .lightGrey => 7
  | .darkGrey => 8
  | .lightBlue => 9
  | .lightGreen => 10
  | .lightCyan => 11
  | .lightRed => 12
  | .lightMagenta => 13
  | .lightBrown => 14
  | .white => 15

structure Console where
  video : Mem UInt16
  cursorX : UInt8
  cursorY : UInt8
  crtcIndex : UInt8
  crtc : UInt8 → UInt8
  scrolls : Nat

/-- `outb`, on the two ports of the VGA board. -/
def outb (s : Console) (port : UInt16) (v : UInt8) : Console :=
  if port = 0x3D4 then { s with crtcIndex := v }
  else if port = 0x3D5 then { s with crtc := Function.update s.crtc s.crtcIndex v }
  else s

def moveCursor (s : Console) : Console :=
  let cursorLocation : UInt16 := s.cursorY.toUInt16 * 80 + s.cursorX.toUInt16
  let s := outb s 0x3D4 14
  let s := outb s 0x3D5 (cursorLocation >>> 8).toUInt8
  let s := outb s 0x3D4 15
  outb s 0x3D5 cursorLocation.toUInt8

/-- A space character with the default colour attributes. -/
def blank : UInt16 :=
  let attributeByte : UInt8 := ((0 : UInt8) <<< 4) ||| (15 &&& 0x0F)
  (0x20 : UInt16) ||| (attributeByte.toUInt16 <<< 8)

def scroll (s : Console) : Console :=
  if 25 ≤ s.cursorY then
    let video := s.video.copyDown 80 (24 * 80)
    { s with video := video.fill (24 * 80) 80 blank, cursorY := 24, scrolls := s.scrolls + 1 }
  else s

/-- `c | attribute`, as the `_u16` that is stored. -/
def cellOf (c : Int8) (attr : UInt16) : UInt16 := c.toInt16.toUInt16 ||| attr

/-- `video_memory[cursor_y * 80 + cursor_x]`. -/
def location (s : Console) : Nat := s.cursorY.toNat * 80 + s.cursorX.toNat

def c80Put (s : Console) (c : Int8) : Console :=
  let backColour : UInt8 := 0
  let foreColour : UInt8 := 15
  let attributeByte := (backColour <<< 4) ||| (foreColour &&& 0x0F)
  let attr := attributeByte.toUInt16 <<< 8
  let s :=
    if c = 0x08 ∧ s.cursorX ≠ 0 then { s with cursorX := s.cursorX - 1 }
    else if c = 0x09 then { s with cursorX := (s.cursorX + 8) &&& ~~~(8 - 1) }
    else if c = 0x0D then { s with cursorX := 0 }
    else if c = 0x0A then { s with cursorX := 0, cursorY := s.cursorY + 1 }
    else if 0x20 ≤ c then
      { s with video := s.video.write (location s) (cellOf c attr), cursorX := s.cursorX + 1 }
    else s
  let s := if 80 ≤ s.cursorX then { s with cursorX := 0, cursorY := s.cursorY + 1 } else s
  moveCursor (scroll s)

def c80Clear (s : Console) : Console :=
  moveCursor { s with video := s.video.fill 0 (80 * 25) blank, cursorX := 0, cursorY := 0 }

/-- The characters of a string end with NUL. -/
def c80Write (s : Console) : List Int8 → Console
  | [] => s
  | c :: cs => if c = 0 then s else c80Write (c80Put s c) cs

def c80PutcColor (s : Console) (c : Int8) (back fore : RealColor) : Console :=
  let backColor := back.toU8
  let foreColor := fore.toU8
  let attributeByte := (backColor <<< 4) ||| (foreColor &&& 0x0F)
  let attr := attributeByte.toUInt16 <<< 8
  let s :=
    if c = 0x08 ∧ s.cursorX ≠ 0 then { s with cursorX := s.cursorX - 1 }
    else if c = 0x09 then { s with cursorX := (s.cursorX + 8) &&& ~~~(8 - 1) }
    else if c = 0x0D then { s with cursorX := 0 }
    else if c = 0x0A then { s with cursorX := 0, cursorY := s.cursorY + 1 }
    else if 0x20 ≤ c then
      { s with video := s.video.write (location s) (cellOf c attr), cursorX := s.cursorX + 1 }
    else s
  let s := if 80 ≤ s.cursorX then { s with cursorX := 0, cursorY := s.cursorY + 1 } else s
  moveCursor (scroll s)

def c80WriteColor (s : Console) (back fore : RealColor) : List Int8 → Console
  | [] => s
  | c :: cs => if c = 0 then s else c80WriteColor (c80PutcColor s c back fore) back fore cs

/-- A call of one of the two character functions. -/
inductive Call where
  | put (c : Int8)
  | putcColor (c : Int8) (back fore : RealColor)
deriving DecidableEq, Repr

def call (s : Console) : Call → Console
  | .put c => c80Put s c
  | .putcColor c back fore => c80PutcColor s c back fore

theorem c80Put_eq (s : Console) (c : Int8) : c80Put s c = c80PutcColor s c .black .white := rfl

theorem c80Write_eq (s : Console) (cs : List Int8) : c80Write s cs = c80WriteColor s .black .white cs := by
  induction cs generalizing s with
  | nil => rfl
  | cons c cs ih => rw [c80Write, c80WriteColor, ih, c80Put_eq]

end RedMagic.C80
