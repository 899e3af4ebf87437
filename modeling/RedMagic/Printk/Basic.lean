import Mathlib.Data.Nat.Bitwise
import RedMagic.Lib.Countdown

/-!
# Formatted output (src/printk.c:55-328)

| here | there |
| --- | --- |
| `skipAtoi`    | `skip_atoi` (`:57-68`) |
| `Flags`       | the bits `ZEROPAD` … `SMALL` (`:70-76`) |
| `divLoop`, `place`, `number` | the loop over `do_div`, what follows it, and `number` (`:78-165`) |
| `scanFlags`, `scanWidth`, `scanPrecision`, `skipQualifier`, `convert` | the parts of the loop body of `vsprintf` (`:183-322`), in their order |
| `vsprintf`    | `vsprintf` (`:167-328`) |

A format ends at its first NUL (`vsprintf`); inside, `[]` is the place where `*format` is 0. What is written through `str` is
appended to `Vst.text`; `va_list` is the index of the next argument. Every argument is one word; `Env.str` is the string that a
`char *` points to. The buffer does not overlap the format or a string.
-/

namespace RedMagic.Printk

open Countdown

/-- The characters of a string before its NUL. Like any object it is smaller than half of the address space. -/
structure CStr where
  chars : List UInt8
  lt : chars.length < 2 ^ 31

structure Env where
  arg : Nat → UInt32
  str : UInt32 → CStr

/-! ## Numbers -/

def isDigit (c : UInt8) : Bool := '0'.toUInt8 ≤ c && c ≤ '9'.toUInt8

/-- The number `i` read so far goes on with the digits of the text. -/
def skipAtoi : List UInt8 → Int32 → Int32 × List UInt8
  | [], i => (i, [])
  | c :: cs, i => if isDigit c then skipAtoi cs (i * 10 + c.toInt8.toInt32 - 48) else (i, c :: cs)

structure Flags where
  zeropad : Bool
  sign : Bool
  plus : Bool
  space : Bool
  left : Bool
  special : Bool
  small : Bool
deriving DecidableEq, Repr

def noFlags : Flags := ⟨false, false, false, false, false, false, false⟩

/-- `digits`. -/
def digits (small : Bool) : List UInt8 :=
  (if small then "0123456789abcdefghijklmnopqrstuvwxyz" else "0123456789ABCDEFGHIJKLMNOPQRSTUVWXYZ").toList.map Char.toUInt8

/-- `while (num != 0) tmp[i++] = do_div(num, base)`, with `room` places left in `tmp`; `none` = there is none left. -/
def divLoop (base : Nat) : Nat → Nat → Option (List Nat)
  | _, 0 => some []
  | 0, _ + 1 => none
  | room + 1, num + 1 => (divLoop base room ((num + 1) / base)).map fun tmp => (num + 1) % base :: tmp

/-- The character in front of the number, if any. -/
def signOf (num : UInt32) (type : Flags) : List UInt8 :=
  if type.sign && decide (num.toInt32 < 0) then ['-'.toUInt8]
  else if type.plus then ['+'.toUInt8]
  else if type.space then [' '.toUInt8]
  else []

/-- `0`, or `0x` in the case of the digits. -/
def baseOf (base : Nat) (type : Flags) : List UInt8 :=
  if type.special then
    if base = 8 then ['0'.toUInt8]
    else if base = 16 then ['0'.toUInt8, (digits type.small).getD 33 0]
    else []
  else []

/-- `num` after its sign is taken off. -/
def magnitude (num : UInt32) (type : Flags) : UInt32 :=
  if type.sign && decide (num.toInt32 < 0) then -num else num

/-- `size` after the sign and the prefix are taken off. -/
def afterHead (num : UInt32) (base : Nat) (size : Int32) (type : Flags) : Int32 :=
  let size := if signOf num type = [] then size else size - 1
  if type.special then
    if base = 16 then size - 2 else if base = 8 then size - 1 else size
  else size

/-- What is written for the digits in `tmp` (`:128-162`). -/
def place (tmp : List Nat) (num : UInt32) (base : Nat) (size precision : Int32) (type : Flags) : List UInt8 :=
  let c := if type.zeropad then '0'.toUInt8 else ' '.toUInt8
  let i := Int32.ofNat tmp.length
  let precision := if precision < i then i else precision
  let size := afterHead num base size type - precision
  let lead := if type.zeropad || type.left then ([], size) else post 0 ' '.toUInt8 size
  let fill := if type.left then ([], lead.2) else post 0 c lead.2
  let zeros := post i '0'.toUInt8 precision
  let trail := post 0 ' '.toUInt8 fill.2
  lead.1 ++ signOf num type ++ baseOf base type ++ fill.1 ++ zeros.1 ++
    tmp.reverse.map (fun d => (digits type.small).getD d 0) ++ trail.1

/-- `LEFT` turns `ZEROPAD` off. -/
def adjust (type : Flags) : Flags := if type.left then { type with zeropad := false } else type

/-- What `number` writes; `none` = it returns NULL or leaves `tmp`. -/
def number (num : UInt32) (base : Nat) (size precision : Int32) (type : Flags) : Option (List UInt8) :=
  if base < 2 ∨ 36 < base then none
  else
    let type := adjust type
    let n := magnitude num type
    let tmp := if n = 0 then some [0] else divLoop base 36 n.toNat
    tmp.map fun tmp => place tmp num base size precision type

/-! ## The parts of a directive -/

/-- The flags, up to the first other character. -/
def scanFlags : List UInt8 → Flags → Flags × List UInt8
  | [], f => (f, [])
  | c :: cs, f =>
    if c = '-'.toUInt8 then scanFlags cs { f with left := true }
    else if c = '+'.toUInt8 then scanFlags cs { f with plus := true }
    else if c = ' '.toUInt8 then scanFlags cs { f with space := true }
    else if c = '#'.toUInt8 then scanFlags cs { f with special := true }
    else if c = '0'.toUInt8 then scanFlags cs { f with zeropad := true }
    else (f, c :: cs)

structure Spec where
  flags : Flags
  fieldWidth : Int32
  precision : Int32
  /-- The next argument. -/
  pos : Nat
deriving DecidableEq, Repr

/-- The format is not moved past a `*`. -/
def scanWidth (env : Env) (d : Spec) (format : List UInt8) : Spec × List UInt8 :=
  match format with
  | [] => (d, [])
  | c :: _ =>
    if isDigit c then
      let r := skipAtoi format 0
      ({ d with fieldWidth := r.1 }, r.2)
    else if c = '*'.toUInt8 then
      let width := (env.arg d.pos).toInt32
      if width < 0 then
        ({ d with fieldWidth := -width, flags := { d.flags with left := true }, pos := d.pos + 1 }, format)
      else ({ d with fieldWidth := width, pos := d.pos + 1 }, format)
    else (d, format)

/-- What follows the `.`. -/
def scanDigits (env : Env) (d : Spec) (format : List UInt8) : Spec × List UInt8 :=
  match format with
  | [] => (d, [])
  | c :: _ =>
    if isDigit c then
      let r := skipAtoi format 0
      ({ d with precision := r.1 }, r.2)
    else if c = '*'.toUInt8 then ({ d with precision := (env.arg d.pos).toInt32, pos := d.pos + 1 }, format)
    else (d, format)

def scanPrecision (env : Env) (d : Spec) (format : List UInt8) : Spec × List UInt8 :=
  match format with
  | [] => (d, [])
  | c :: cs =>
    if c = '.'.toUInt8 then
      let r := scanDigits env d cs
      (if r.1.precision < 0 then { r.1 with precision := 0 } else r.1, r.2)
    else (d, format)

def skipQualifier : List UInt8 → List UInt8
  | [] => []
  | c :: cs => if c = 'h'.toUInt8 ∨ c = 'l'.toUInt8 ∨ c = 'L'.toUInt8 then cs else c :: cs

/-! ## `vsprintf` -/

structure Vst where
  text : List UInt8
  pos : Nat
  /-- What `%n` has stored, and where. -/
  stores : List (UInt32 × Int32)

def Vst.put (s : Vst) (t : List UInt8) : Vst := { s with text := s.text ++ t }

/-- Text that took one argument. -/
def Vst.putArg (s : Vst) (t : List UInt8) : Vst := { s with text := s.text ++ t, pos := s.pos + 1 }

def convChar (env : Env) (d : Spec) : List UInt8 :=
  let lead := if d.flags.left then ([], d.fieldWidth) else pre ' '.toUInt8 d.fieldWidth
  let trail := pre ' '.toUInt8 lead.2
  lead.1 ++ [(env.arg d.pos).toUInt8] ++ trail.1

def convStr (env : Env) (d : Spec) : List UInt8 :=
  let s := (env.str (env.arg d.pos)).chars
  let len := Int32.ofNat s.length
  let len := if d.precision < 0 then len else if d.precision < len then d.precision else len
  let lead := if d.flags.left then ([], d.fieldWidth) else post len ' '.toUInt8 d.fieldWidth
  let trail := post len ' '.toUInt8 lead.2
  lead.1 ++ s.take len.toInt.toNat ++ trail.1

def convNumber (env : Env) (s : Vst) (base : Nat) (d : Spec) (cs : List UInt8) : Option (Vst × List UInt8) :=
  (number (env.arg d.pos) base d.fieldWidth d.precision d.flags).map fun t => (s.putArg t, cs)

/-- The `switch` on the conversion; what is left of the format is behind the conversion character. -/
def convert (env : Env) (s : Vst) (d : Spec) : List UInt8 → Option (Vst × List UInt8)
  | [] => some (s.put ['%'.toUInt8], [])
  | c :: cs =>
    if c = 'c'.toUInt8 then some (s.putArg (convChar env d), cs)
    else if c = 's'.toUInt8 then some (s.putArg (convStr env d), cs)
    else if c = 'o'.toUInt8 then convNumber env s 8 d cs
    else if c = 'p'.toUInt8 then
      if d.fieldWidth = -1 then
        convNumber env s 16 { d with fieldWidth := 8, flags := { d.flags with zeropad := true } } cs
      else convNumber env s 16 d cs
    else if c = 'x'.toUInt8 then convNumber env s 16 { d with flags := { d.flags with small := true } } cs
    else if c = 'X'.toUInt8 then convNumber env s 16 d cs
    else if c = 'd'.toUInt8 ∨ c = 'i'.toUInt8 then
      convNumber env s 10 { d with flags := { d.flags with sign := true } } cs
    else if c = 'u'.toUInt8 then convNumber env s 10 d cs
    else if c = 'b'.toUInt8 then convNumber env s 2 d cs
    else if c = 'n'.toUInt8 then
      some ({ s with pos := s.pos + 1, stores := (env.arg d.pos, Int32.ofNat s.text.length) :: s.stores }, cs)
    else if c = '%'.toUInt8 then some (s.put [c], cs)
    else some (s.put ['%'.toUInt8, c], cs)

/-- The loop body behind a `%`. -/
def directive (env : Env) (s : Vst) (format : List UInt8) : Option (Vst × List UInt8) :=
  let r := scanFlags format noFlags
  let r := scanWidth env ⟨r.1, -1, -1, s.pos⟩ r.2
  let r := scanPrecision env r.1 r.2
  convert env { s with pos := r.1.pos } r.1 (skipQualifier r.2)

/-- The loop, for at most `n` rounds; `none` = it does not end in them, or `number` fails. -/
def vsprintfLoop (env : Env) : Nat → List UInt8 → Vst → Option Vst
  | _, [], s => some s
  | 0, _ :: _, _ => none
  | n + 1, c :: cs, s =>
    if c ≠ '%'.toUInt8 then vsprintfLoop env n cs (s.put [c])
    else (directive env s cs).bind fun r => vsprintfLoop env n r.2 r.1

structure Result where
  /-- What is in the buffer. -/
  buff : List UInt8
  ret : Int32
  /-- The argument after the last one read. -/
  pos : Nat
  stores : List (UInt32 × Int32)

/-- A round takes at least one character of the format. -/
def vsprintf (env : Env) (format : List UInt8) (pos : Nat) : Option Result :=
  let format := format.takeWhile (· ≠ 0)
  (vsprintfLoop env format.length format ⟨[], pos, []⟩).map fun s =>
    ⟨s.text ++ [0], Int32.ofNat s.text.length, s.pos, s.stores⟩

end RedMagic.Printk
