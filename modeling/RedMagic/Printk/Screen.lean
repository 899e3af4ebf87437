import RedMagic.Console.Window
import RedMagic.Printk.Grammar

/-!
# From a format to the screen (src/printk.c:15-53)

| here | there |
| --- | --- |
| `sprintf` | `sprintf`: what is in the buffer, and the result |
| `printk`, `printkColor` | `printk`, `printk_color` |

`printk` formats into a static buffer of 1024 bytes and writes it on the console. `top` is the number of bytes of the buffer that
have been written to, over all calls; it is not part of the code. A `char` of the text is signed on the console.
-/

namespace RedMagic.Printk

open C80

/-- `sizeof(buff)` -/
def buffSize : Nat := 1024

/-- `buff[i] = '\0'` comes on top of the NUL that `vsprintf` has written. -/
def sprintf (env : Env) (format : List UInt8) : Option (List UInt8 × Int32) :=
  (vsprintf env format 0).map fun r => (r.buff.set r.ret.toInt.toNat 0, r.ret)

structure PrintSt where
  console : Console
  top : Nat

def printkColor (back fore : RealColor) (env : Env) (format : List UInt8) (s : PrintSt) : Option PrintSt :=
  (sprintf env format).map fun r => ⟨c80WriteColor s.console back fore (r.1.map UInt8.toInt8), max s.top r.1.length⟩

def printk (env : Env) (format : List UInt8) (s : PrintSt) : Option PrintSt :=
  (sprintf env format).map fun r => ⟨c80Write s.console (r.1.map UInt8.toInt8), max s.top r.1.length⟩

/-- A call with a format that consists of items. -/
structure PrintCall where
  colors : Option (RealColor × RealColor)
  env : Env
  items : List Item

namespace PrintCall

def format (a : PrintCall) : List UInt8 := a.items.flatMap Item.text

/-- The text of the call. -/
def text (a : PrintCall) : List UInt8 := renderAll a.env 0 a.items

def run (s : PrintSt) (a : PrintCall) : Option PrintSt :=
  match a.colors with
  | some c => printkColor c.1 c.2 a.env a.format s
  | none => printk a.env a.format s

def attr (a : PrintCall) : UInt16 :=
  match a.colors with
  | some c => attrOf c.1 c.2
  | none => attrOf .black .white

/-- What the call is for: its text on the terminal, up to a NUL that `%c` may have put into it. -/
def feed (t : Terminal) (a : PrintCall) : Terminal :=
  ((a.text.takeWhile (· ≠ 0)).map UInt8.toInt8).foldl (fun t c => t.putc c a.attr) t

end PrintCall

theorem toInt8_eq_zero {c : UInt8} : c.toInt8 = 0 ↔ c = 0 := by
  constructor
  · intro h
    have h' := congrArg Int8.toUInt8 h
    rwa [UInt8.toUInt8_toInt8] at h'
  · rintro rfl
    rfl

/-- The characters that the console takes are those of the text, up to the first NUL. -/
theorem takeWhile_buff (text : List UInt8) :
    ((text ++ [0]).map UInt8.toInt8).takeWhile (· ≠ 0) = (text.takeWhile (· ≠ 0)).map UInt8.toInt8 := by
  induction text with
  | nil => rfl
  | cons c cs ih =>
    by_cases hc : c = 0
    · subst hc
      rfl
    · have hc' : c.toInt8 ≠ 0 := fun h => hc (toInt8_eq_zero.1 h)
      rw [List.cons_append, List.map_cons, List.takeWhile_cons_of_pos (by simpa using hc'), ih,
        List.takeWhile_cons_of_pos (by simpa using hc), List.map_cons]

theorem sprintf_items (env : Env) (items : List Item) (hlen : (renderAll env 0 items).length < 2 ^ 31) :
    sprintf env (items.flatMap Item.text) =
      some (renderAll env 0 items ++ [0], Int32.ofNat (renderAll env 0 items).length) := by
  have hret : (Int32.ofNat (renderAll env 0 items).length).toInt = (renderAll env 0 items).length :=
    Int32.toInt_ofNat_of_lt hlen
  rw [sprintf, vsprintf_items, Option.map_some]
  simp only [hret, Int.toNat_natCast]
  rw [List.set_append_right _ _ (Nat.le_refl _), Nat.sub_self, List.set_cons_zero]

section
variable {s : PrintSt} {t : Terminal}

/-- One call. -/
theorem PrintCall.run_spec (h : Window s.console t) (a : PrintCall) (hlen : a.text.length < buffSize) :
    ∃ s', a.run s = some s' ∧ Window s'.console (a.feed t) ∧ s'.top = max s.top (a.text.length + 1) := by
  have hsprintf := sprintf_items a.env a.items (Nat.lt_trans hlen (by decide))
  have htop : (renderAll a.env 0 a.items ++ [0]).length = a.text.length + 1 := by
    rw [List.length_append]
    rfl
  cases hc : a.colors with
  | some c =>
    refine ⟨⟨c80WriteColor s.console c.1 c.2 ((a.text ++ [0]).map UInt8.toInt8), _⟩, ?_, ?_, congrArg (max s.top) htop⟩
    · rw [PrintCall.run, hc]
      exact congrArg (Option.map _) hsprintf
    · have hw := h.writeColor c.1 c.2 ((a.text ++ [0]).map UInt8.toInt8)
      rw [takeWhile_buff] at hw
      rw [PrintCall.feed, PrintCall.attr, hc]
      exact hw
  | none =>
    refine ⟨⟨c80Write s.console ((a.text ++ [0]).map UInt8.toInt8), _⟩, ?_, ?_, congrArg (max s.top) htop⟩
    · rw [PrintCall.run, hc]
      exact congrArg (Option.map _) hsprintf
    · have hw := h.write ((a.text ++ [0]).map UInt8.toInt8)
      rw [takeWhile_buff] at hw
      rw [PrintCall.feed, PrintCall.attr, hc]
      exact hw

theorem PrintCall.runs_spec (h : Window s.console t) (htop : s.top ≤ buffSize) (calls : List PrintCall)
    (hlen : ∀ a ∈ calls, a.text.length < buffSize) :
    ∃ s', calls.foldlM PrintCall.run s = some s' ∧ Window s'.console (calls.foldl PrintCall.feed t) ∧ s'.top ≤ buffSize := by
  induction calls generalizing s t with
  | nil => exact ⟨s, rfl, h, htop⟩
  | cons a calls ih =>
    have hfit := hlen a List.mem_cons_self
    obtain ⟨s₁, hrun, hw, htop₁⟩ := a.run_spec h hfit
    obtain ⟨s', hruns, hw', htop'⟩ := ih hw (by rw [htop₁]; omega) fun b hb => hlen b (List.mem_cons_of_mem _ hb)
    exact ⟨s', by rw [List.foldlM_cons, hrun]; exact hruns, hw', htop'⟩

end

/-- **What is printed is on the screen.** From `c80_clear` on, after any calls of `printk` and `printk_color` whose texts fit into
the buffer: no byte behind the buffer and no cell behind the screen was written, and the screen shows the 25 rows of a terminal
that was fed with the renderings of the formats, in order and in their colours. -/
theorem printk_on_screen (video : Nat → UInt16) (x y index : UInt8) (crtc : UInt8 → UInt8) (calls : List PrintCall)
    (hlen : ∀ a ∈ calls, a.text.length < buffSize) :
    ∃ s, calls.foldlM PrintCall.run ⟨c80Clear ⟨⟨video, []⟩, x, y, index, crtc, 0⟩, 0⟩ = some s ∧ s.top ≤ buffSize ∧
      (∀ i ∈ s.console.video.written, i < 2000) ∧
      let t := calls.foldl PrintCall.feed .fresh
      (∀ r < 25, ∀ c < 80, s.console.video.cell (80 * r + c) = t.cell (s.console.scrolls + r) c) ∧
      t.x = s.console.cursorX.toNat ∧ t.y = s.console.scrolls + s.console.cursorY.toNat := by
  obtain ⟨s, hrun, hw, htop⟩ := PrintCall.runs_spec (s := ⟨c80Clear ⟨⟨video, []⟩, x, y, index, crtc, 0⟩, 0⟩)
    (c80Clear_window video x y index crtc) (Nat.zero_le _) calls hlen
  exact ⟨s, hrun, htop, hw.written, hw.cells, hw.x, hw.y⟩

/-- `printk("%d\n", 42)` on a cleared screen. -/
def print42 : PrintCall where
  colors := none
  env := ⟨fun _ => 42, fun _ => ⟨[48, 49], by decide⟩⟩
  items := [.directive ⟨[], none, none, none, .num .d⟩, .lit ⟨10, by decide, by decide⟩]

theorem print42_text : print42.text = [52, 50, 10] := by decide +kernel

theorem printk_on_screen_print42 :
    ∃ s, [print42].foldlM PrintCall.run ⟨c80Clear ⟨⟨fun _ => 0, []⟩, 7, 8, 0, fun _ => 0, 0⟩, 0⟩ = some s ∧ s.top ≤ buffSize ∧
      s.console.video.cell 0 = (print42.feed .fresh).cell s.console.scrolls 0 ∧ (print42.feed .fresh).cell 0 0 = 0x0F34 := by
  have hlen : ∀ a ∈ [print42], a.text.length < buffSize := by
    intro a ha
    obtain rfl := List.mem_singleton.1 ha
    rw [print42_text]
    decide
  obtain ⟨s, hrun, htop, -, hcells, -⟩ := printk_on_screen (fun _ => 0) 7 8 0 (fun _ => 0) [print42] hlen
  refine ⟨s, hrun, htop, hcells 0 (by decide) 0 (by decide), ?_⟩
  rw [PrintCall.feed, print42_text]
  rfl

end RedMagic.Printk
