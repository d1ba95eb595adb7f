import Mathlib

/-!
# Colour sequences in text

A colour sequence is `ESC [ … m`.  `strip` takes them out of a text; `Shows s t` says that `s`
shows as `t`, whatever comes behind it.

* `shows_plain`, `shows_seq` — text without `ESC` shows as itself, a sequence as nothing;
* `Shows.append`, `Shows.flatMap` — texts one after the other;
* `Shows.strip_eq` — what `strip` leaves.
-/

set_option autoImplicit false

namespace Ansi

def esc : Char := '\x1b'

/-- The sequence with a code. -/
def seq (code : List Char) : List Char := esc :: '[' :: (code ++ ['m'])

/-- Text in a colour, up to the sequence that resets it. -/
def coloured (code text : List Char) : List Char := seq code ++ text ++ seq ['0']

/-- The text without its sequences; inside one with the flag. -/
def stripFrom : Bool → List Char → List Char
  | _, [] => []
  | false, c :: s => if c = esc then stripFrom true s else c :: stripFrom false s
  | true, c :: s => if c = 'm' then stripFrom false s else stripFrom true s

def strip (s : List Char) : List Char := stripFrom false s

/-- The text `s` shows as `t`. -/
def Shows (s t : List Char) : Prop := ∀ rest, strip (s ++ rest) = t ++ strip rest

theorem Shows.strip_eq {s t : List Char} (h : Shows s t) : strip s = t := by
  have hend := h []
  rwa [List.append_nil, strip, strip, stripFrom, List.append_nil] at hend

theorem shows_nil : Shows [] [] := fun _ => rfl

theorem Shows.append {s s' t t' : List Char} (h : Shows s t) (h' : Shows s' t') :
    Shows (s ++ s') (t ++ t') := by
  intro rest
  rw [List.append_assoc, h, h', List.append_assoc]

theorem shows_char {c : Char} (hc : c ≠ esc) : Shows [c] [c] := by
  intro rest
  rw [strip, List.singleton_append, stripFrom, if_neg hc]
  rfl

/-- **Text without `ESC`** shows as itself. -/
theorem shows_plain : ∀ {s : List Char}, esc ∉ s → Shows s s
  | [], _ => shows_nil
  | c :: s, h => by
    rw [List.mem_cons, not_or] at h
    exact (shows_char (Ne.symm h.1)).append (shows_plain h.2)

theorem stripFrom_code : ∀ {code : List Char} (rest : List Char), 'm' ∉ code →
    stripFrom true (code ++ 'm' :: rest) = stripFrom false rest
  | [], _, _ => if_pos rfl
  | c :: code, rest, h => by
    rw [List.mem_cons, not_or] at h
    rw [List.cons_append, stripFrom, if_neg (Ne.symm h.1), stripFrom_code rest h.2]

/-- **A sequence** shows as nothing. -/
theorem shows_seq {code : List Char} (h : 'm' ∉ code) : Shows (seq code) [] := by
  intro rest
  have hcode := stripFrom_code rest h
  rw [strip, seq, List.cons_append, stripFrom, if_pos rfl, List.cons_append, stripFrom,
    if_neg (by decide), List.append_assoc, List.singleton_append, hcode]
  rfl

/-- Text in a colour shows as the text does. -/
theorem Shows.coloured {code s t : List Char} (hcode : 'm' ∉ code) (h : Shows s t) :
    Shows (Ansi.coloured code s) t := by
  have hreset : 'm' ∉ ['0'] := by decide
  have hall := ((shows_seq hcode).append h).append (shows_seq hreset)
  rwa [List.nil_append, List.append_nil] at hall

/-- A list of texts shows as the list of what they show as. -/
theorem Shows.flatMap {α : Type} {f g : α → List Char} :
    ∀ {l : List α}, (∀ x ∈ l, Shows (f x) (g x)) → Shows (l.flatMap f) (l.flatMap g)
  | [], _ => shows_nil
  | x :: l, h => by
    rw [List.flatMap_cons, List.flatMap_cons]
    exact (h x List.mem_cons_self).append
      (Shows.flatMap fun y hy => h y (List.mem_cons_of_mem _ hy))

end Ansi
