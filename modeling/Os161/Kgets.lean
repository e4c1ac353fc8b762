import Mathlib.Logic.Function.Basic

/-! `kgets`, which reads a line from the console. Characters are their codes; the echo is left out. -/

namespace Os161.Kgets

/-- The caller's buffer, how much of it is in use, and the indices stored to. -/
structure Line where
  pos : Nat
  buf : Nat → Int
  stores : List Nat

def Line.store (line : Line) (ch : Int) : Line :=
  { line with buf := Function.update line.buf line.pos ch, stores := line.pos :: line.stores }

/-- `while (pos > 0 && erase(buf[pos-1])) pos--` -/
def erased (erase : Int → Bool) (buf : Nat → Int) : Nat → Nat
  | 0 => 0
  | pos + 1 => if erase (buf pos) then erased erase buf pos else pos + 1

/-- One turn of the loop; `error` is a `break`. -/
def Line.key (maxlen : Nat) (line : Line) (ch : Int) : Except Line Line :=
  if ch = 10 ∨ ch = 13 then .error line
  else if 32 ≤ ch ∧ ch < 127 ∧ line.pos < maxlen - 1 then
    let stored := line.store ch
    .ok { stored with pos := line.pos + 1 }
  else if (ch = 8 ∨ ch = 127) ∧ line.pos > 0 then .ok { line with pos := line.pos - 1 }
  else if ch = 3 then .error { line with pos := 0 }
  else if ch = 18 then .ok (line.store 0)
  else if ch = 21 then .ok { line with pos := erased (fun _ => true) line.buf line.pos }
  else if ch = 23 then
    let pos := erased (· = 32) line.buf line.pos
    .ok { line with pos := erased (· ≠ 32) line.buf pos }
  else .ok line

/-- `none` while the loop waits for another key. -/
def kgets (maxlen : Nat) : List Int → Line → Option Line
  | [], _ => none
  | ch :: keys, line =>
    match line.key maxlen ch with
    | .error line => some (line.store 0)
    | .ok line => kgets maxlen keys line

end Os161.Kgets
