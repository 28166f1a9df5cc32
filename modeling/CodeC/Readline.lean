import CodeC.Library.Loop
import Mathlib.Data.List.Basic

/-!
# Lines from a descriptor: `20220916-readline/readline.cpp`

`readline` reads byte after byte into a static buffer of 1024 bytes and makes a string of what
stands before the newline. The descriptor is the list of the bytes it still delivers.
-/

namespace CodeC.Readline
open Library

/-- `sizeof(buf)` -/
def bufSize : ℕ := 1024

/-- The bytes still to be read, and the static buffer, which keeps its content from call to
call. -/
structure State where
  stream : List UInt8
  buf : List UInt8

/-- `read(fd, buf+i, 1)`: the number of bytes read, 0 at the end of the file -/
def read (s : State) (i : ℕ) : ℕ × State :=
  match s.stream with
  | [] => (0, s)
  | b :: rest => (1, ⟨rest, s.buf.set i b⟩)

/-- `std::string(buf)` -/
def cString (buf : List UInt8) : List UInt8 := buf.takeWhile (· ≠ 0)

/-- `buf[i] = '\0'; str = std::string(buf); return true;` -/
def terminate (s : State) (i : ℕ) : Option (List UInt8) × State :=
  (some (cString (s.buf.set i 0)), ⟨s.stream, s.buf.set i 0⟩)

/-- The loop from `i` on, with `n` rounds to go. The return value `true` comes with `str`. -/
def scan : ℕ → ℕ → State → Option (List UInt8) × State
  | 0, _, s => terminate s (bufSize - 1)
  | n + 1, i, s =>
    let ret := (read s i).1
    let s := (read s i).2
    if ret ≤ 0 ∧ i = 0 then (none, s)
    else if (ret ≤ 0 ∧ i ≠ 0) ∨ s.buf.getD i 0 = 10 then terminate s i
    else scan n (i + 1) s

def readline (s : State) : Option (List UInt8) × State := scan bufSize 0 s

/-- A round of the loop of `main`, with the strings read so far -/
def body (r : State × List (List UInt8)) : Round (State × List (List UInt8)) (List (List UInt8)) :=
  match (readline r.1).1 with
  | some str => .again ((readline r.1).2, r.2 ++ [str])
  | none => .leave r.2

/-- The strings produced until `readline` returns false -/
def lines (fuel : ℕ) (s : State) : Option (List (List UInt8)) := loop body fuel (s, [])

end CodeC.Readline
