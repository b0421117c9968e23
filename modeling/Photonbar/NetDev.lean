import Photonbar.Ping
import Photonbar.Scan

/-!
# Reading `/proc/net/dev` (`ping.h`)

`getNetworkIo` with its calls and its parser. A pointer into `buf` is an index; the bytes behind
the NUL are never written, so that a look at one of them fails. Each of the loops gets `n` passes;
the parser gives itself as many as the buffer has bytes, and one more.

The parser has no end pointer: every loop stops at the NUL by a test of its own, and the outer loop
as well. First two lines of headers are passed. Then each iteration skips the blanks in front of a
name, looks whether it is the loopback interface, and goes through the columns of all others: the
first one is received, the ninth is sent. `fast_atoull` passes over anything that is no digit, and
so columns need no separate treatment, and the end of a line is none.
-/

namespace Photonbar

namespace NetDev

open Scan

/-- The digits of a decimal number. -/
def isdigit (c : UInt8) : Bool := 48 ≤ c ∧ c ≤ 57

/-- The second loop of `fast_atoull`: the number up to a pointer, and the digits from there on. -/
def digitLoop (mem : Mem) : Nat → UInt64 → Nat → Except Failure (UInt64 × Nat)
  | 0, _, _ => .error .endless
  | n + 1, val, p => do
    let c ← mem p
    if isdigit c then digitLoop mem n (val * 10 + (c - 48).toUInt64) (p + 1) else return (val, p)

/-- `fast_atoull`, with the pointer that it leaves. -/
def fast_atoull (mem : Mem) (n p : Nat) : Except Failure (UInt64 × Nat) := do
  let p ← skip mem (fun c => c ≠ 0 && (c < 48 || c > 57)) n p
  digitLoop mem n 0 p

/-- `for (int i = 0; i < k; ++i) fast_atoull(p)`. -/
def skipColumns (mem : Mem) (n : Nat) : Nat → Nat → Except Failure Nat
  | 0, p => .ok p
  | k + 1, p => do
    let (_, p) ← fast_atoull mem n p
    skipColumns mem n k p

/-- The loop over the headers: `nl` newlines are passed. -/
def skipHeaders (mem : Mem) : Nat → Nat → Nat → Except Failure Nat
  | 0, _, _ => .error .endless
  | n + 1, nl, p =>
    if nl < 2 then do
      let c ← mem p
      if c = 0 then return p else skipHeaders mem n (if c = 10 then nl + 1 else nl) (p + 1)
    else .ok p

/-- `p[0] == 'l' && p[1] == 'o' && p[2] == ':'`. -/
def isLoopback (mem : Mem) (p : Nat) : Except Failure Bool := do
  if (← mem p) = 108 then
    if (← mem (p + 1)) = 111 then return (← mem (p + 2)) = 58 else return false
  else return false

/-- The variables of the outer loop. -/
structure Parser where
  p : Nat
  sent : UInt64
  recv : UInt64
  deriving DecidableEq

/-- One iteration of the outer loop: whether the loop goes on, and the variables after it. -/
def iteration (mem : Mem) (n : Nat) (s : Parser) : Except Failure (Bool × Parser) := do
  let p ← skip mem (fun c => c = 32) n s.p
  if (← mem p) = 0 then
    return (false, { s with p })
  else if ← isLoopback mem p then
    let p ← skip mem (fun c => c ≠ 0 && c ≠ 10) n p
    let p ← skipOne mem (fun c => c ≠ 0) p
    return (true, { s with p })
  else
    let p ← skip mem (fun c => c ≠ 0 && c ≠ 58) n p
    let p ← skipOne mem (fun c => c = 58) p
    let (recv, p) ← fast_atoull mem n p
    let p ← skipColumns mem n 7 p
    let (sent, p) ← fast_atoull mem n p
    let p ← skip mem (fun c => c ≠ 0 && c ≠ 10) n p
    let p ← skipOne mem (fun c => c ≠ 0) p
    return (true, ⟨p, s.sent + sent, s.recv + recv⟩)

/-- The outer loop. -/
def outerLoop (mem : Mem) (n : Nat) : Nat → Parser → Except Failure Parser
  | 0, _ => .error .endless
  | k + 1, s => do
    if (← mem s.p) = 0 then
      return s
    else
      let (go, s) ← iteration mem n s
      if go then outerLoop mem n k s else return s

/-- The parser, with `n` passes for each loop. -/
def parse (mem : Mem) (n : Nat) : Except Failure Parser := do
  let p ← skipHeaders mem n 0 0
  outerLoop mem n n ⟨p, 0, 0⟩

/-- `sizeof(buf)`. -/
def BUF_SIZE : Nat := 4096

/-- What is in `buf`: the bytes that were read, and a NUL. -/
def stored (bytes : Bytes) : Mem := fun i =>
  if h : i < bytes.length then .ok bytes[i]
  else if i = bytes.length then .ok 0
  else .error (.index i)

/-- What comes of the system calls of `getNetworkIo`. -/
structure Calls where
  /-- what `lseek` returns -/
  seek : Int
  /-- what there is to read; `none` where `read` fails -/
  read : Option Bytes

/-- `getNetworkIo`, for what its parameters hold before: `sent` and `recv` after it. -/
def getNetworkIo (netDevFd : Int) (calls : Calls) (sent recv : UInt64) :
    Except Failure (UInt64 × UInt64) :=
  if netDevFd < 0 then .ok (sent, recv)
  else if calls.seek < 0 then .ok (sent, recv)
  else
    match calls.read.map (List.take (BUF_SIZE - 1)) with
    | none => .ok (sent, recv)
    | some [] => .ok (sent, recv)
    | some bytes => do
      let s ← parse (stored bytes) (BUF_SIZE + 1)
      return (s.sent, s.recv)

end NetDev

end Photonbar
