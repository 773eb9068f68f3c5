/-
The writer of `csapp.c`.

Everything the server writes goes through `Rio_writen`, which calls `write` until the
kernel has taken the whole buffer.  What the calls of `write` return is given in advance,
one entry for each call; the writer waits for ever when there are no more.
-/
import ArmSimulator.Base.Halting
import ArmSimulator.Model.Gdb

namespace ArmSimulator

namespace Csapp

/-- What one call of `write` does: it takes at most so many bytes, or it fails. -/
inductive WriteResult where
  | taken (count : Nat)
  | failed (errno : Nat)
  deriving DecidableEq

def eintr : Nat := 4

/-- A connection, by the bytes that have been taken from the program, with `errno`. -/
structure Connection where
  taken : List (BitVec 8)
  errno : Nat
  deriving DecidableEq

/-- `write (fd, bufp, nleft)`.  A call that does not fail leaves `errno` as it is. -/
def write (result : WriteResult) (bufp : List (BitVec 8)) (c : Connection) : Int × Connection :=
  match result with
  | .taken count => (min count bufp.length, { c with taken := c.taken ++ bufp.take count })
  | .failed errno => (-1, { c with errno := errno })

/-- What `rio_writen` returns, if it does, and the calls of `write` that are left. -/
structure Written where
  value : Option Int
  connection : Connection
  results : List WriteResult

/-- The loop of `rio_writen`. -/
def writeLoop (n : Nat) (results : List WriteResult) (bufp : List (BitVec 8)) (c : Connection) :
    Written :=
  if bufp = [] then { value := some n, connection := c, results := results }
  else
    match results with
    | [] => { value := none, connection := c, results := [] }
    | result :: rest =>
      let (nwritten, c) := write result bufp c
      if nwritten ≤ 0 then
        if c.errno = eintr then writeLoop n rest bufp c
        else { value := some (-1), connection := c, results := rest }
      else writeLoop n rest (bufp.drop nwritten.toNat) c

def rioWriten (usrbuf : List (BitVec 8)) (c : Connection) (results : List WriteResult) : Written :=
  writeLoop usrbuf.length results usrbuf c

structure Wire where
  connection : Connection
  results : List WriteResult

/-- `Rio_writen`. -/
def checkedRioWriten (usrbuf : List (BitVec 8)) : Halting Stop Empty Wire Unit := fun w =>
  let o := rioWriten usrbuf w.connection w.results
  { value := match o.value with
      | none => .error .running
      | some n => if n = usrbuf.length then .ok () else .error .exit
    state := { connection := o.connection, results := o.results }
    trace := [] }

/-- The writes of the server, one after the other.  A write that fails is the last. -/
def sendAll : List (List (BitVec 8)) → Halting Stop Empty Wire Unit
  | [] => pure ()
  | bytes :: rest => do
    checkedRioWriten bytes
    sendAll rest

end Csapp

end ArmSimulator
