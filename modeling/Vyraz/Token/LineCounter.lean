import Vyraz.Token.Scan

/-!
This module contains the finding of lines by a counter that only moves forward. It is asked for the
line of one token or error after the other and of the end of the source, and counts the line feeds
since the last question. An offset that it has left behind gets the line that it has come to.
-/

namespace Vyraz

structure LineCounter where
  offset : Nat
  line : Nat
deriving DecidableEq, Repr

namespace LineCounter

def start : LineCounter := ⟨0, 1⟩

def moveTo? (bytes : List UInt8) (offset : Nat) (counter : LineCounter) : Option LineCounter :=
  if counter.offset < offset then
    if offset ≤ bytes.length then
      let passed := (bytes.take offset).drop counter.offset
      some ⟨offset, counter.line + passed.count 10⟩
    else
      none
  else
    some counter

end LineCounter

namespace Scan

def recount? (bytes : List UInt8) (counter : LineCounter) :
    List Piece → Option (List Piece × LineCounter)
  | [] => some ([], counter)
  | piece :: pieces =>
    match piece.role with
    | .blank => do
      let (pieces, counter) ← recount? bytes counter pieces
      return (piece :: pieces, counter)
    | _ => do
      let counter ← counter.moveTo? bytes piece.start.offset
      let (pieces, last) ← recount? bytes counter pieces
      return ({ piece with start := ⟨piece.start.offset, counter.line⟩ } :: pieces, last)

end Scan

def scanCounting? (source : String) : Option Scanned := do
  let bytes := source.toUTF8.toList
  let stop := source.utf8ByteSize
  let (pieces, counter) ← Scan.recount? bytes .start (Scan.pieces .start source.toList)
  let counter ← counter.moveTo? bytes stop
  return ⟨pieces.filterMap Scan.Piece.token? ++ [⟨.eof, "", ⟨stop, stop⟩, counter.line⟩],
    pieces.filterMap Scan.Piece.error?⟩

end Vyraz
