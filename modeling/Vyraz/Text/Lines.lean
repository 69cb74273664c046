namespace Vyraz.Text

def splitLines (bytes : List UInt8) : List (List UInt8) :=
  go bytes [] []
where
  go : List UInt8 → List UInt8 → List (List UInt8) → List (List UInt8)
    | [], [], done => done.reverse
    | [], line, done => (line.reverse :: done).reverse
    | b :: bytes, line, done =>
      if b = 10 then
        go bytes [] ((b :: line).reverse :: done)
      else
        go bytes (b :: line) done

def decode? (bytes : List UInt8) : Option (List Char) :=
  (String.fromUTF8? ⟨bytes.toArray⟩).map String.toList

theorem fromUTF8?_toUTF8 (text : String) : String.fromUTF8? text.toUTF8 = some text := by
  unfold String.fromUTF8?
  rw [String.toUTF8_eq_toByteArray, dif_pos text.isValidUTF8]
  rfl

def lines (bytes : ByteArray) : List (Option (List Char)) :=
  (splitLines bytes.toList).map decode?

def cutLineEnd (cs : List Char) : List Char × List Char :=
  match cs.reverse with
  | '\n' :: '\r' :: before => (before.reverse, ['\r', '\n'])
  | '\n' :: before => (before.reverse, ['\n'])
  | _ => (cs, [])

theorem cutLineEnd_append (cs : List Char) : (cutLineEnd cs).1 ++ (cutLineEnd cs).2 = cs := by
  unfold cutLineEnd
  split
  case h_1 before h =>
    have := congrArg List.reverse h
    simpa using this.symm
  case h_2 before _ h =>
    have := congrArg List.reverse h
    simpa using this.symm
  case h_3 => simp

end Vyraz.Text
