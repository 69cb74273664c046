import Mathlib.Tactic.SplitIfs
import Vyraz.Text.Lines
import Vyraz.Text.Offset

/-!
This module contains the bytes of texts. A byte that is a line feed is a character that is one: no
other character has such a byte, so line feeds can be found and counted in either.
-/

namespace Vyraz.Text

theorem byteArray_toList_loop (bytes : ByteArray) (i : Nat) (soFar : List UInt8) :
    ByteArray.toList.loop bytes i soFar = soFar.reverse ++ bytes.data.toList.drop i := by
  unfold ByteArray.toList.loop
  split
  . next h =>
    have hcons : bytes.data.toList.drop i = bytes.get! i :: bytes.data.toList.drop (i + 1) := by
      rw [List.drop_eq_getElem_cons (by simpa using h)]
      simp [ByteArray.get!, h]
    rw [byteArray_toList_loop, hcons]
    simp
  . next h =>
    rw [List.drop_of_length_le (by simpa using h)]
    simp
termination_by bytes.size - i

theorem byteArray_toList (bytes : ByteArray) : bytes.toList = bytes.data.toList := by
  rw [ByteArray.toList, byteArray_toList_loop]
  simp

def encode (cs : List Char) : List UInt8 :=
  cs.flatMap String.utf8EncodeChar

theorem toList_toUTF8 (text : String) : text.toUTF8.toList = encode text.toList := by
  rw [byteArray_toList, String.toUTF8_eq_toByteArray, ← String.utf8Encode_toList]
  simp [List.utf8Encode, encode]

theorem decode?_encode (cs : List Char) : decode? (encode cs) = some cs := by
  have hbytes : (⟨(encode cs).toArray⟩ : ByteArray) = (String.ofList cs).toUTF8 := by
    apply ByteArray.ext
    rw [← Array.toList_inj, ← byteArray_toList (String.ofList cs).toUTF8, toList_toUTF8,
      String.toList_ofList]
  rw [decode?, hbytes, fromUTF8?_toUTF8]
  simp

theorem mem_utf8EncodeChar {b : UInt8} {c : Char} (h : b ∈ String.utf8EncodeChar c) :
    b.toNat = c.val.toNat ∨ 128 ≤ b.toNat := by
  unfold String.utf8EncodeChar at h
  dsimp only at h
  split_ifs at h
  all_goals
    simp only [List.mem_cons, List.not_mem_nil, or_false] at h
  . rw [h, UInt8.toNat_ofNat']
    omega
  . rcases h with rfl | rfl <;> rw [UInt8.toNat_ofNat'] <;> omega
  . rcases h with rfl | rfl | rfl <;> rw [UInt8.toNat_ofNat'] <;> omega
  . rcases h with rfl | rfl | rfl | rfl <;> rw [UInt8.toNat_ofNat'] <;> omega

theorem lineFeed_notMem_encode {cs : List Char} (h : '\n' ∉ cs) : 10 ∉ encode cs := by
  intro hmem
  rcases List.mem_flatMap.1 hmem with ⟨c, hc, hbyte⟩
  apply h
  rcases mem_utf8EncodeChar hbyte with heq | hle
  . have hline : c = '\n' := Char.ext (UInt32.toNat_inj.1 heq.symm)
    rw [← hline]
    exact hc
  . contradiction

theorem encode_append (as bs : List Char) : encode (as ++ bs) = encode as ++ encode bs :=
  List.flatMap_append

theorem length_encode (cs : List Char) : (encode cs).length = size cs := by
  induction cs with
  | nil => rfl
  | cons c cs ih =>
    rw [size_cons, ← ih]
    simp [encode]

theorem count_encode (cs : List Char) : (encode cs).count 10 = cs.count '\n' := by
  induction cs with
  | nil => rfl
  | cons c cs ih =>
    have hlineFeed : encode ['\n'] = [10] := by decide
    rw [← List.singleton_append, encode_append, List.count_append, List.count_append, ih]
    by_cases h : c = '\n'
    . rw [h, hlineFeed]
      rfl
    . have hother : '\n' ∉ [c] := by simpa using Ne.symm h
      rw [List.count_eq_zero.2 hother]
      rw [List.count_eq_zero.2 (lineFeed_notMem_encode hother)]

def lineFeedsBefore (offset : Nat) (text : String) : Nat :=
  (text.toUTF8.toList.take offset).count 10

theorem lineFeedsBefore_size {text : String} {before after : List Char}
    (h : text.toList = before ++ after) :
    lineFeedsBefore (size before) text = before.count '\n' := by
  rw [lineFeedsBefore, toList_toUTF8, h, encode_append, ← length_encode, List.take_left,
    count_encode]

theorem lineFeedsBefore_mono {offset offset' : Nat} (h : offset ≤ offset') (text : String) :
    lineFeedsBefore offset text ≤ lineFeedsBefore offset' text := by
  apply List.Sublist.count_le
  apply List.IsPrefix.sublist
  apply List.take_prefix_take_left
  assumption

end Vyraz.Text
