import AaOS.Lib.Text

/-!
# UTF-8

The bytes of a text, and the text of a list of bytes, if there is one.  A text of a beginning
of the bytes of a text is a beginning of it.
-/

open List Text

namespace Utf8

def encode (text : Text) : List UInt8 := text.flatMap String.utf8EncodeChar

def decode (bytes : List UInt8) : Option Text :=
  (ByteArray.utf8Decode? bytes.toByteArray).map Array.toList

theorem toByteArray_encode (text : Text) :
  (encode text).toByteArray = text.utf8Encode
  := rfl

@[simp]
theorem decode_encode (text : Text) :
  decode (encode text) = some text
  := by
  rw [decode, toByteArray_encode, utf8Decode?_utf8Encode]
  rfl

theorem encode_append (text text' : Text) :
  encode (text ++ text') = encode text ++ encode text'
  := flatMap_append

theorem length_encode (text : Text) :
  (encode text).length = utf8Len text
  := by
  rw [encode, length_flatMap, utf8Len]
  congr 1
  apply map_congr_left
  intro c _
  apply String.length_utf8EncodeChar

theorem utf8Len_cons (c : Char) (text : Text) :
  utf8Len (c :: text) = c.utf8Size + utf8Len text
  := rfl

theorem utf8Len_append (text text' : Text) :
  utf8Len (text ++ text') = utf8Len text + utf8Len text'
  := by
  rw [← length_encode, encode_append, length_append, length_encode, length_encode]

variable {text : Text}

theorem encode_ne_nil (hne : text ≠ []) :
  encode text ≠ []
  := by
  intro hnil
  apply hne
  have hdec := decode_encode text
  rw [hnil, ← show encode [] = [] from rfl, decode_encode] at hdec
  cases hdec
  rfl

theorem encode_of_decode_eq_some {bytes : List UInt8} (hdec : decode bytes = some text) :
  encode text = bytes
  := by
  obtain ⟨chars, hchars, rfl⟩ := Option.map_eq_some_iff.mp hdec
  have hsome : bytes.toByteArray.utf8Decode?.isSome = true := by rw [hchars]; rfl
  have henc := ByteArray.utf8Encode_get_utf8Decode? (h := hsome)
  simp only [hchars, Option.get_some] at henc
  rw [← toByteArray_encode] at henc
  apply toByteArray_inj.mp henc

theorem exists_append_of_decode_eq_some {bytes rest : List UInt8} {text' : Text}
    (hbytes : bytes ++ rest = encode text) (hdec : decode bytes = some text') :
  ∃ after, text' ++ after = text
  := by
  rw [← encode_of_decode_eq_some hdec] at hbytes
  apply isPrefix_of_utf8Encode_append_eq_utf8Encode rest.toByteArray
  rw [← toByteArray_encode, ← toByteArray_encode, ← toByteArray_append, hbytes]

variable {c : Char} {b : UInt8}

theorem toNat_eq_of_mem_utf8EncodeChar (hmem : b ∈ String.utf8EncodeChar c) (hlt : b.toNat < 128) :
  c.toNat = b.toNat
  := by
  unfold String.utf8EncodeChar at hmem
  dsimp only at hmem
  split_ifs at hmem with h1 h2 h3
  · obtain rfl := mem_singleton.mp hmem
    rw [UInt8.toNat_ofNat', Nat.mod_eq_of_lt (by omega)]
    rfl
  all_goals
    simp only [mem_cons, not_mem_nil, or_false] at hmem
  · obtain rfl | rfl := hmem <;> simp only [UInt8.toNat_ofNat'] at hlt <;> omega
  · obtain rfl | rfl | rfl := hmem <;> simp only [UInt8.toNat_ofNat'] at hlt <;> omega
  · obtain rfl | rfl | rfl | rfl := hmem <;> simp only [UInt8.toNat_ofNat'] at hlt <;> omega

theorem mem_of_mem_encode (hmem : b ∈ encode text) (hlt : b.toNat < 128) (hc : c.toNat = b.toNat) :
  c ∈ text
  := by
  obtain ⟨c', hc', hb⟩ := mem_flatMap.mp hmem
  have heq := toNat_eq_of_mem_utf8EncodeChar hb hlt
  obtain rfl : c = c' := Char.toNat_inj.mp (hc.trans heq.symm)
  apply hc'

theorem getLast?_encode_ne (hlt : b.toNat < 128) (hc : c.toNat = b.toNat)
    (hlast : text.getLast? ≠ some c) :
  (encode text).getLast? ≠ some b
  := by
  obtain rfl | ⟨init, last, rfl⟩ := eq_nil_or_concat text
  · rintro ⟨⟩
  · intro hb
    apply hlast
    rw [concat_eq_append, encode_append, getLast?_append] at hb
    have hmem : b ∈ encode [last] := by
      apply mem_of_getLast?
      rcases hsome : (encode [last]).getLast? with _ | b'
      · cases encode_ne_nil (by simp) (getLast?_eq_none_iff.mp hsome)
      · rwa [hsome] at hb
    obtain rfl := mem_singleton.mp (mem_of_mem_encode hmem hlt hc)
    simp

end Utf8
