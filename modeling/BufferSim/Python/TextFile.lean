import BufferSim.Cxx.Text
import BufferSim.Python.Str
import Mathlib.Data.List.Basic

/-!
# Text files

`open` without an encoding takes the one of the locale.  A codec stands for any
encoding without state that leaves ASCII as it is, such as ASCII itself, Latin-1
and UTF-8.
-/

namespace Python

open Cxx

/-- Encode every character, or fail as the codec does. -/
def encodeWith (encodeChar : Char → Option Text) : Str → Option Text
  | [] => some []
  | c :: s => do
      return (← encodeChar c) ++ (← encodeWith encodeChar s)

/-- An encoding.  A failed decoding gives the text of its exception. -/
structure Codec where
  encodeChar : Char → Option Text
  decode : Text → Except Str Str
  encodeChar_ascii : ∀ c, c.toNat < 128 → encodeChar c = some [c]
  encodeChar_high : ∀ c bytes, 128 ≤ c.toNat → encodeChar c = some bytes →
    bytes ≠ [] ∧ ∀ b ∈ bytes, 128 ≤ b.toNat
  decode_encode : ∀ s bytes, encodeWith encodeChar s = some bytes →
    decode bytes = .ok s

namespace Str

/-- The newlines that reading in text mode translates. -/
def universalNewlines : Str → Str
  | '\r' :: '\n' :: s => '\n' :: universalNewlines s
  | '\r' :: s => '\n' :: universalNewlines s
  | c :: s => c :: universalNewlines s
  | [] => []

/-- The last character of a stripped text is not white space. -/
theorem isspace_getLast_strip {s : Str} {c : Char}
    (h : (strip s).getLast? = some c) : isspace c = false := by
  have hne : strip s ≠ [] := by
    intro hnil
    simp [hnil] at h
  have hlast : ¬ isspace ((strip s).getLast hne) = true :=
    List.rdropWhile_last_not isspace (lstrip s) hne
  rw [List.getLast?_eq_some_getLast hne, Option.some_inj] at h
  rw [← h]
  exact Bool.eq_false_iff.mpr hlast

end Str

namespace Codec

variable (codec : Codec)

def encode : Str → Option Text :=
  encodeWith codec.encodeChar

variable {codec} {s t : Str}

@[simp] theorem encode_nil : codec.encode [] = some [] := rfl

/-- Only the empty text is encoded as no bytes. -/
theorem eq_nil_of_encode (h : codec.encode s = some []) : s = [] := by
  have hdecode := codec.decode_encode s [] h
  rw [codec.decode_encode [] [] rfl] at hdecode
  exact (Except.ok.inj hdecode).symm

theorem encode_cons (c : Char) (s : Str) :
    codec.encode (c :: s) = (codec.encodeChar c).bind
      (fun bytes => (codec.encode s).bind (fun rest => some (bytes ++ rest))) :=
  rfl

theorem encode_append (s t : Str) :
    codec.encode (s ++ t) = (codec.encode s).bind
      (fun bytes => (codec.encode t).bind (fun rest => some (bytes ++ rest))) := by
  induction s with
  | nil =>
      cases ht : codec.encode t <;> simp [ht]
  | cons c s ih =>
      rw [List.cons_append, encode_cons, encode_cons, ih]
      cases codec.encodeChar c with
      | none => rfl
      | some bytes =>
          cases codec.encode s with
          | none => rfl
          | some rest =>
              cases codec.encode t <;> simp

theorem encode_singleton (c : Char) :
    codec.encode [c] = codec.encodeChar c := by
  rw [encode_cons, encode_nil]
  cases codec.encodeChar c <;> simp

/-- An encoded text ends with its last character or with a byte beyond
ASCII. -/
theorem getLast?_encode {bytes : Text} {c : Char}
    (h : codec.encode (s ++ [c]) = some bytes) :
    ∃ b, bytes.getLast? = some b ∧ (b = c ∨ 128 ≤ b.toNat) := by
  rw [encode_append, encode_singleton] at h
  obtain ⟨before, -, hrest⟩ := Option.bind_eq_some_iff.mp h
  obtain ⟨last, hlast, heq⟩ := Option.bind_eq_some_iff.mp hrest
  obtain rfl := Option.some.inj heq
  by_cases hascii : c.toNat < 128
  · rw [codec.encodeChar_ascii c hascii, Option.some_inj] at hlast
    exact ⟨c, by rw [← hlast, List.getLast?_concat], Or.inl rfl⟩
  · obtain ⟨hne, hhigh⟩ :=
      codec.encodeChar_high c last (Nat.le_of_not_lt hascii) hlast
    refine ⟨last.getLast hne, ?_, Or.inr (hhigh _ (List.getLast_mem hne))⟩
    rw [List.getLast?_append_of_ne_nil _ hne, List.getLast?_eq_some_getLast hne]

/-- The characters that are dropped from the end of a query. -/
def isTrailing (c : Char) : Bool :=
  c == '\n' || c == '\r' || c == ' '

theorem isTrailing_eq_false {c : Char}
    (h : Str.isspace c = false ∨ 128 ≤ c.toNat) : isTrailing c = false := by
  rw [← Bool.not_eq_true, isTrailing]
  simp only [Bool.or_eq_true, beq_iff_eq]
  rintro ((rfl | rfl) | rfl) <;> simp [Str.isspace] at h

/-- What is written of a stripped text with a newline behind it is the encoded
text, when newlines and spaces are dropped from its end. -/
theorem rdropWhile_encode_strip {content : Text}
    (h : codec.encode (Str.strip s ++ "\n".toList) = some content) :
    codec.encode (Str.strip s) = some (content.rdropWhile isTrailing) := by
  have hnewline : codec.encode "\n".toList = some ['\n'] :=
    (encode_singleton '\n').trans (codec.encodeChar_ascii '\n' (by decide))
  rw [encode_append, hnewline] at h
  obtain ⟨bytes, hbytes, heq⟩ := Option.bind_eq_some_iff.mp h
  obtain rfl := Option.some.inj heq
  rw [hbytes, Option.some_inj,
    List.rdropWhile_concat_pos isTrailing bytes '\n' (by decide)]
  symm
  rw [List.rdropWhile_eq_self_iff]
  intro hne htrailing
  rcases List.eq_nil_or_concat' (Str.strip s) with hnil | ⟨init, c, hconcat⟩
  · rw [hnil, encode_nil, Option.some_inj] at hbytes
    exact hne hbytes.symm
  · have hspace : Str.isspace c = false :=
      Str.isspace_getLast_strip (by rw [hconcat, List.getLast?_concat])
    rw [hconcat] at hbytes
    obtain ⟨b, hb, hlast⟩ := getLast?_encode hbytes
    rw [List.getLast?_eq_some_getLast hne, Option.some_inj] at hb
    rw [hb, isTrailing_eq_false] at htrailing
    · exact Bool.false_ne_true htrailing
    · exact hlast.imp_left fun hc => by
        rw [hc]
        exact hspace

variable (codec) in
/-- `f.read()` on the bytes of a file that is open in text mode. -/
def read (bytes : Text) : Except Str Str :=
  (codec.decode bytes).map Str.universalNewlines

end Codec

/-- The encoding of a locale without characters beyond ASCII. -/
def encodeAscii (c : Char) : Option Text :=
  if c.toNat < 128 then some [c] else none

theorem encodeWith_encodeAscii {s : Str} {bytes : Text}
    (h : encodeWith encodeAscii s = some bytes) :
    bytes = s ∧ ∀ c ∈ s, c.toNat < 128 := by
  induction s generalizing bytes with
  | nil =>
      obtain rfl := Option.some.inj h
      simp
  | cons c s ih =>
      obtain ⟨first, hfirst, hrest⟩ := Option.bind_eq_some_iff.mp h
      obtain ⟨rest, hs, heq⟩ := Option.bind_eq_some_iff.mp hrest
      obtain ⟨rfl, hascii⟩ := ih hs
      rw [encodeAscii] at hfirst
      split at hfirst
      · next hc =>
          obtain rfl := Option.some.inj hfirst
          exact ⟨(Option.some.inj heq).symm,
            List.forall_mem_cons.mpr ⟨hc, hascii⟩⟩
      · simp at hfirst

def asciiCodec : Codec where
  encodeChar := encodeAscii
  decode bytes :=
    if bytes.all (fun b => b.toNat < 128) then .ok bytes
    else .error "ordinal not in range(128)".toList
  encodeChar_ascii c hc := if_pos hc
  encodeChar_high c bytes hc h := by
    rw [encodeAscii, if_neg (Nat.not_lt.mpr hc)] at h
    simp at h
  decode_encode s bytes h := by
    obtain ⟨rfl, hascii⟩ := encodeWith_encodeAscii h
    exact if_pos (List.all_eq_true.mpr fun b hb =>
      decide_eq_true (hascii b hb))

end Python
