import IntelAsm.Text.Utf8
import Mathlib.Tactic.Common

/-!
# Bytes that are text

Bytes can be decoded iff they are the encoding of a text, and then as that text
(`decode_eq_ok_iff`). A sequence that has begun determines which bytes complete it, and to which
character (`Sequence.Completes`); what is left to see is that the bytes of a character in its
encoding are just such a sequence, which is arithmetic.

A text of characters can always be encoded (`encode_codePoints`). A path may also hold surrogates
that stand for bytes, and it spells at most one name (`Names`, `encodeName_eq_ok_iff`).
-/

namespace IntelAsm.Utf8

/-! ### Sequences -/

/-- The bytes with which a sequence is complete, and the code point that it then stands for. -/
inductive Sequence.Completes : Sequence → List UInt8 → Nat → Prop where
  | last {s : Sequence} {byte : UInt8} {v : Nat} (hmore : s.more = 0)
      (hbyte : s.low ≤ byte.toNat ∧ byte.toNat ≤ s.high)
      (hv : v = s.bits * 64 + (byte.toNat - 0x80)) : Completes s [byte] v
  | next {s : Sequence} {byte : UInt8} {bytes : List UInt8} {n v : Nat} (hmore : s.more = n + 1)
      (hbyte : s.low ≤ byte.toNat ∧ byte.toNat ≤ s.high)
      (h : Completes { byte := s.byte, position := s.position,
                       bits := s.bits * 64 + (byte.toNat - 0x80), more := n } bytes v) :
      Completes s (byte :: bytes) v

section
variable {byte : UInt8} {position bits low high v : Nat} {l : List UInt8}

/-- One byte more completes the sequence. -/
theorem completes_zero_iff :
    Sequence.Completes ⟨byte, position, bits, 0, low, high⟩ l v ↔
      ∃ b : UInt8, l = [b] ∧ (low ≤ b.toNat ∧ b.toNat ≤ high) ∧
        v = bits * 64 + (b.toNat - 0x80) := by
  constructor
  · rintro (⟨_, hb, hv⟩ | ⟨hmore, _, _⟩)
    · exact ⟨_, rfl, hb, hv⟩
    · cases hmore
  · rintro ⟨b, rfl, hb, hv⟩
    exact .last rfl hb hv

/-- A byte within the limits leaves a sequence that needs one byte less. -/
theorem completes_succ_iff {n : Nat} :
    Sequence.Completes ⟨byte, position, bits, n + 1, low, high⟩ l v ↔
      ∃ (b : UInt8) (l' : List UInt8), l = b :: l' ∧ (low ≤ b.toNat ∧ b.toNat ≤ high) ∧
        Sequence.Completes ⟨byte, position, bits * 64 + (b.toNat - 0x80), n, 0x80, 0xBF⟩ l' v := by
  constructor
  · rintro (⟨hmore, _, _⟩ | ⟨hmore, hb, h⟩)
    · cases hmore
    · cases hmore
      exact ⟨_, _, rfl, hb, h⟩
  · rintro ⟨b, l', rfl, hb, h⟩
    exact .next rfl hb h

end

/-- Bytes that complete a sequence are decoded as its character. -/
theorem decodeFrom_of_completes {s : Sequence} {l : List UInt8} {v : Nat} (h : s.Completes l v)
    (position : Nat) (rest : List UInt8) :
    decodeFrom position (some s) (l ++ rest) =
      (Char.ofNat v :: ·) <$> decodeFrom (position + l.length) none rest := by
  induction h generalizing position with
  | last hmore hbyte hv =>
    rw [List.singleton_append, decodeFrom, if_pos hbyte]
    simp only [hmore, ← hv, List.length_singleton]
  | next hmore hbyte h ih =>
    rw [List.cons_append, decodeFrom, if_pos hbyte]
    simp only [hmore]
    rw [ih, List.length_cons, Nat.add_right_comm, Nat.add_assoc]

/-- Where a sequence that has begun is decoded, some bytes complete it. -/
theorem exists_completes {s : Sequence} {bytes : List UInt8} {position : Nat} {cs : List Char}
    (h : decodeFrom position (some s) bytes = .ok cs) :
    ∃ l rest v cs', bytes = l ++ rest ∧ s.Completes l v ∧ cs = Char.ofNat v :: cs' ∧
      decodeFrom (position + l.length) none rest = .ok cs' := by
  induction bytes generalizing s position with
  | nil => simp [decodeFrom] at h
  | cons byte bytes ih =>
    rw [decodeFrom] at h
    split at h
    · next hbyte =>
      dsimp only at h
      split at h
      · next hmore =>
        cases hrest : decodeFrom (position + 1) none bytes with
        | error e => simp [hrest] at h
        | ok cs' =>
          rw [hrest] at h
          cases h
          exact ⟨[byte], bytes, _, cs', rfl, .last hmore hbyte rfl, rfl, hrest⟩
      · next n hmore =>
        obtain ⟨l, rest, v, cs', rfl, hl, rfl, hrest⟩ := ih h
        refine ⟨byte :: l, rest, v, cs', rfl, .next hmore hbyte hl, rfl, ?_⟩
        rwa [List.length_cons, Nat.add_comm l.length, ← Nat.add_assoc]
    · cases h

/-! ### Characters -/

section
variable {a b c d : UInt8} {v position : Nat}

/-- The bytes of a sequence behind the first, but for the limits that the first sets. -/
abbrev IsTail (b : UInt8) : Prop := 0x80 ≤ b.toNat ∧ b.toNat ≤ 0xBF

theorem start?_two (ha : 0xC2 ≤ a.toNat ∧ a.toNat ≤ 0xDF) :
    Sequence.start? a position =
      some { byte := a, position, bits := a.toNat - 0xC0, more := 0 } := by
  rw [Sequence.start?, if_pos ha]

theorem start?_three (ha : 0xE0 ≤ a.toNat ∧ a.toNat ≤ 0xEF) :
    Sequence.start? a position =
      some { byte := a, position, bits := a.toNat - 0xE0, more := 1,
             low := if a.toNat = 0xE0 then 0xA0 else 0x80,
             high := if a.toNat = 0xED then 0x9F else 0xBF } := by
  rw [Sequence.start?, if_neg (by omega)]
  by_cases hE0 : a.toNat = 0xE0
  · simp [hE0]
  by_cases hED : a.toNat = 0xED
  · simp [hED]
  · rw [if_neg hE0, if_neg hED, if_pos (by omega), if_neg hE0, if_neg hED]

theorem start?_four (ha : 0xF0 ≤ a.toNat ∧ a.toNat ≤ 0xF4) :
    Sequence.start? a position =
      some { byte := a, position, bits := a.toNat - 0xF0, more := 2,
             low := if a.toNat = 0xF0 then 0x90 else 0x80,
             high := if a.toNat = 0xF4 then 0x8F else 0xBF } := by
  rw [Sequence.start?, if_neg (by omega), if_neg (by omega), if_neg (by omega), if_neg (by omega)]
  by_cases hF0 : a.toNat = 0xF0
  · simp [hF0]
  by_cases hF4 : a.toNat = 0xF4
  · simp [hF4]
  · rw [if_neg hF0, if_pos (by omega), if_neg hF0, if_neg hF4]

theorem toNat_ofNat (h : v.isValidChar) : (Char.ofNat v).val.toNat = v := by
  rw [Char.ofNat, dif_pos h]
  rfl

theorem ofNat_eq {n : Nat} (h : n = a.toNat) : UInt8.ofNat n = a := by
  rw [h, UInt8.ofNat_toNat]

/-- A character of two bytes, as Lean encodes it. -/
theorem encode_two (ha : 0xC2 ≤ a.toNat ∧ a.toNat ≤ 0xDF) (hb : IsTail b)
    (hv : v = (a.toNat - 0xC0) * 64 + (b.toNat - 0x80)) :
    String.utf8EncodeChar (Char.ofNat v) = [a, b] := by
  rw [String.utf8EncodeChar, toNat_ofNat (by unfold Nat.isValidChar; omega), if_neg (by omega),
    if_pos (by omega), ofNat_eq (a := a) (by omega), ofNat_eq (a := b) (by omega)]

/-- A character of three bytes. -/
theorem encode_three (ha : 0xE0 ≤ a.toNat ∧ a.toNat ≤ 0xEF) (hb : IsTail b) (hc : IsTail c)
    (hv : v = ((a.toNat - 0xE0) * 64 + (b.toNat - 0x80)) * 64 + (c.toNat - 0x80))
    (hlow : 0x800 ≤ v) (hvalid : v.isValidChar) :
    String.utf8EncodeChar (Char.ofNat v) = [a, b, c] := by
  rw [String.utf8EncodeChar, toNat_ofNat hvalid, if_neg (by omega), if_neg (by omega),
    if_pos (by omega), ofNat_eq (a := a) (by omega), ofNat_eq (a := b) (by omega),
    ofNat_eq (a := c) (by omega)]

/-- A character of four bytes. -/
theorem encode_four (ha : 0xF0 ≤ a.toNat ∧ a.toNat ≤ 0xF4) (hb : IsTail b) (hc : IsTail c)
    (hd : IsTail d)
    (hv : v = (((a.toNat - 0xF0) * 64 + (b.toNat - 0x80)) * 64 + (c.toNat - 0x80)) * 64 +
      (d.toNat - 0x80))
    (hlow : 0x10000 ≤ v) (hvalid : v.isValidChar) :
    String.utf8EncodeChar (Char.ofNat v) = [a, b, c, d] := by
  rw [String.utf8EncodeChar, toNat_ofNat hvalid, if_neg (by omega), if_neg (by omega),
    if_neg (by omega), ofNat_eq (a := a) (by omega), ofNat_eq (a := b) (by omega),
    ofNat_eq (a := c) (by omega), ofNat_eq (a := d) (by omega)]

/-- A sequence that is complete is the encoding of its character. -/
theorem encode_of_completes {s : Sequence} {l : List UInt8}
    (hs : Sequence.start? a position = some s) (h : s.Completes l v) :
    String.utf8EncodeChar (Char.ofNat v) = a :: l := by
  by_cases h2 : 0xC2 ≤ a.toNat ∧ a.toNat ≤ 0xDF
  · rw [start?_two h2] at hs
    cases hs
    obtain ⟨b, rfl, hb, hv⟩ := completes_zero_iff.1 h
    exact encode_two h2 hb hv
  by_cases h3 : 0xE0 ≤ a.toNat ∧ a.toNat ≤ 0xEF
  · rw [start?_three h3] at hs
    cases hs
    obtain ⟨b, _, rfl, hb, h⟩ := completes_succ_iff.1 h
    obtain ⟨c, rfl, hc, hv⟩ := completes_zero_iff.1 h
    obtain ⟨hb, hE0, hED⟩ : IsTail b ∧ (a.toNat = 0xE0 → 0xA0 ≤ b.toNat) ∧
        (a.toNat = 0xED → b.toNat ≤ 0x9F) := by
      split_ifs at hb <;> omega
    refine encode_three h3 hb hc hv ?_ ?_
    · omega
    · unfold Nat.isValidChar
      omega
  by_cases h4 : 0xF0 ≤ a.toNat ∧ a.toNat ≤ 0xF4
  · rw [start?_four h4] at hs
    cases hs
    obtain ⟨b, _, rfl, hb, h⟩ := completes_succ_iff.1 h
    obtain ⟨c, _, rfl, hc, h⟩ := completes_succ_iff.1 h
    obtain ⟨d, rfl, hd, hv⟩ := completes_zero_iff.1 h
    obtain ⟨hb, hF0, hF4⟩ : IsTail b ∧ (a.toNat = 0xF0 → 0x90 ≤ b.toNat) ∧
        (a.toNat = 0xF4 → b.toNat ≤ 0x8F) := by
      split_ifs at hb <;> omega
    refine encode_four h4 hb hc hd hv ?_ ?_
    · omega
    · unfold Nat.isValidChar
      omega
  · rw [Sequence.start?, if_neg h2, if_neg (by omega), if_neg (by omega), if_neg (by omega),
      if_neg (by omega), if_neg (by omega), if_neg (by omega)] at hs
    cases hs

/-- The encoding of a character beyond ASCII is a sequence that is complete. -/
theorem exists_completes_encode {c : Char} (h : 0x80 ≤ c.val.toNat) (position : Nat) :
    ∃ a l s, String.utf8EncodeChar c = a :: l ∧ 0x80 ≤ a.toNat ∧
      Sequence.start? a position = some s ∧ s.Completes l c.val.toNat := by
  have hvalid : c.val.toNat.isValidChar := c.valid
  rw [String.utf8EncodeChar, if_neg (by omega)]
  generalize c.val.toNat = v at h hvalid ⊢
  have hofNat : ∀ n < 256, (UInt8.ofNat n).toNat = n := fun n hn => UInt8.toNat_ofNat_of_lt hn
  split
  · have ha := hofNat (v / 64 % 32 + 192) (by omega)
    have hb := hofNat (v % 64 + 128) (by omega)
    refine ⟨_, _, _, rfl, by omega, start?_two (by omega), completes_zero_iff.2 ?_⟩
    exact ⟨_, rfl, by omega, by omega⟩
  split
  · have ha := hofNat (v / 4096 % 16 + 224) (by omega)
    have hb := hofNat (v / 64 % 64 + 128) (by omega)
    have hc := hofNat (v % 64 + 128) (by omega)
    refine ⟨_, _, _, rfl, by omega, start?_three (by omega), completes_succ_iff.2 ?_⟩
    unfold Nat.isValidChar at hvalid
    refine ⟨_, _, rfl, ?_, completes_zero_iff.2 ⟨_, rfl, by omega, by omega⟩⟩
    split_ifs <;> omega
  · have ha := hofNat (v / 262144 % 8 + 240) (by omega)
    have hb := hofNat (v / 4096 % 64 + 128) (by omega)
    have hc := hofNat (v / 64 % 64 + 128) (by omega)
    have hd := hofNat (v % 64 + 128) (by omega)
    unfold Nat.isValidChar at hvalid
    refine ⟨_, _, _, rfl, by omega, start?_four (by omega), completes_succ_iff.2 ?_⟩
    refine ⟨_, _, rfl, ?_, completes_succ_iff.2 ⟨_, _, rfl, by omega,
      completes_zero_iff.2 ⟨_, rfl, by omega, by omega⟩⟩⟩
    split_ifs <;> omega

end

/-! ### Texts -/

/-- The bytes of a character are decoded as that character. -/
theorem decodeFrom_encode (position : Nat) (c : Char) (rest : List UInt8) :
    ∃ q, decodeFrom position none (String.utf8EncodeChar c ++ rest) =
      (c :: ·) <$> decodeFrom q none rest := by
  by_cases hc : c.val.toNat < 0x80
  · have hlt : (UInt8.ofNat c.val.toNat).toNat = c.val.toNat :=
      UInt8.toNat_ofNat_of_lt (by show _ < 256; omega)
    have hencode : String.utf8EncodeChar c = [UInt8.ofNat c.val.toNat] := by
      rw [String.utf8EncodeChar, if_pos (by omega)]
    refine ⟨position + 1, ?_⟩
    rw [hencode, List.singleton_append, decodeFrom, hlt, if_pos hc]
    have hchar : Char.ofNat c.val.toNat = c := Char.ofNat_toNat c
    rw [hchar]
  · obtain ⟨a, l, s, hencode, ha, hs, hl⟩ := exists_completes_encode (Nat.le_of_not_lt hc) position
    refine ⟨position + 1 + l.length, ?_⟩
    rw [hencode, List.cons_append, decodeFrom, if_neg (by omega)]
    simp only [hs]
    rw [decodeFrom_of_completes hl, show Char.ofNat c.val.toNat = c from Char.ofNat_toNat c]

/-- So are those of a text. -/
theorem decodeFrom_flatMap (position : Nat) (cs : List Char) :
    decodeFrom position none (cs.flatMap String.utf8EncodeChar) = .ok cs := by
  induction cs generalizing position with
  | nil => rfl
  | cons c cs ih =>
    obtain ⟨q, hq⟩ := decodeFrom_encode position c (cs.flatMap String.utf8EncodeChar)
    rw [List.flatMap_cons, hq, ih]
    rfl

/-- Bytes that are decoded are those of the text. -/
theorem eq_flatMap_of_decodeFrom {position : Nat} {bytes : List UInt8} {cs : List Char}
    (h : decodeFrom position none bytes = .ok cs) :
    bytes = cs.flatMap String.utf8EncodeChar := by
  induction hn : bytes.length using Nat.strongRecOn generalizing position bytes cs with
  | _ n ih =>
    subst hn
    cases bytes with
    | nil =>
      cases h
      rfl
    | cons a bytes =>
      rw [decodeFrom] at h
      split at h
      · next ha =>
        cases hrest : decodeFrom (position + 1) none bytes with
        | error e => simp [hrest] at h
        | ok cs' =>
          rw [hrest] at h
          cases h
          have hvalid : a.toNat.isValidChar := by
            unfold Nat.isValidChar
            omega
          have hencode : String.utf8EncodeChar (Char.ofNat a.toNat) = [a] := by
            rw [String.utf8EncodeChar, toNat_ofNat hvalid, if_pos (by omega), ofNat_eq rfl]
          rw [List.flatMap_cons, hencode, ← ih _ (Nat.lt_succ_self _) hrest rfl,
            List.singleton_append]
      · split at h
        · next s hs =>
          obtain ⟨l, rest, v, cs', rfl, hl, rfl, hrest⟩ := exists_completes h
          have hlt : rest.length < (a :: (l ++ rest)).length := by
            simp only [List.length_cons, List.length_append]
            omega
          rw [List.flatMap_cons, encode_of_completes hs hl, ← ih _ hlt hrest rfl,
            List.cons_append]
        · cases h

theorem toList_loop_eq (bs : ByteArray) (i : Nat) (front : List UInt8) :
    ByteArray.toList.loop bs i front = front.reverse ++ bs.data.toList.drop i := by
  fun_induction ByteArray.toList.loop bs i front with
  | case1 i front h ih =>
    have hi : i < bs.data.toList.length := by simpa using h
    have hget : bs.get! i = bs.data.toList[i] := by simp [ByteArray.get!, h]
    rw [ih, List.drop_eq_getElem_cons hi, hget, List.reverse_cons, List.append_assoc,
      List.singleton_append]
  | case2 i front h =>
    rw [List.drop_eq_nil_of_le (by simpa using Nat.le_of_not_lt h), List.append_nil]

/-- The encoding of a text is that of its characters, one after the other. -/
theorem toList_toUTF8 (cs : List Char) :
    (String.ofList cs).toUTF8.toList = cs.flatMap String.utf8EncodeChar := by
  show ByteArray.toList.loop _ 0 [] = _
  rw [toList_loop_eq]
  show ((cs.flatMap String.utf8EncodeChar).toByteArray.data.toList.drop 0) = _
  rw [List.data_toByteArray, List.drop_zero]

/-- Bytes are decoded as the text of which they are the encoding. -/
theorem decode_eq_ok_iff {bytes : List UInt8} {cs : List Char} :
    decode bytes = .ok cs ↔ bytes = (String.ofList cs).toUTF8.toList := by
  rw [toList_toUTF8]
  exact ⟨eq_flatMap_of_decodeFrom, fun h => h ▸ decodeFrom_flatMap 0 cs⟩

/-- A text is read back from its encoding. -/
theorem decode_toUTF8 (s : String) : decode s.toUTF8.toList = .ok s.toList := by
  rw [decode_eq_ok_iff, String.ofList_toList]

/-! ### Writing -/

/-- The first surrogate in a text is found, and how many code points stand in front of it. -/
theorem exists_encodeFrom_error {c : CodePoint} (hc : c.char? = none) (position : Nat)
    (cs : List Char) (s : Str) :
    ∃ n, encodeFrom (fun _ => none) position (cs.map CodePoint.ofChar ++ c :: s) =
      .error ⟨c, position + cs.length, n⟩ := by
  induction cs generalizing position with
  | nil =>
    rw [List.map_nil, List.nil_append, encodeFrom, hc]
    exact ⟨_, rfl⟩
  | cons ch cs ih =>
    obtain ⟨n, hn⟩ := ih (position + 1)
    rw [List.map_cons, List.cons_append, encodeFrom, CodePoint.char?_ofChar]
    dsimp only
    rw [hn, List.length_cons, Nat.add_right_comm, Nat.add_assoc]
    exact ⟨n, rfl⟩

/-- A text with a surrogate has no encoding. -/
theorem exists_encode_error {c : CodePoint} (hc : c.char? = none) (front : String) (s : Str) :
    ∃ n, encode (Text.codePoints front ++ c :: s) = .error ⟨c, front.length, n⟩ := by
  obtain ⟨n, hn⟩ := exists_encodeFrom_error hc 0 front.toList s
  rw [Nat.zero_add] at hn
  exact ⟨n, hn⟩

/-! ### The names of files -/

/-- The name that a path spells. A character is spelled by itself, and a byte that is no text by the
surrogate that is kept for it. -/
inductive Names : Str → List UInt8 → Prop where
  | nil : Names [] []
  | char {path : Str} {name : List UInt8} (c : Char) (h : Names path name) :
      Names (.ofChar c :: path) (String.utf8EncodeChar c ++ name)
  | byte {path : Str} {name : List UInt8} {b : UInt8} {c : CodePoint} (hb : 0x80 ≤ b.toNat)
      (hc : c.toNat = 0xDC00 + b.toNat) (h : Names path name) : Names (c :: path) (b :: name)

/-- Surrogates at the end of their range stand for the bytes that are no text. -/
theorem escapedByte?_eq_some_iff {c : CodePoint} {b : UInt8} :
    escapedByte? c = some b ↔ 0x80 ≤ b.toNat ∧ c.toNat = 0xDC00 + b.toNat := by
  have hb := b.toNat_lt
  unfold escapedByte?
  split
  · have hbyte : (UInt8.ofNat (c.toNat - 0xDC00)).toNat = c.toNat - 0xDC00 :=
      UInt8.toNat_ofNat_of_lt (by show _ < 256; omega)
    rw [Option.some_inj, ← UInt8.toNat_inj, hbyte]
    omega
  · exact iff_of_false (by simp) (by omega)

/-- A path has just the name that it spells, and no name if it spells none. -/
theorem encodeFrom_eq_ok_iff {position : Nat} {path : Str} {name : List UInt8} :
    encodeFrom escapedByte? position path = .ok name ↔ Names path name := by
  constructor
  · intro h
    induction path generalizing position name with
    | nil =>
      cases h
      exact .nil
    | cons c path ih =>
      rw [encodeFrom] at h
      split at h
      · next ch hchar =>
        cases hrest : encodeFrom escapedByte? (position + 1) path with
        | error e => simp [hrest] at h
        | ok name' =>
          rw [hrest] at h
          cases h
          rw [← CodePoint.ofChar_of_char? hchar]
          exact .char ch (ih hrest)
      · next b _ hbyte =>
        cases hrest : encodeFrom escapedByte? (position + 1) path with
        | error e => simp [hrest] at h
        | ok name' =>
          rw [hrest] at h
          cases h
          obtain ⟨hb, hc⟩ := escapedByte?_eq_some_iff.1 hbyte
          exact .byte hb hc (ih hrest)
      · cases h
  · intro h
    induction h generalizing position with
    | nil => rfl
    | char c h ih =>
      rw [encodeFrom, CodePoint.char?_ofChar]
      dsimp only
      rw [ih]
      rfl
    | @byte path name b c hb hc h ih =>
      have hchar : c.char? = none := CodePoint.char?_eq_none (by omega) (by
        have := b.toNat_lt
        omega)
      rw [encodeFrom, hchar, escapedByte?_eq_some_iff.2 ⟨hb, hc⟩]
      dsimp only
      rw [ih]
      rfl

/-- A path is encoded as the name that it spells. -/
theorem encodeName_eq_ok_iff {path : Str} {name : List UInt8} :
    encodeName path = .ok name ↔ Names path name := encodeFrom_eq_ok_iff

theorem Names.unique {path : Str} {name name' : List UInt8} (h : Names path name)
    (h' : Names path name') : name = name' :=
  Except.ok.inj ((encodeName_eq_ok_iff.2 h).symm.trans (encodeName_eq_ok_iff.2 h'))

/-- No other character has the null byte in its encoding. -/
theorem zero_notMem_encodeChar {c : Char} (h : c ≠ '\x00') : 0 ∉ String.utf8EncodeChar c := by
  have hc : c.val.toNat ≠ 0 := fun h0 => h (Char.toNat_inj.1 h0)
  have hvalid : c.val.toNat.isValidChar := c.valid
  unfold Nat.isValidChar at hvalid
  unfold String.utf8EncodeChar
  generalize c.val.toNat = v at hc hvalid ⊢
  dsimp only
  split_ifs
  all_goals
    simp only [List.mem_cons, List.not_mem_nil, or_false, ← UInt8.toNat_inj, UInt8.toNat_zero,
      UInt8.toNat_ofNat']
    omega

/-- Only a null character makes for one in a name. -/
theorem Names.zero_notMem {path : Str} {name : List UInt8} (h : Names path name)
    (hnull : .ofChar '\x00' ∉ path) : 0 ∉ name := by
  induction h with
  | nil => simp
  | char c h ih =>
    obtain ⟨hc, hpath⟩ := not_or.1 (mt List.mem_cons.2 hnull)
    have hchar : c ≠ '\x00' := fun h0 => hc (congrArg _ h0.symm)
    rw [List.mem_append]
    exact not_or.2 ⟨zero_notMem_encodeChar hchar, ih hpath⟩
  | @byte path name b c hb hc h ih =>
    obtain ⟨-, hpath⟩ := not_or.1 (mt List.mem_cons.2 hnull)
    have hbyte : (0 : UInt8) ≠ b := by
      rintro rfl
      cases hb
    rw [List.mem_cons]
    exact not_or.2 ⟨hbyte, ih hpath⟩

end IntelAsm.Utf8
