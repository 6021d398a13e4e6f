import DialectBuild.Text.Basic

/-!
# Bytes of a Text

Reading bytes as UTF-8 and writing them back. A byte that does not start a well-formed
character is read as a symbol of its own, and a byte symbol is written as that byte, so
`encode_decode` holds of every byte sequence, well-formed or not.

Well-formed means the shortest form of a scalar value: no longer spelling, no surrogate,
nothing above U+10FFFF.

## Main definitions

* `Bytes`: The content of a file.
* `scalar?`: The character at the front of a byte sequence, with its length.
* `decode`, `encode`: Reading and writing a text.
* `decodeReplacing`: Reading with U+FFFD for whatever is malformed.

## Theorems

* `encodeScalar_append_drop`: A character is spelled by the bytes it was read from.
* `decode_nil`, `decode_cons`: How reading proceeds by one symbol.
* `encode_decode`: Reading and writing again changes no byte.
-/

namespace DialectBuild

/-- The content of a file. -/
abbrev Bytes := List UInt8

namespace Encoding

/-- A byte that may follow the first one of a character. -/
def isTail (b : UInt8) : Bool :=
  0x80 ≤ b.toNat && b.toNat < 0xC0

/-- The bytes of a scalar value: one to four of them, the shortest form. -/
def encodeScalar (n : Nat) : Bytes :=
  if n < 0x80 then
    [UInt8.ofNat n]
  else if n < 0x800 then
    [UInt8.ofNat (0xC0 + n / 64), UInt8.ofNat (0x80 + n % 64)]
  else if n < 0x10000 then
    [UInt8.ofNat (0xE0 + n / 4096), UInt8.ofNat (0x80 + n / 64 % 64), UInt8.ofNat (0x80 + n % 64)]
  else
    [UInt8.ofNat (0xF0 + n / 262144), UInt8.ofNat (0x80 + n / 4096 % 64),
      UInt8.ofNat (0x80 + n / 64 % 64), UInt8.ofNat (0x80 + n % 64)]

/-- The scalar value spelled by a first byte and its tail bytes, if that is its shortest
    form. -/
def scalarOf? (n : Nat) (least : Nat) : Option Char :=
  if least ≤ n ∧ n.isValidChar then some (Char.ofNat n) else none

/-- The character at the front and the number of its bytes. -/
def scalar? : Bytes → Option (Char × Nat)
  | [] => none
  | a :: r =>
      if a.toNat < 0x80 then
        some (Char.ofNat a.toNat, 1)
      else if 0xC0 ≤ a.toNat ∧ a.toNat < 0xE0 then
        match r with
        | b :: _ =>
            if isTail b then
              (scalarOf? ((a.toNat - 0xC0) * 64 + (b.toNat - 0x80)) 0x80).map (·, 2)
            else
              none
        | [] => none
      else if 0xE0 ≤ a.toNat ∧ a.toNat < 0xF0 then
        match r with
        | b :: c :: _ =>
            if isTail b && isTail c then
              (scalarOf? ((a.toNat - 0xE0) * 4096 + (b.toNat - 0x80) * 64 + (c.toNat - 0x80))
                0x800).map (·, 3)
            else
              none
        | _ => none
      else if 0xF0 ≤ a.toNat ∧ a.toNat < 0xF8 then
        match r with
        | b :: c :: d :: _ =>
            if isTail b && isTail c && isTail d then
              (scalarOf? ((a.toNat - 0xF0) * 262144 + (b.toNat - 0x80) * 4096
                + (c.toNat - 0x80) * 64 + (d.toNat - 0x80)) 0x10000).map (·, 4)
            else
              none
        | _ => none
      else
        none

theorem toNat_ofNat_of_valid {n : Nat} (h : n.isValidChar) : (Char.ofNat n).toNat = n := by
  rw [Char.ofNat, dif_pos h]
  rfl

/-- A byte of ASCII is a character. -/
theorem scalar?_of_lt {a : UInt8} (h : a.toNat < 0x80) (r : Bytes) :
    scalar? (a :: r) = some (Char.ofNat a.toNat, 1) :=
  if_pos h

/-- A value that was spelled in the shortest form is that of the character. -/
theorem scalarOf?_eq_some {n least : Nat} {c : Char} (h : scalarOf? n least = some c) :
    least ≤ n ∧ c.toNat = n := by
  rw [scalarOf?] at h
  split at h
  next hv => exact ⟨hv.1, by rw [← Option.some.inj h, toNat_ofNat_of_valid hv.2]⟩
  next => simp only [reduceCtorEq] at h

theorem encodeScalar_two {a b : UInt8} (ha : 0xC0 ≤ a.toNat ∧ a.toNat < 0xE0)
    (hb : isTail b = true) (hleast : 0x80 ≤ (a.toNat - 0xC0) * 64 + (b.toNat - 0x80)) :
    encodeScalar ((a.toNat - 0xC0) * 64 + (b.toNat - 0x80)) = [a, b] := by
  simp only [isTail, Bool.and_eq_true, decide_eq_true_eq] at hb
  generalize hm : (a.toNat - 0xC0) * 64 + (b.toNat - 0x80) = m at hleast ⊢
  have h1 : 0xC0 + m / 64 = a.toNat := by omega
  have h2 : 0x80 + m % 64 = b.toNat := by omega
  rw [encodeScalar, if_neg (by omega), if_pos (by omega), h1, h2]
  simp only [UInt8.ofNat_toNat]

theorem encodeScalar_three {a b c : UInt8} (ha : 0xE0 ≤ a.toNat ∧ a.toNat < 0xF0)
    (htail : (isTail b && isTail c) = true)
    (hleast : 0x800 ≤ (a.toNat - 0xE0) * 4096 + (b.toNat - 0x80) * 64 + (c.toNat - 0x80)) :
    encodeScalar ((a.toNat - 0xE0) * 4096 + (b.toNat - 0x80) * 64 + (c.toNat - 0x80)) =
      [a, b, c] := by
  simp only [isTail, Bool.and_eq_true, decide_eq_true_eq] at htail
  generalize hm : (a.toNat - 0xE0) * 4096 + (b.toNat - 0x80) * 64 + (c.toNat - 0x80) = m
    at hleast ⊢
  have h1 : 0xE0 + m / 4096 = a.toNat := by omega
  have h2 : 0x80 + m / 64 % 64 = b.toNat := by omega
  have h3 : 0x80 + m % 64 = c.toNat := by omega
  rw [encodeScalar, if_neg (by omega), if_neg (by omega), if_pos (by omega), h1, h2, h3]
  simp only [UInt8.ofNat_toNat]

theorem encodeScalar_four {a b c d : UInt8} (ha : 0xF0 ≤ a.toNat ∧ a.toNat < 0xF8)
    (htail : (isTail b && isTail c && isTail d) = true)
    (hleast : 0x10000 ≤ (a.toNat - 0xF0) * 262144 + (b.toNat - 0x80) * 4096
      + (c.toNat - 0x80) * 64 + (d.toNat - 0x80)) :
    encodeScalar ((a.toNat - 0xF0) * 262144 + (b.toNat - 0x80) * 4096
      + (c.toNat - 0x80) * 64 + (d.toNat - 0x80)) = [a, b, c, d] := by
  simp only [isTail, Bool.and_eq_true, decide_eq_true_eq] at htail
  generalize hm : (a.toNat - 0xF0) * 262144 + (b.toNat - 0x80) * 4096
    + (c.toNat - 0x80) * 64 + (d.toNat - 0x80) = m at hleast ⊢
  have h1 : 0xF0 + m / 262144 = a.toNat := by omega
  have h2 : 0x80 + m / 4096 % 64 = b.toNat := by omega
  have h3 : 0x80 + m / 64 % 64 = c.toNat := by omega
  have h4 : 0x80 + m % 64 = d.toNat := by omega
  rw [encodeScalar, if_neg (by omega), if_neg (by omega), if_neg (by omega), h1, h2, h3, h4]
  simp only [UInt8.ofNat_toNat]

/-- A character is spelled by the bytes of a spelling that is the one of its value. -/
theorem encodeScalar_append_drop_of_scalarOf? {c : Char} {m least n : Nat} (spelling : Bytes)
    (rest : Bytes) (hne : spelling ≠ []) (hencode : least ≤ m → encodeScalar m = spelling)
    (h : (scalarOf? m least).map (·, spelling.length) = some (c, n)) :
    0 < n ∧ encodeScalar c.toNat ++ (spelling ++ rest).drop n = spelling ++ rest := by
  simp only [Option.map_eq_some_iff, Prod.mk.injEq] at h
  obtain ⟨_, hc, rfl, rfl⟩ := h
  obtain ⟨hleast, hvalue⟩ := scalarOf?_eq_some hc
  rw [hvalue, hencode hleast, List.drop_left]
  exact ⟨List.length_pos_iff.mpr hne, rfl⟩

/-- A character read from the front is spelled by exactly the bytes it was read from. -/
theorem encodeScalar_append_drop {bs : Bytes} {c : Char} {n : Nat}
    (h : scalar? bs = some (c, n)) :
    0 < n ∧ encodeScalar c.toNat ++ bs.drop n = bs := by
  revert h
  fun_cases scalar? bs with
  | case2 a r hlow =>
      rintro ⟨rfl, rfl⟩
      rw [toNat_ofNat_of_valid (Or.inl (by omega)), encodeScalar, if_pos hlow, UInt8.ofNat_toNat]
      exact ⟨by decide, rfl⟩
  | case3 a _ ha b rest hb =>
      exact encodeScalar_append_drop_of_scalarOf? [a, b] rest (List.cons_ne_nil _ _)
        (encodeScalar_two ha hb)
  | case6 a _ _ ha b c' rest htail =>
      exact encodeScalar_append_drop_of_scalarOf? [a, b, c'] rest (List.cons_ne_nil _ _)
        (encodeScalar_three ha htail)
  | case9 a _ _ _ ha b c' d rest htail =>
      exact encodeScalar_append_drop_of_scalarOf? [a, b, c', d] rest (List.cons_ne_nil _ _)
        (encodeScalar_four ha htail)
  | _ =>
      intro h
      cases h

/-- Reads bytes as text, one symbol for each character and for each byte that is no part of
    one. -/
def decode : Bytes → Text
  | [] => []
  | b :: r =>
      match scalar? (b :: r) with
      | some (c, n) => Symbol.char c :: decode (r.drop (n - 1))
      | none => Symbol.byte b :: decode r
termination_by bs => bs.length
decreasing_by
  · simp only [List.length_drop, List.length_cons]
    omega
  · simp only [List.length_cons]
    omega

/-- The bytes of one symbol. -/
def encodeSymbol : Symbol → Bytes
  | .char c => encodeScalar c.toNat
  | .byte b => [b]

/-- Writes a text as bytes. -/
def encode (t : Text) : Bytes :=
  t.flatMap encodeSymbol

theorem decode_nil : decode [] = [] := by
  rw [decode]

theorem decode_cons (b : UInt8) (r : Bytes) :
    decode (b :: r) =
      match scalar? (b :: r) with
      | some (c, n) => Symbol.char c :: decode (r.drop (n - 1))
      | none => Symbol.byte b :: decode r := by
  rw [decode]

/-- Reading and writing again gives back every byte sequence. -/
theorem encode_decode (bs : Bytes) : encode (decode bs) = bs := by
  fun_induction decode bs with
  | case1 => rfl
  | case2 b r c n h ih =>
      obtain ⟨hn, he⟩ := encodeScalar_append_drop h
      obtain ⟨m, rfl⟩ : ∃ m, n = m + 1 := ⟨n - 1, by omega⟩
      simp only [List.drop_succ_cons] at he
      simp only [Nat.add_sub_cancel] at ih
      rw [encode, List.flatMap_cons, encodeSymbol, ← encode, Nat.add_sub_cancel, ih, he]
  | case3 b r h ih =>
      rw [encode, List.flatMap_cons, encodeSymbol, ← encode, ih, List.singleton_append]

/-- How many tail bytes the first byte `a` asks for. -/
def tailCount (a : UInt8) : Nat :=
  if 0xC2 ≤ a.toNat ∧ a.toNat < 0xE0 then 1
  else if 0xE0 ≤ a.toNat ∧ a.toNat < 0xF0 then 2
  else if 0xF0 ≤ a.toNat ∧ a.toNat < 0xF5 then 3
  else 0

/-- Whether `b` may come right after the first byte `a` of a character. Four first bytes
    narrow the choice, which keeps out long spellings, surrogates and values that are too
    large. -/
def maySecond (a b : UInt8) : Bool :=
  isTail b && (a != 0xE0 || 0xA0 ≤ b.toNat) && (a != 0xED || b.toNat < 0xA0)
    && (a != 0xF0 || 0x90 ≤ b.toNat) && (a != 0xF4 || b.toNat < 0x90)

/-- The number of bytes that one replacement stands for: a first byte with as many tail bytes
    as could still have become a character. -/
def malformedLength : Bytes → Nat
  | a :: b :: r =>
      if 0 < tailCount a && maySecond a b then
        2 + ((r.take (tailCount a - 1)).takeWhile isTail).length
      else
        1
  | _ => 1

/-- Reads bytes as text with one U+FFFD for each malformed stretch. -/
def decodeReplacing : Bytes → Text
  | [] => []
  | b :: r =>
      match scalar? (b :: r) with
      | some (c, n) => Symbol.char c :: decodeReplacing (r.drop (n - 1))
      | none => Symbol.char '�' :: decodeReplacing (r.drop (malformedLength (b :: r) - 1))
termination_by bs => bs.length
decreasing_by
  · simp only [List.length_drop, List.length_cons]
    omega
  · simp only [List.length_drop, List.length_cons]
    omega

end Encoding

namespace Text

/-- The number of bytes that the text takes when it is written. -/
def byteLength (t : Text) : Nat :=
  (Encoding.encode t).length

end Text

end DialectBuild
