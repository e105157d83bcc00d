/-
Reading back what was written.

A character is written as one to four bytes, and decoding puts its bits together again.  The first
byte says how many bytes follow, and each of these stays within the bounds that the sequence sets
for it.  The bounds on the second byte are the only ones that are ever narrower than those of any
continuation: they leave out shorter forms of a character, which writing never uses, and numbers
that are not those of characters.

Reading a source does two more things.  It takes a byte order mark away and turns carriage returns
into line feeds, so a text that begins with a slash and has no carriage return is read as it is.
-/
import SolidityBundler.Proofs.Attribution

namespace SolidityBundler

namespace Utf8

variable {o : Sequence} {n position : Nat} {rest : Bytes}

/-! ### One byte -/

private theorem toNat_ofNat_of_lt (h : n < 256) : (UInt8.ofNat n).toNat = n := by
  rw [UInt8.toNat_ofNat']
  exact Nat.mod_eq_of_lt h

private theorem decodeFrom_ascii (h : n < 0x80) :
    decodeFrom none position (UInt8.ofNat n :: rest)
      = (decodeFrom none (position + 1) rest).map (Char.ofNat n :: ·) := by
  have hlt : UInt8.ofNat n < 0x80 := by
    rw [UInt8.lt_iff_toNat_lt, toNat_ofNat_of_lt (by omega)]
    exact h
  rw [decodeFrom, if_pos hlt, toNat_ofNat_of_lt (by omega)]

private theorem decodeFrom_start (h : 0x80 ≤ n) (h' : n < 256)
    (hstart : sequence? (UInt8.ofNat n) = some o) :
    decodeFrom none position (UInt8.ofNat n :: rest) = decodeFrom (some o) (position + 1) rest := by
  have hge : ¬ UInt8.ofNat n < 0x80 := by
    rw [UInt8.lt_iff_toNat_lt, toNat_ofNat_of_lt h', Nat.not_lt]
    exact h
  rw [decodeFrom, if_neg hge, hstart]

/-- The sequence with the bits of one more byte. -/
def Sequence.next (o : Sequence) (n : Nat) : Sequence :=
  { o with more := o.more + 1, bits := o.bits * 64 + (n - 0x80), owed := o.owed - 1, low := 0x80
           high := 0xBF }

private theorem push_ofNat (hhigh : n ≤ o.high.toNat) : o.push (UInt8.ofNat n) = o.next n := by
  have := o.high.toNat_lt
  rw [Sequence.push, toNat_ofNat_of_lt (by omega), Sequence.next]

private theorem within_bounds (hlow : o.low.toNat ≤ n) (hhigh : n ≤ o.high.toNat) :
    o.low ≤ UInt8.ofNat n ∧ UInt8.ofNat n ≤ o.high := by
  have := o.high.toNat_lt
  rw [UInt8.le_iff_toNat_le, UInt8.le_iff_toNat_le, toNat_ofNat_of_lt (by omega)]
  exact ⟨hlow, hhigh⟩

/-- A byte within the bounds continues a sequence, if more than one is owed. -/
private theorem decodeFrom_continue (howed : 1 < o.owed) (hlow : o.low.toNat ≤ n)
    (hhigh : n ≤ o.high.toNat) :
    decodeFrom (some o) position (UInt8.ofNat n :: rest)
      = decodeFrom (some (o.next n)) (position + 1) rest := by
  rw [decodeFrom, if_pos (within_bounds hlow hhigh), if_neg (Nat.not_le.2 howed),
    push_ofNat hhigh]

private theorem decodeFrom_end (howed : o.owed ≤ 1) (hlow : o.low.toNat ≤ n)
    (hhigh : n ≤ o.high.toNat) : decodeFrom (some o) position (UInt8.ofNat n :: rest)
      = (decodeFrom none (position + 1) rest).map (Char.ofNat (o.next n).bits :: ·) := by
  rw [decodeFrom, if_pos (within_bounds hlow hhigh), if_pos howed, push_ofNat hhigh]

/-! ### First bytes -/

private theorem ofNat_lt_iff (h : n < 256) (b : UInt8) : UInt8.ofNat n < b ↔ n < b.toNat := by
  rw [UInt8.lt_iff_toNat_lt, toNat_ofNat_of_lt h]

private theorem ofNat_eq_iff (h : n < 256) (b : UInt8) : UInt8.ofNat n = b ↔ n = b.toNat := by
  rw [← UInt8.toNat_inj, toNat_ofNat_of_lt h]

private theorem sequence?_ofNat (h : n < 256) : sequence? (UInt8.ofNat n) =
    if n < 0xC2 then none
    else if n < 0xE0 then some ⟨UInt8.ofNat n, 0, n - 0xC0, 1, 0x80, 0xBF⟩
    else if n < 0xF0 then
      some ⟨UInt8.ofNat n, 0, n - 0xE0, 2, if n = 0xE0 then 0xA0 else 0x80,
        if n = 0xED then 0x9F else 0xBF⟩
    else if n < 0xF5 then
      some ⟨UInt8.ofNat n, 0, n - 0xF0, 3, if n = 0xF0 then 0x90 else 0x80,
        if n = 0xF4 then 0x8F else 0xBF⟩
    else none := by
  simp only [sequence?, ofNat_lt_iff h, ofNat_eq_iff h, toNat_ofNat_of_lt h]
  rfl

private theorem sequence?_two (h : 0xC2 ≤ n) (h' : n < 0xE0) :
    sequence? (UInt8.ofNat n) = some ⟨UInt8.ofNat n, 0, n - 0xC0, 1, 0x80, 0xBF⟩ := by
  rw [sequence?_ofNat (by omega), if_neg (by omega), if_pos h']

private theorem sequence?_three (h : 0xE0 ≤ n) (h' : n < 0xF0) :
    sequence? (UInt8.ofNat n) = some ⟨UInt8.ofNat n, 0, n - 0xE0, 2,
      if n = 0xE0 then 0xA0 else 0x80, if n = 0xED then 0x9F else 0xBF⟩ := by
  rw [sequence?_ofNat (by omega), if_neg (by omega), if_neg (by omega), if_pos h']

private theorem sequence?_four (h : 0xF0 ≤ n) (h' : n < 0xF5) :
    sequence? (UInt8.ofNat n) = some ⟨UInt8.ofNat n, 0, n - 0xF0, 3,
      if n = 0xF0 then 0x90 else 0x80, if n = 0xF4 then 0x8F else 0xBF⟩ := by
  rw [sequence?_ofNat (by omega), if_neg (by omega), if_neg (by omega), if_neg (by omega),
    if_pos h']

private theorem toNat_ite_le {p : Prop} [Decidable p] {a b : UInt8} (h : p → a.toNat ≤ n)
    (h' : ¬ p → b.toNat ≤ n) : (if p then a else b).toNat ≤ n := by
  by_cases hp : p
  · rw [if_pos hp]
    exact h hp
  · rw [if_neg hp]
    exact h' hp

private theorem le_toNat_ite {p : Prop} [Decidable p] {a b : UInt8} (h : p → n ≤ a.toNat)
    (h' : ¬ p → n ≤ b.toNat) : n ≤ (if p then a else b).toNat := by
  by_cases hp : p
  · rw [if_pos hp]
    exact h hp
  · rw [if_neg hp]
    exact h' hp

/-! ### Characters and texts -/

variable {v : Nat}

private theorem decodeFrom_two (h : 0x80 ≤ v) (h' : v < 0x800) :
    decodeFrom none position
        (UInt8.ofNat (v / 64 % 32 + 192) :: UInt8.ofNat (v % 64 + 128) :: rest)
      = (decodeFrom none (position + 2) rest).map (Char.ofNat v :: ·) := by
  rw [decodeFrom_start (by omega) (by omega) (sequence?_two (by omega) (by omega)),
    decodeFrom_end]
  · have hbits : (v / 64 % 32 + 192 - 0xC0) * 64 + (v % 64 + 128 - 0x80) = v := by omega
    simp only [Sequence.next, hbits]
  · exact Nat.le_refl 1
  · exact Nat.le_add_left _ _
  · show v % 64 + 128 ≤ 0xBF
    omega

/-- The bounds on the second byte leave out what has two bytes, and the numbers below 0xE000 that
are those of no character. -/
private theorem decodeFrom_three (h : 0x800 ≤ v) (h' : v < 0x10000)
    (hvalid : v < 0xD800 ∨ 0xDFFF < v) :
    decodeFrom none position (UInt8.ofNat (v / 4096 % 16 + 224) ::
        UInt8.ofNat (v / 64 % 64 + 128) :: UInt8.ofNat (v % 64 + 128) :: rest)
      = (decodeFrom none (position + 3) rest).map (Char.ofNat v :: ·) := by
  rw [decodeFrom_start (by omega) (by omega) (sequence?_three (by omega) (by omega)),
    decodeFrom_continue, decodeFrom_end]
  · have hbits : ((v / 4096 % 16 + 224 - 0xE0) * 64 + (v / 64 % 64 + 128 - 0x80)) * 64
        + (v % 64 + 128 - 0x80) = v := by omega
    simp only [Sequence.next, hbits]
  · exact Nat.le_refl 1
  · exact Nat.le_add_left _ _
  · show v % 64 + 128 ≤ 0xBF
    omega
  · exact Nat.le_refl 2
  · refine toNat_ite_le (fun hfirst => ?_) (fun _ => Nat.le_add_left _ _)
    show 0xA0 ≤ v / 64 % 64 + 128
    omega
  · refine le_toNat_ite (fun hfirst => ?_) (fun _ => ?_)
    · show v / 64 % 64 + 128 ≤ 0x9F
      omega
    · show v / 64 % 64 + 128 ≤ 0xBF
      omega

/-- The bounds on the second byte leave out what has three bytes, and the numbers above the last
one. -/
private theorem decodeFrom_four (h : 0x10000 ≤ v) (h' : v < 0x110000) :
    decodeFrom none position (UInt8.ofNat (v / 262144 % 8 + 240) ::
        UInt8.ofNat (v / 4096 % 64 + 128) :: UInt8.ofNat (v / 64 % 64 + 128) ::
        UInt8.ofNat (v % 64 + 128) :: rest)
      = (decodeFrom none (position + 4) rest).map (Char.ofNat v :: ·) := by
  rw [decodeFrom_start (by omega) (by omega) (sequence?_four (by omega) (by omega)),
    decodeFrom_continue, decodeFrom_continue, decodeFrom_end]
  · have hbits : (((v / 262144 % 8 + 240 - 0xF0) * 64 + (v / 4096 % 64 + 128 - 0x80)) * 64
        + (v / 64 % 64 + 128 - 0x80)) * 64 + (v % 64 + 128 - 0x80) = v := by omega
    simp only [Sequence.next, hbits]
  · exact Nat.le_refl 1
  · exact Nat.le_add_left _ _
  · show v % 64 + 128 ≤ 0xBF
    omega
  · exact Nat.le_refl 2
  · exact Nat.le_add_left _ _
  · show v / 64 % 64 + 128 ≤ 0xBF
    omega
  · exact Nat.le_succ 2
  · refine toNat_ite_le (fun hfirst => ?_) (fun _ => Nat.le_add_left _ _)
    show 0x90 ≤ v / 4096 % 64 + 128
    omega
  · refine le_toNat_ite (fun hfirst => ?_) (fun _ => ?_)
    · show v / 4096 % 64 + 128 ≤ 0x8F
      omega
    · show v / 4096 % 64 + 128 ≤ 0xBF
      omega

theorem decodeFrom_utf8EncodeChar (c : Char) (position : Nat) (rest : Bytes) :
    decodeFrom none position (String.utf8EncodeChar c ++ rest)
      = (decodeFrom none (position + (String.utf8EncodeChar c).length) rest).map (c :: ·) := by
  have hchar : Char.ofNat c.val.toNat = c := Char.ofNat_toNat c
  have hvalid : c.val.toNat < 0xD800 ∨ 0xDFFF < c.val.toNat ∧ c.val.toNat < 0x110000 := c.valid
  rw [String.utf8EncodeChar]
  generalize c.val.toNat = v at hchar hvalid
  subst hchar
  by_cases hone : v ≤ 127
  · rw [if_pos hone]
    exact decodeFrom_ascii (by omega)
  · rw [if_neg hone]
    by_cases htwo : v ≤ 2047
    · rw [if_pos htwo]
      exact decodeFrom_two (by omega) (by omega)
    · rw [if_neg htwo]
      by_cases hthree : v ≤ 65535
      · rw [if_pos hthree]
        exact decodeFrom_three (by omega) (by omega) (by omega)
      · rw [if_neg hthree]
        exact decodeFrom_four (by omega) (by omega)

/-- **Every text is read back as it was written.** -/
theorem decode_encode (t : Text) : decode (encode t) = .ok t := by
  have hfrom : ∀ position, decodeFrom none position (encode t) = .ok t := by
    induction t with
    | nil => exact fun _ => rfl
    | cons c rest ih =>
        intro position
        rw [encode_cons, decodeFrom_utf8EncodeChar, ih]
        rfl
  exact hfrom 0

/-- A text that begins with a slash has no mark that could be taken away. -/
theorem readSource_encode {t : Text} (hslash : t.head? = some '/') (hreturn : '\r' ∉ t) :
    readSource (encode t) = .ok t := by
  obtain ⟨rest, rfl⟩ : ∃ rest, t = '/' :: rest := by
    cases t with
    | nil => cases hslash
    | cons c rest => exact ⟨rest, by rw [Option.some.inj hslash]⟩
  have hmark : dropByteOrderMark (encode ('/' :: rest)) = encode ('/' :: rest) := by
    rw [encode_cons]
    rfl
  rw [readSource, hmark, decode_encode]
  exact congrArg Except.ok (Text.normalizeNewlines_eq_self hreturn)

end Utf8

end SolidityBundler
