import Mathlib.Tactic
import Mathlib.Data.List.TakeWhile

/-!
# Ethernet addresses as text

`Address::ToString` and `Address::FromString` of `ether.cc`.  An address is printed as six bytes
of two hexadecimal digits with colons between them, and read with `sscanf` and the format
`%2hhx:%2hhx:%2hhx:%2hhx:%2hhx:%2hhx`.

* `toText`, `ofText`: the two functions, on the bytes of an address;
* `scanHex`: one conversion of `sscanf`;
* `fromString`: `FromString` on the address it writes to;
* `ofText_toText`: an address is read as it was printed.

A conversion skips white space, and within its width of two characters it takes a sign and the
prefix `0x` too.  Text after the sixth conversion is ignored, and so is all after a zero byte.
-/

namespace Backdraft.MacAddr

/-- A digit of `%02hhx`. -/
def hexDigit (n : ℕ) : UInt8 := if n < 10 then UInt8.ofNat (0x30 + n) else UInt8.ofNat (0x57 + n)

/-- `%02hhx`. -/
def hexByte (b : UInt8) : List UInt8 := [hexDigit (b.toNat / 16), hexDigit (b.toNat % 16)]

/-- `:`. -/
def colon : UInt8 := 0x3a

/-- `Address::ToString`. -/
def toText : List UInt8 → List UInt8
  | [] => []
  | [b] => hexByte b
  | b :: l => hexByte b ++ colon :: toText l

/-- `isspace`. -/
def isSpace (c : UInt8) : Bool := (9 ≤ c && c ≤ 13) || c = 32

/-- The value of a hexadecimal digit. -/
def hexVal (c : UInt8) : Option ℕ :=
  if 0x30 ≤ c ∧ c ≤ 0x39 then some (c.toNat - 0x30)
  else if 0x61 ≤ c ∧ c ≤ 0x66 then some (c.toNat - 0x57)
  else if 0x41 ≤ c ∧ c ≤ 0x46 then some (c.toNat - 0x37)
  else none

/-- The digits of a number, at most `w` of them, after digits of value `acc`. -/
def scanDigits : ℕ → List UInt8 → ℕ → ℕ × List UInt8
  | 0, s, acc => (acc, s)
  | _ + 1, [], acc => (acc, [])
  | w + 1, c :: s, acc =>
    match hexVal c with
    | some d => scanDigits w s (16 * acc + d)
    | none => (acc, c :: s)

/-- A number of at most `w` characters: a prefix `0x` is taken within the width, and the zero in
it is a digit. -/
def scanNumber : ℕ → List UInt8 → Option (ℕ × List UInt8)
  | 0, _ => none
  | _ + 1, [] => none
  | w + 1, c :: s =>
    match hexVal c with
    | none => none
    | some d =>
      match w, s with
      | w + 1, x :: s' =>
        if c = 0x30 ∧ (x = 0x78 ∨ x = 0x58) then some (scanDigits w s' 0)
        else some (scanDigits (w + 1) s d)
      | w, s => some (scanDigits w s d)

/-- The conversion `%2hhx`. -/
def scanHex (s : List UInt8) : Option (UInt8 × List UInt8) :=
  match s.dropWhile isSpace with
  | [] => none
  | c :: s' =>
    if c = 0x2b then (scanNumber 1 s').map fun (v, r) => (UInt8.ofNat v, r)
    else if c = 0x2d then (scanNumber 1 s').map fun (v, r) => (-UInt8.ofNat v, r)
    else (scanNumber 2 (c :: s')).map fun (v, r) => (UInt8.ofNat v, r)

/-- Conversions with colons between them. -/
def scanBytes : ℕ → List UInt8 → Option (List UInt8)
  | 0, _ => some []
  | k + 1, s =>
    match scanHex s with
    | none => none
    | some (b, r) =>
      if k = 0 then some [b]
      else
        match r with
        | [] => none
        | c :: r => if c = colon then (scanBytes k r).map (b :: ·) else none

/-- `Address::FromString`: the bytes of the address, if all six conversions are made. -/
def ofText (s : List UInt8) : Option (List UInt8) := scanBytes 6 (s.takeWhile (· ≠ 0))

/-- The bytes of the conversions that are made before one fails. -/
def converted : ℕ → List UInt8 → List UInt8
  | 0, _ => []
  | k + 1, s =>
    match scanHex s with
    | none => []
    | some (b, []) => [b]
    | some (b, c :: r) => if c = colon then b :: converted k r else [b]

/-- `Address::FromString` on an address with the given bytes, with its result: the bytes converted
are stored, whether there are six of them or not. -/
def fromString (bytes s : List UInt8) : List UInt8 × Bool :=
  let l := converted 6 (s.takeWhile (· ≠ 0))
  (l ++ bytes.drop l.length, decide (l.length = 6))

/-! ### The two readings -/

theorem converted_of_scanBytes {k : ℕ} {s l : List UInt8} (h : scanBytes k s = some l) :
    converted k s = l ∧ l.length = k := by
  induction k generalizing s l with
  | zero =>
    cases h
    exact ⟨rfl, rfl⟩
  | succ k ih =>
    unfold scanBytes at h
    cases hhex : scanHex s with
    | none => simp [hhex] at h
    | some r =>
      obtain ⟨b, r⟩ := r
      simp only [hhex] at h
      split_ifs at h with hk
      · cases h
        subst hk
        rcases r with - | ⟨c, r⟩ <;> simp [converted, hhex]
      · rcases r with - | ⟨c, r⟩
        · cases h
        · simp only at h
          split_ifs at h with hc
          obtain ⟨l', hl', rfl⟩ := Option.map_eq_some_iff.1 h
          obtain ⟨hconv, hlen⟩ := ih hl'
          simp [converted, hhex, hc, hconv, hlen]

theorem length_converted_of_scanBytes {k : ℕ} {s : List UInt8} (h : scanBytes k s = none) :
    (converted k s).length < k := by
  induction k generalizing s with
  | zero => cases h
  | succ k ih =>
    unfold scanBytes at h
    unfold converted
    cases hhex : scanHex s with
    | none => simp
    | some r =>
      obtain ⟨b, r⟩ := r
      simp only [hhex] at h
      split_ifs at h with hk
      rcases r with - | ⟨c, r⟩
      · simpa using Nat.pos_of_ne_zero hk
      · simp only at h ⊢
        split_ifs at h ⊢ with hc
        · simpa using ih (Option.map_eq_none_iff.1 h)
        · simpa using Nat.pos_of_ne_zero hk

theorem fromString_of_ofText {s l bytes : List UInt8} (h : ofText s = some l)
    (hbytes : bytes.length = 6) : fromString bytes s = (l, true) := by
  obtain ⟨hconv, hlen⟩ := converted_of_scanBytes h
  have hrest : bytes.drop 6 = [] := List.drop_eq_nil_of_le hbytes.le
  simp only [fromString, hconv, hrest, List.append_nil, hlen, decide_true]

theorem fromString_of_not_ofText {s : List UInt8} (h : ofText s = none) (bytes : List UInt8) :
    (fromString bytes s).2 = false := by
  have hlen := length_converted_of_scanBytes h
  exact decide_eq_false (by omega)

/-! ### An address is read as it was printed -/

theorem hexVal_hexDigit {n : ℕ} (h : n < 16) : hexVal (hexDigit n) = some n := by
  interval_cases n <;> rfl

/-- A digit is not white space, a sign, the letter of a prefix, or the end of the text. -/
theorem hexDigit_ne {n : ℕ} (h : n < 16) :
    isSpace (hexDigit n) = false ∧ hexDigit n ≠ 0x2b ∧ hexDigit n ≠ 0x2d ∧
      hexDigit n ≠ 0x78 ∧ hexDigit n ≠ 0x58 ∧ hexDigit n ≠ 0 := by
  interval_cases n <;> decide

theorem toText_cons_cons (b c : UInt8) (l : List UInt8) :
    toText (b :: c :: l) = hexByte b ++ colon :: toText (c :: l) :=
  toText.eq_3 b (c :: l) (List.cons_ne_nil c l)

theorem scanHex_hexByte (b : UInt8) (r : List UInt8) : scanHex (hexByte b ++ r) = some (b, r) := by
  have hlt := b.toNat_lt
  have hhigh : b.toNat / 16 < 16 := by omega
  have hlow : b.toNat % 16 < 16 := Nat.mod_lt _ (by decide)
  obtain ⟨hspace, hplus, hminus, -⟩ := hexDigit_ne hhigh
  obtain ⟨-, -, -, hx, hX, -⟩ := hexDigit_ne hlow
  have hvalue : UInt8.ofNat (16 * (b.toNat / 16) + b.toNat % 16) = b := by
    rw [Nat.div_add_mod, UInt8.ofNat_toNat]
  simp [hexByte, scanHex, hspace, hplus, hminus, scanNumber, hexVal_hexDigit hhigh, hx, hX,
    scanDigits, hexVal_hexDigit hlow, hvalue]

theorem scanBytes_toText (l : List UInt8) : scanBytes l.length (toText l) = some l := by
  induction l with
  | nil => rfl
  | cons b l ih =>
    obtain _ | ⟨c, l⟩ := l
    · have hlast := scanHex_hexByte b []
      rw [List.append_nil] at hlast
      simp [toText, scanBytes, hlast]
    · rw [List.length_cons] at ih
      rw [toText_cons_cons, List.length_cons, List.length_cons, scanBytes, scanHex_hexByte]
      simp [ih]

theorem ne_zero_of_mem_toText (l : List UInt8) : ∀ c ∈ toText l, c ≠ 0 := by
  have hbyte : ∀ b, ∀ c ∈ hexByte b, c ≠ 0 := by
    intro b c hc
    have hlt := b.toNat_lt
    simp only [hexByte, List.mem_cons, List.not_mem_nil, or_false] at hc
    obtain rfl | rfl := hc
    · exact (hexDigit_ne (by omega)).2.2.2.2.2
    · exact (hexDigit_ne (Nat.mod_lt _ (by decide))).2.2.2.2.2
  induction l with
  | nil => simp [toText]
  | cons b l ih =>
    obtain _ | ⟨c, l⟩ := l
    · exact hbyte b
    · intro x hx
      rw [toText_cons_cons, List.mem_append, List.mem_cons] at hx
      obtain hx | rfl | hx := hx
      · exact hbyte b x hx
      · decide
      · exact ih x hx

/-- **An address is read as it was printed.** -/
theorem ofText_toText {l : List UInt8} (hl : l.length = 6) : ofText (toText l) = some l := by
  have hall : (toText l).takeWhile (· ≠ 0) = toText l :=
    List.takeWhile_eq_self_iff.2 fun c hc => by simpa using ne_zero_of_mem_toText l c hc
  rw [ofText, hall, ← hl, scanBytes_toText]

end Backdraft.MacAddr
