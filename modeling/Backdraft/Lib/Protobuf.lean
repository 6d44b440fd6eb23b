import Mathlib.Tactic

/-!
# The protobuf wire format

A message is a sequence of fields.  A field starts with a number in base 128 that holds the number
of the field and its wire type, and the wire type says how its value is read.

* `getVarint`, `putVarint`: numbers in base 128, lowest digit first, of a bounded number of bytes;
* `Field`, `getField`, `putField`, `scan`: the fields of a message;
* `scan_flatMap_putField`: fields that are written are read back;
* `lastVarint`, `lastBytes`: the value of a field of a message, which is that of its last
  occurrence.

The scan checks the form of a message only: it takes any field number, and a reader may refuse
more.  The wire types of groups, which are no longer part of the format, are refused.
-/

namespace Protobuf

/-- A number of at most `k` bytes at the start of a sequence, and the bytes after it. -/
def getVarint : ℕ → List UInt8 → Option (ℕ × List UInt8)
  | 0, _ => none
  | _ + 1, [] => none
  | k + 1, b :: l =>
    if b.toNat < 128 then some (b.toNat, l)
    else
      match getVarint k l with
      | some (v, r) => some (b.toNat - 128 + 128 * v, r)
      | none => none

/-- A number as a sequence of at most `k` bytes. -/
def putVarint : ℕ → ℕ → List UInt8
  | 0, _ => []
  | k + 1, v =>
    if v < 128 then [UInt8.ofNat v] else UInt8.ofNat (v % 128 + 128) :: putVarint k (v / 128)

/-- The value of a field, by its wire type. -/
inductive Value
  | varint (v : ℕ)
  | fixed64 (b : List UInt8)
  | bytes (b : List UInt8)
  | fixed32 (b : List UInt8)
  deriving DecidableEq

/-- A field of a message. -/
structure Field where
  number : ℕ
  value : Value
  deriving DecidableEq

/-- The first `n` bytes, and those after them. -/
def getBytes (n : ℕ) (l : List UInt8) : Option (List UInt8 × List UInt8) :=
  if n ≤ l.length then some (l.take n, l.drop n) else none

/-- The value of a field of the given wire type, and the bytes after it. -/
def getValue (wireType : ℕ) (l : List UInt8) : Option (Value × List UInt8) :=
  match wireType with
  | 0 => (getVarint 10 l).map fun (v, r) => (.varint v, r)
  | 1 => (getBytes 8 l).map fun (b, r) => (.fixed64 b, r)
  | 2 => (getVarint 10 l).bind fun (n, r) => (getBytes n r).map fun (b, r) => (.bytes b, r)
  | 5 => (getBytes 4 l).map fun (b, r) => (.fixed32 b, r)
  | _ => none

/-- The first field of a sequence, and the bytes after it. -/
def getField (l : List UInt8) : Option (Field × List UInt8) :=
  (getVarint 10 l).bind fun (tag, r) =>
    (getValue (tag % 8) r).map fun (v, r) => (⟨tag / 8, v⟩, r)

/-- The fields of a sequence, at most `k`. -/
def getFields : ℕ → List UInt8 → Option (List Field)
  | _, [] => some []
  | 0, _ :: _ => none
  | k + 1, b :: l =>
    match getField (b :: l) with
    | some (f, r) => (getFields k r).map (f :: ·)
    | none => none

/-- The fields of a message. -/
def scan (l : List UInt8) : Option (List Field) := getFields l.length l

/-- The wire type of a value. -/
def Value.wireType : Value → ℕ
  | .varint _ => 0
  | .fixed64 _ => 1
  | .bytes _ => 2
  | .fixed32 _ => 5

/-- A value as bytes. -/
def Value.put : Value → List UInt8
  | .varint v => putVarint 10 v
  | .fixed64 b => b
  | .bytes b => putVarint 10 b.length ++ b
  | .fixed32 b => b

/-- A field as bytes. -/
def putField (f : Field) : List UInt8 :=
  putVarint 10 (8 * f.number + f.value.wireType) ++ f.value.put

/-- The values that have a form on the wire. -/
def Value.Fits : Value → Prop
  | .varint v => v < 2 ^ 64
  | .fixed64 b => b.length = 8
  | .bytes b => b.length < 2 ^ 64
  | .fixed32 b => b.length = 4

/-- The fields that have a form on the wire. -/
structure Field.Fits (f : Field) : Prop where
  number : f.number < 2 ^ 29
  value : f.value.Fits

/-! ### What is written is read back -/

variable {k v : ℕ} {r : List UInt8}

theorem toNat_ofNat_byte (h : v < 256) : (UInt8.ofNat v).toNat = v :=
  UInt8.toNat_ofNat_of_lt' h

theorem getVarint_putVarint (h : v < 128 ^ (k + 1)) :
    getVarint (k + 1) (putVarint (k + 1) v ++ r) = some (v, r) := by
  induction k generalizing v with
  | zero =>
    have hv : v < 128 := by simpa using h
    have hbyte : (UInt8.ofNat v).toNat = v := toNat_ofNat_byte (by omega)
    simp [putVarint, getVarint, hv, hbyte]
  | succ k ih =>
    by_cases hv : v < 128
    · have hbyte : (UInt8.ofNat v).toNat = v := toNat_ofNat_byte (by omega)
      simp [putVarint, getVarint, hv, hbyte]
    · have hdiv : v / 128 < 128 ^ (k + 1) :=
        Nat.div_lt_of_lt_mul (by rwa [pow_succ'] at h)
      have hbyte : (UInt8.ofNat (v % 128 + 128)).toNat = v % 128 + 128 :=
        toNat_ofNat_byte (by omega)
      rw [putVarint, if_neg hv, List.cons_append, getVarint, hbyte, if_neg (by omega), ih hdiv]
      simp only [Option.some.injEq, Prod.mk.injEq, and_true]
      omega

theorem putVarint_ne_nil : putVarint (k + 1) v ≠ [] := by
  rw [putVarint]
  split <;> simp

theorem getBytes_append {n : ℕ} {b : List UInt8} (h : b.length = n) :
    getBytes n (b ++ r) = some (b, r) := by
  subst h
  simp [getBytes]

theorem getValue_put {x : Value} (h : x.Fits) :
    getValue x.wireType (x.put ++ r) = some (x, r) := by
  cases x with
  | varint v =>
    have hv : v < 128 ^ 10 := lt_trans h (by norm_num)
    simp [Value.wireType, Value.put, getValue, getVarint_putVarint hv]
  | fixed64 b => simp [Value.wireType, Value.put, getValue, getBytes_append h]
  | bytes b =>
    have hb : b.length < 128 ^ 10 := lt_trans h (by norm_num)
    simp [Value.wireType, Value.put, getValue, getVarint_putVarint hb, getBytes_append]
  | fixed32 b => simp [Value.wireType, Value.put, getValue, getBytes_append h]

theorem Value.wireType_lt (x : Value) : x.wireType < 8 := by
  cases x <;> simp [wireType]

theorem putField_ne_nil (f : Field) : putField f ≠ [] :=
  List.append_ne_nil_of_left_ne_nil putVarint_ne_nil _

theorem getField_putField {f : Field} (h : f.Fits) : getField (putField f ++ r) = some (f, r) := by
  have hwire := f.value.wireType_lt
  have htag : 8 * f.number + f.value.wireType < 128 ^ 10 := by
    have hnumber := h.number
    omega
  have hmod : (8 * f.number + f.value.wireType) % 8 = f.value.wireType := by omega
  have hdiv : (8 * f.number + f.value.wireType) / 8 = f.number := by omega
  rw [putField, getField, List.append_assoc, getVarint_putVarint htag]
  simp [hmod, hdiv, getValue_put h.value]

theorem getFields_flatMap_putField {fs : List Field} (hfits : ∀ f ∈ fs, f.Fits)
    (hk : fs.length ≤ k) : getFields k (fs.flatMap putField) = some fs := by
  induction fs generalizing k with
  | nil => simp [getFields]
  | cons f fs ih =>
    obtain ⟨k, rfl⟩ := Nat.exists_eq_succ_of_ne_zero (Nat.ne_of_gt (Nat.zero_lt_of_lt hk))
    have hfield : getField (putField f ++ fs.flatMap putField) = some (f, fs.flatMap putField) :=
      getField_putField (hfits f List.mem_cons_self)
    obtain ⟨b, l, hbl⟩ := List.exists_cons_of_ne_nil (putField_ne_nil f)
    rw [List.flatMap_cons, hbl, List.cons_append, getFields, ← List.cons_append, ← hbl, hfield]
    simp [ih (fun g hg => hfits g (List.mem_cons_of_mem f hg)) (by simpa using hk)]

theorem length_le_flatMap_putField (fs : List Field) :
    fs.length ≤ (fs.flatMap putField).length := by
  induction fs with
  | nil => simp
  | cons f fs ih =>
    have hpos := List.length_pos_iff.2 (putField_ne_nil f)
    rw [List.flatMap_cons, List.length_append, List.length_cons]
    omega

/-- **The fields of a message are read back as they were written.** -/
theorem scan_flatMap_putField {fs : List Field} (hfits : ∀ f ∈ fs, f.Fits) :
    scan (fs.flatMap putField) = some fs :=
  getFields_flatMap_putField hfits (length_le_flatMap_putField fs)

/-! ### What a scan reads -/

section Scan

variable {l : List UInt8} {x : Value} {f : Field} {w n : ℕ} {b : List UInt8}

theorem getVarint_suffix (h : getVarint k l = some (v, r)) : r <:+ l ∧ r.length < l.length := by
  induction k generalizing l v with
  | zero => simp [getVarint] at h
  | succ k ih =>
    obtain _ | ⟨b, l⟩ := l
    · simp [getVarint] at h
    rw [getVarint] at h
    split_ifs at h with hb
    · cases h
      exact ⟨List.suffix_cons b r, by simp⟩
    · split at h
      · next v' r' hv =>
        cases h
        obtain ⟨hsuffix, hlen⟩ := ih hv
        exact ⟨hsuffix.trans (List.suffix_cons b l), by simp only [List.length_cons]; omega⟩
      · cases h

theorem getBytes_suffix (h : getBytes n l = some (b, r)) : r <:+ l := by
  unfold getBytes at h
  split_ifs at h
  cases h
  exact List.drop_suffix n l

/-- A value is read from the start of a sequence, and a number as a number. -/
theorem getValue_eq_some (h : getValue w l = some (x, r)) :
    r <:+ l ∧ ∀ v, x = .varint v → getVarint 10 l = some (v, r) := by
  unfold getValue at h
  split at h
  · obtain ⟨⟨v, r'⟩, hv, heq⟩ := Option.map_eq_some_iff.1 h
    cases heq
    exact ⟨(getVarint_suffix hv).1, fun v hx => by cases hx; exact hv⟩
  · obtain ⟨⟨b, r'⟩, hb, heq⟩ := Option.map_eq_some_iff.1 h
    cases heq
    exact ⟨getBytes_suffix hb, fun v hx => by cases hx⟩
  · obtain ⟨⟨n, r'⟩, hn, hbytes⟩ := Option.bind_eq_some_iff.1 h
    obtain ⟨⟨b, r''⟩, hb, heq⟩ := Option.map_eq_some_iff.1 hbytes
    cases heq
    exact ⟨(getBytes_suffix hb).trans (getVarint_suffix hn).1, fun v hx => by cases hx⟩
  · obtain ⟨⟨b, r'⟩, hb, heq⟩ := Option.map_eq_some_iff.1 h
    cases heq
    exact ⟨getBytes_suffix hb, fun v hx => by cases hx⟩
  · cases h

/-- A field is a tag and the value after it. -/
theorem getField_eq_some (h : getField l = some (f, r)) :
    ∃ tag r', getVarint 10 l = some (tag, r') ∧ getValue (tag % 8) r' = some (f.value, r) ∧
      f.number = tag / 8 := by
  obtain ⟨⟨tag, r'⟩, htag, hvalue⟩ := Option.bind_eq_some_iff.1 h
  obtain ⟨⟨x, r''⟩, hx, heq⟩ := Option.map_eq_some_iff.1 hvalue
  cases heq
  exact ⟨tag, r', htag, hx, rfl⟩

theorem getFields_succ_eq_some {a : UInt8} {fs : List Field}
    (h : getFields (k + 1) (a :: l) = some fs) :
    ∃ f r fs', getField (a :: l) = some (f, r) ∧ getFields k r = some fs' ∧ fs = f :: fs' := by
  rw [getFields] at h
  split at h
  · next f r hf =>
    obtain ⟨fs', hfs, rfl⟩ := Option.map_eq_some_iff.1 h
    exact ⟨f, r, fs', hf, hfs, rfl⟩
  · cases h

/-- The numbers in the fields of a sequence are read at places after its start. -/
theorem varint_le_of_mem_getFields {c : ℕ} {fs : List Field} (h : getFields k l = some fs)
    (hc : ∀ s, s <:+ l → s.length < l.length → ∀ v r, getVarint 10 s = some (v, r) → v ≤ c)
    (hmem : ⟨n, .varint v⟩ ∈ fs) : v ≤ c := by
  induction k generalizing l fs with
  | zero =>
    obtain _ | ⟨b, l⟩ := l
    · cases h
      simp at hmem
    · cases h
  | succ k ih =>
    obtain _ | ⟨b, l⟩ := l
    · cases h
      simp at hmem
    obtain ⟨f, r, fs, hf, hfs, rfl⟩ := getFields_succ_eq_some h
    obtain ⟨tag, r', htag, hvalue, -⟩ := getField_eq_some hf
    obtain ⟨hsuffix', hlen'⟩ := getVarint_suffix htag
    obtain ⟨hsuffix, hvarint⟩ := getValue_eq_some hvalue
    have hlen := hsuffix.length_le
    obtain rfl | hmem := List.mem_cons.1 hmem
    · exact hc r' hsuffix' hlen' v r (hvarint v rfl)
    · exact ih hfs (fun s hs hslen => hc s ((hs.trans hsuffix).trans hsuffix') (by omega)) hmem

end Scan

/-! ### The fields of a message by their numbers -/

/-- The number in a field, if it is field `n`, and `acc` otherwise. -/
def Field.varintOr (n acc : ℕ) (f : Field) : ℕ :=
  match f.value with
  | .varint v => if f.number = n then v else acc
  | _ => acc

/-- The bytes in a field, if it is field `n`, and `acc` otherwise. -/
def Field.bytesOr (n : ℕ) (acc : List UInt8) (f : Field) : List UInt8 :=
  match f.value with
  | .bytes b => if f.number = n then b else acc
  | _ => acc

/-- The last number given for field `n`, or `acc`. -/
def lastVarint (n : ℕ) (fs : List Field) (acc : ℕ) : ℕ := fs.foldl (Field.varintOr n) acc

/-- The last bytes given for field `n`, or `acc`. -/
def lastBytes (n : ℕ) (fs : List Field) (acc : List UInt8) : List UInt8 :=
  fs.foldl (Field.bytesOr n) acc

/-- A field that holds a number; it is left out when it is zero. -/
def varintField (n v : ℕ) : List Field := if v = 0 then [] else [⟨n, .varint v⟩]

/-- A field that holds bytes; it is left out when there are none. -/
def bytesField (n : ℕ) (b : List UInt8) : List Field := if b = [] then [] else [⟨n, .bytes b⟩]

section Lookup

variable {n m acc : ℕ} {b accBytes : List UInt8} {fs gs : List Field}

@[simp] theorem lastVarint_append :
    lastVarint n (fs ++ gs) acc = lastVarint n gs (lastVarint n fs acc) :=
  List.foldl_append

@[simp] theorem lastBytes_append :
    lastBytes n (fs ++ gs) accBytes = lastBytes n gs (lastBytes n fs accBytes) :=
  List.foldl_append

@[simp] theorem lastVarint_varintField_self : lastVarint n (varintField n v) 0 = v := by
  by_cases hv : v = 0 <;> simp [varintField, lastVarint, Field.varintOr, hv]

theorem lastVarint_varintField_of_ne (h : m ≠ n) : lastVarint n (varintField m v) acc = acc := by
  by_cases hv : v = 0 <;> simp [varintField, lastVarint, Field.varintOr, hv, h]

@[simp] theorem lastVarint_bytesField : lastVarint n (bytesField m b) acc = acc := by
  by_cases hb : b = [] <;> simp [bytesField, lastVarint, Field.varintOr, hb]

@[simp] theorem lastBytes_bytesField_self : lastBytes n (bytesField n b) [] = b := by
  by_cases hb : b = [] <;> simp [bytesField, lastBytes, Field.bytesOr, hb]

theorem lastBytes_bytesField_of_ne (h : m ≠ n) :
    lastBytes n (bytesField m b) accBytes = accBytes := by
  by_cases hb : b = [] <;> simp [bytesField, lastBytes, Field.bytesOr, hb, h]

@[simp] theorem lastBytes_varintField : lastBytes n (varintField m v) accBytes = accBytes := by
  by_cases hv : v = 0 <;> simp [varintField, lastBytes, Field.bytesOr, hv]

theorem fits_varintField (hm : m < 2 ^ 29) (hv : v < 2 ^ 64) : ∀ f ∈ varintField m v, f.Fits := by
  intro f hf
  unfold varintField at hf
  split_ifs at hf
  · simp at hf
  · rw [List.mem_singleton.1 hf]
    exact ⟨hm, hv⟩

theorem fits_bytesField (hm : m < 2 ^ 29) (hb : b.length < 2 ^ 64) :
    ∀ f ∈ bytesField m b, f.Fits := by
  intro f hf
  unfold bytesField at hf
  split_ifs at hf
  · simp at hf
  · rw [List.mem_singleton.1 hf]
    exact ⟨hm, hb⟩

/-- A bound on the numbers given for a field is one on its value. -/
theorem lastVarint_le {c : ℕ} (hfs : ∀ v, (⟨n, .varint v⟩ : Field) ∈ fs → v ≤ c) (hacc : acc ≤ c) :
    lastVarint n fs acc ≤ c := by
  induction fs generalizing acc with
  | nil => exact hacc
  | cons f fs ih =>
    refine ih (fun v hv => hfs v (List.mem_cons_of_mem f hv)) ?_
    obtain ⟨number, value⟩ := f
    unfold Field.varintOr
    split
    · split_ifs with hn
      · subst hn
        simp_all
      · exact hacc
    · exact hacc

end Lookup

end Protobuf
