import Mathlib.Tactic
import Mathlib.Data.List.GetD

/-!
# Memory and numbers as bytes

* `Mem`, `load`, `store`: a byte at each address, and the reading and writing of several bytes.  A
  reading sees the last writing at its own addresses (`load_store_self`) and none that is disjoint
  from it (`load_store_of_disjoint`);
* `toLE`, `ofLE`, `toBE`, `ofBE`: numbers of a fixed width in the two byte orders, which are read
  back modulo the width (`ofLE_toLE`, `ofBE_toBE`).
-/

namespace Bytes

/-- A byte at each address. -/
abbrev Mem := ℕ → UInt8

namespace Mem

variable {m : Mem} {a b n x : ℕ} {l : List UInt8}

/-- The `n` bytes from address `a` on. -/
def load (m : Mem) (a n : ℕ) : List UInt8 := (List.range n).map fun i => m (a + i)

/-- Write the bytes `l` from address `a` on. -/
def store (m : Mem) (a : ℕ) (l : List UInt8) : Mem := fun x =>
  if a ≤ x then (l[x - a]?).getD (m x) else m x

@[simp] theorem length_load : (m.load a n).length = n := by simp [load]

theorem store_of_lt (h : x < a) : m.store a l x = m x := by
  simp only [store, if_neg (Nat.not_le.2 h)]

theorem store_of_le (h : a + l.length ≤ x) : m.store a l x = m x := by
  have hnone : l[x - a]? = none := List.getElem?_eq_none (by omega)
  simp [store, hnone]

/-- A writing changes the bytes at its own addresses only. -/
theorem store_of_disjoint (h : x < a ∨ a + l.length ≤ x) : m.store a l x = m x :=
  h.elim store_of_lt store_of_le

theorem load_succ : m.load a (n + 1) = m a :: m.load (a + 1) n := by
  simp [load, List.range_succ_eq_map, Function.comp_def, Nat.add_assoc, Nat.add_comm 1]

theorem load_add (k : ℕ) : m.load a (n + k) = m.load a n ++ m.load (a + n) k := by
  simp [load, List.range_add, Function.comp_def, Nat.add_assoc]

theorem store_singleton (v : UInt8) : m.store a [v] a = v := by simp [store]

theorem load_congr {m' : Mem} (h : ∀ x, a ≤ x → x < a + n → m x = m' x) :
    m.load a n = m'.load a n := by
  refine List.map_congr_left fun i hi => h _ (by omega) ?_
  have := List.mem_range.1 hi
  omega

theorem load_store_self : (m.store a l).load a l.length = l := by
  refine List.ext_getElem (by simp) fun i hi hi' => ?_
  simp [load, store, List.getElem?_eq_getElem hi']

/-- The form of `load_store_self` in which the length is given. -/
theorem load_store_of_length (h : l.length = n) : (m.store a l).load a n = l := by
  rw [← h, load_store_self]

theorem load_store_of_disjoint (h : b + n ≤ a ∨ a + l.length ≤ b) :
    (m.store a l).load b n = m.load b n :=
  load_congr fun x hb hn => store_of_disjoint (by omega)

/-- Bytes copied from another memory, one by one. -/
theorem store_load_apply {m' : Mem} :
    m.store a (m'.load b n) x = if a ≤ x ∧ x < a + n then m' (b + (x - a)) else m x := by
  by_cases hx : a ≤ x ∧ x < a + n
  · have hget : (List.range n)[x - a]? = some (x - a) := List.getElem?_range (by omega)
    simp [store, hx, load, hget]
  · rw [if_neg hx, store_of_disjoint (by rw [length_load]; omega)]

/-- The memory from address `k` on. -/
def shift (m : Mem) (k : ℕ) : Mem := fun x => m (k + x)

theorem load_shift (k : ℕ) : (m.shift k).load a n = m.load (k + a) n := by
  simp [load, shift, Nat.add_assoc]

theorem shift_store (k : ℕ) : (m.store (k + a) l).shift k = (m.shift k).store a l := by
  funext x
  simp [shift, store, Nat.add_sub_add_left]

end Mem

/-! ### Numbers -/

/-- The `k` low bytes of `v`, lowest first. -/
def toLE : ℕ → ℕ → List UInt8
  | 0, _ => []
  | k + 1, v => UInt8.ofNat v :: toLE k (v / 256)

/-- The number with the given bytes, lowest first. -/
def ofLE : List UInt8 → ℕ
  | [] => 0
  | b :: l => b.toNat + 256 * ofLE l

/-- The `k` low bytes of `v`, highest first. -/
def toBE (k v : ℕ) : List UInt8 := (toLE k v).reverse

/-- The number with the given bytes, highest first. -/
def ofBE (l : List UInt8) : ℕ := ofLE l.reverse

variable {k v : ℕ}

@[simp] theorem length_toLE : (toLE k v).length = k := by
  induction k generalizing v with
  | zero => rfl
  | succ k ih => rw [toLE, List.length_cons, ih]

@[simp] theorem length_toBE : (toBE k v).length = k := by
  rw [toBE, List.length_reverse, length_toLE]

/-- A number is read back modulo its width. -/
theorem ofLE_toLE : ofLE (toLE k v) = v % 256 ^ k := by
  induction k generalizing v with
  | zero => simp [toLE, ofLE, Nat.mod_one]
  | succ k ih =>
    have hbyte : (UInt8.ofNat v).toNat = v % 256 := UInt8.toNat_ofNat'
    rw [toLE, ofLE, ih, hbyte, pow_succ', Nat.mod_mul]

theorem ofBE_toBE : ofBE (toBE k v) = v % 256 ^ k := by
  rw [ofBE, toBE, List.reverse_reverse, ofLE_toLE]

theorem ofBE_toBE_of_lt (h : v < 256 ^ k) : ofBE (toBE k v) = v := by
  rw [ofBE_toBE, Nat.mod_eq_of_lt h]

/-- The bytes of a number are determined by it. -/
theorem toLE_ofLE (l : List UInt8) : toLE l.length (ofLE l) = l := by
  induction l with
  | nil => rfl
  | cons b l ih =>
    have hlt := b.toNat_lt
    have hdiv : (b.toNat + 256 * ofLE l) / 256 = ofLE l := by omega
    have hbyte : UInt8.ofNat (b.toNat + 256 * ofLE l) = b := by
      refine UInt8.toNat_inj.1 ?_
      rw [UInt8.toNat_ofNat']
      omega
    rw [List.length_cons, ofLE, toLE, hdiv, ih, hbyte]

theorem toBE_ofBE {l : List UInt8} (h : l.length = k) : toBE k (ofBE l) = l := by
  rw [toBE, ofBE, ← h, ← List.length_reverse, toLE_ofLE, List.reverse_reverse]

theorem load_eq_toLE {m : Mem} {a : ℕ} (h : ofLE (m.load a k) = v) : m.load a k = toLE k v := by
  rw [← h]
  conv_lhs => rw [← toLE_ofLE (m.load a k), Mem.length_load]

end Bytes
