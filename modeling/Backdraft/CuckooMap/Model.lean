import Backdraft.Lib.Placement
import Mathlib.Data.List.FinRange
import Mathlib.Data.Set.Card

/-!
# The cuckoo hash map

`CuckooMap` of `core/utils/cuckoo_map.h`, which holds the flows of the output modules and the
entries of the overlay control.  A key has a primary and a secondary bucket of four slots each.
A slot has the primary hash of its key and the index of its entry; an entry that finds both buckets
full displaces others, along paths of at most three moves, and after that the table is rebuilt
with twice the buckets.

* `KeyHash`: the template arguments `H` and `E`;
* `CuckooMap`, `find`, `remove`, `clear`, `count`, `toList`;
* `makeSpace`, `emplaceEntry`, `doEmplace`, `expandBuckets`;
* `WF`, `content`: the invariant, and the entries that a map stands for.

The vectors are functions with their sizes, the stack of free indices is a list, and
`kInvalidEntryIdx` and the null pointer are `none`.  `DoEmplace` calls itself through
`ExpandBuckets`: `doEmplace` has fuel for the depth of these calls, and `emplaceEntry` for the
jumps back to `again`.  `ExpandBuckets` moves the values to the new table; `moved v` is what the
move constructor leaves of the value `v`.
-/

namespace Backdraft

/-- The hash function `H` and the equality `E` of the keys.  `key` gives what `E` compares; keys
that are equal by it have the same hash. -/
structure KeyHash (K κ : Type*) where
  hasher : K → BitVec 64
  eq : K → K → Bool
  key : K → κ
  eq_iff : ∀ a b, eq a b = true ↔ key a = key b
  hasher_eq : ∀ a b, key a = key b → hasher a = hasher b

/-- `Bucket`.  A hash value 0 marks a slot that is not taken. -/
structure Bucket where
  hashValues : Fin 4 → BitVec 32
  entryIndices : Fin 4 → ℕ

/-- `CuckooMap`. -/
structure CuckooMap (K V : Type*) where
  bucketMask : BitVec 32
  numEntries : ℕ
  /-- `buckets_.size()` -/
  bucketCount : ℕ
  buckets : ℕ → Bucket
  /-- `entries_.size()` -/
  entryCount : ℕ
  entries : ℕ → K × V
  freeEntryIndices : List ℕ

/-- `HashSecondary`. -/
def hashSecondary (primary : BitVec 32) : BitVec 32 :=
  primary ^^^ ((primary >>> 12 + 1) * 0x5bd1e995)

variable {K V κ : Type*}

/-- `Hash`. -/
def KeyHash.hash (H : KeyHash K κ) (k : K) : BitVec 32 := (H.hasher k).setWidth 32 ||| 0x80000000

theorem KeyHash.hash_ne_zero (H : KeyHash K κ) (k : K) : H.hash k ≠ 0 := by
  intro h
  have hbit : (H.hash k).getLsbD 31 = true := by
    rw [KeyHash.hash, BitVec.getLsbD_or]
    simp
  simp [h] at hbit

theorem KeyHash.hash_eq (H : KeyHash K κ) {a b : K} (h : H.key a = H.key b) :
    H.hash a = H.hash b := by
  rw [KeyHash.hash, H.hasher_eq a b h, KeyHash.hash]

namespace CuckooMap

/-- `kInitNumBucket`. -/
def initNumBucket : ℕ := 4

/-- `kInitNumEntries`. -/
def initNumEntries : ℕ := 16

/-- `kMaxCuckooPath`. -/
def maxCuckooPath : ℕ := 3

section Values

variable [Inhabited K] [Inhabited V]

/-- The constructor, which pushes the free indices from the last to the first. -/
def new (reserveBuckets reserveEntries : ℕ) : CuckooMap K V where
  bucketMask := BitVec.ofNat 32 (reserveBuckets - 1)
  numEntries := 0
  bucketCount := reserveBuckets
  buckets := fun _ => ⟨fun _ => 0, fun _ => 0⟩
  entryCount := reserveEntries
  entries := fun _ => default
  freeEntryIndices := List.range reserveEntries

/-- `Clear`. -/
def clear (_ : CuckooMap K V) : CuckooMap K V := new initNumBucket initNumEntries

end Values

/-- `Count`. -/
def count (m : CuckooMap K V) : ℕ := m.numEntries

/-- The index of the bucket for a hash value. -/
def bucketOf (m : CuckooMap K V) (h : BitVec 32) : ℕ := (h &&& m.bucketMask).toNat

/-- The entry index in a slot, if the slot is taken. -/
def occ (m : CuckooMap K V) (p : ℕ × Fin 4) : Option ℕ :=
  if (m.buckets p.1).hashValues p.2 = 0 then none else some ((m.buckets p.1).entryIndices p.2)

/-- Write a hash value and an entry index to a slot. -/
def setSlot (m : CuckooMap K V) (p : ℕ × Fin 4) (h : BitVec 32) (idx : ℕ) : CuckooMap K V :=
  { m with
    buckets := Function.update m.buckets p.1
      ⟨Function.update (m.buckets p.1).hashValues p.2 h,
        Function.update (m.buckets p.1).entryIndices p.2 idx⟩ }

/-- `hash_values[i] = 0`. -/
def clearSlot (m : CuckooMap K V) (p : ℕ × Fin 4) : CuckooMap K V :=
  m.setSlot p 0 ((m.buckets p.1).entryIndices p.2)

/-! ### Lookup -/

/-- `FindEmptySlot`. -/
def findEmptySlot (m : CuckooMap K V) (b : ℕ) : Option (Fin 4) :=
  (List.finRange 4).find? fun i => (m.buckets b).hashValues i == 0

/-- `FindSlot`. -/
def findSlot (H : KeyHash K κ) (m : CuckooMap K V) (b : ℕ) (primary : BitVec 32) (key : K) :
    Option (Fin 4) :=
  (List.finRange 4).find? fun i =>
    (m.buckets b).hashValues i == primary &&
      H.eq (m.entries ((m.buckets b).entryIndices i)).1 key

/-- `GetFromBucket`. -/
def getFromBucket (H : KeyHash K κ) (m : CuckooMap K V) (primary : BitVec 32) (b : ℕ) (key : K) :
    Option ℕ :=
  (m.findSlot H b primary key).map (m.buckets b).entryIndices

/-- `FindWithHash`. -/
def findWithHash (H : KeyHash K κ) (m : CuckooMap K V) (primary : BitVec 32) (key : K) :
    Option ℕ :=
  match m.getFromBucket H primary (m.bucketOf primary) key with
  | some idx => some idx
  | none => m.getFromBucket H primary (m.bucketOf (hashSecondary primary)) key

/-- `Find`. -/
def find (H : KeyHash K κ) (m : CuckooMap K V) (key : K) : Option (K × V) :=
  (m.findWithHash H (H.hash key) key).map m.entries

/-- The entry indices in the order of the iterator, which goes through the taken slots. -/
def indices (m : CuckooMap K V) : List ℕ :=
  ((List.range m.bucketCount) ×ˢ List.finRange 4).filterMap m.occ

/-- The entries in the order of the iterator. -/
def toList (m : CuckooMap K V) : List (K × V) := m.indices.map m.entries

/-- Write the value of an entry. -/
def setValue (m : CuckooMap K V) (x : ℕ) (v : V) : CuckooMap K V :=
  { m with entries := Function.update m.entries x ((m.entries x).1, v) }

/-! ### Removal -/

section Values

variable [Inhabited K] [Inhabited V]

/-- `RemoveFromBucket`. -/
def removeFromBucket (H : KeyHash K κ) (m : CuckooMap K V) (primary : BitVec 32) (b : ℕ)
    (key : K) : Option (CuckooMap K V) :=
  (m.findSlot H b primary key).map fun i =>
    let idx := (m.buckets b).entryIndices i
    { m.clearSlot (b, i) with
      entries := Function.update m.entries idx default
      freeEntryIndices := idx :: m.freeEntryIndices
      numEntries := m.numEntries - 1 }

/-- `Remove`. -/
def remove (H : KeyHash K κ) (m : CuckooMap K V) (key : K) : CuckooMap K V × Bool :=
  let pri := H.hash key
  match m.removeFromBucket H pri (m.bucketOf pri) key with
  | some m' => (m', true)
  | none =>
    match m.removeFromBucket H pri (m.bucketOf (hashSecondary pri)) key with
    | some m' => (m', true)
    | none => (m, false)

/-! ### Insertion -/

/-- `ExpandEntries`. -/
def expandEntries (m : CuckooMap K V) : CuckooMap K V :=
  { m with
    entryCount := m.entryCount + m.entryCount / 2
    entries := fun i => if i < m.entryCount then m.entries i else default
    freeEntryIndices := List.range' m.entryCount (m.entryCount / 2) ++ m.freeEntryIndices }

/-- The first half of `PopFreeEntryIndex`. -/
def withFreeIndex (m : CuckooMap K V) : CuckooMap K V :=
  if m.freeEntryIndices.isEmpty then m.expandEntries else m

/-- `EmplaceInBucket`. -/
def emplaceInBucket (H : KeyHash K κ) (m : CuckooMap K V) (b : ℕ) (key : K) (v : V) :
    Option (CuckooMap K V × ℕ) :=
  (m.findEmptySlot b).map fun i =>
    let m₁ := m.withFreeIndex
    let idx := m₁.freeEntryIndices.headD 0
    ({ m₁.setSlot (b, i) (H.hash key) idx with
        entries := Function.update m₁.entries idx (key, v)
        freeEntryIndices := m₁.freeEntryIndices.tail
        numEntries := m₁.numEntries + 1 }, idx)

end Values

/-- The other bucket of the entry in a slot, as `MakeSpace` computes it. -/
def altIndex (H : KeyHash K κ) (m : CuckooMap K V) (p : ℕ × Fin 4) : Option ℕ :=
  let pri := H.hash (m.entries ((m.buckets p.1).entryIndices p.2)).1
  let sec := hashSecondary pri
  if pri = (m.buckets p.1).hashValues p.2 then some (m.bucketOf sec)
  else if sec = (m.buckets p.1).hashValues p.2 then some (m.bucketOf pri)
  else none

/-- Copy the slot `p` to the slot `q` and clear `p`. -/
def moveSlot (m : CuckooMap K V) (p q : ℕ × Fin 4) : CuckooMap K V :=
  (m.setSlot q ((m.buckets p.1).hashValues p.2) ((m.buckets p.1).entryIndices p.2)).clearSlot p

/-- The loop of `MakeSpace` over the slots of a bucket; `again` is the recursive call. -/
def makeSpaceLoop (H : KeyHash K κ) (again : CuckooMap K V → ℕ → CuckooMap K V × Option (Fin 4))
    (m : CuckooMap K V) (index : ℕ) : List (Fin 4) → CuckooMap K V × Option (Fin 4)
  | [] => (m, none)
  | i :: is =>
    match m.altIndex H (index, i) with
    | none => (m, none)
    | some alt =>
      let r := match m.findEmptySlot alt with
        | some j => (m, some j)
        | none => again m alt
      match r.2 with
      | some j => (r.1.moveSlot (index, i) (alt, j), some i)
      | none => makeSpaceLoop H again r.1 index is

/-- `MakeSpace`, with the number of levels that are left. -/
def makeSpace (H : KeyHash K κ) : ℕ → CuckooMap K V → ℕ → CuckooMap K V × Option (Fin 4)
  | 0, m, _ => (m, none)
  | d + 1, m, index => makeSpaceLoop H (makeSpace H d) m index (List.finRange 4)

section Values

variable [Inhabited K] [Inhabited V]

/-- `EmplaceEntry`; the fuel is for the jumps to `again`. -/
def emplaceEntry (H : KeyHash K κ) :
    ℕ → CuckooMap K V → K → V → Option (CuckooMap K V × Option ℕ)
  | 0, _, _, _ => none
  | fuel + 1, m, key, v =>
    let primary := m.bucketOf (H.hash key)
    let secondary := m.bucketOf (hashSecondary (H.hash key))
    match m.emplaceInBucket H primary key v with
    | some (m', idx) => some (m', some idx)
    | none =>
      match m.emplaceInBucket H secondary key v with
      | some (m', idx) => some (m', some idx)
      | none =>
        let r := m.makeSpace H maxCuckooPath primary
        if r.2.isSome then emplaceEntry H fuel r.1 key v
        else
          let r' := r.1.makeSpace H maxCuckooPath secondary
          if r'.2.isSome then emplaceEntry H fuel r'.1 key v else some (r'.1, none)

/-- The loop of `DoEmplace`, with the number of trials that are left. -/
def emplaceTrials (H : KeyHash K κ) (expand : CuckooMap K V → Option (CuckooMap K V)) :
    ℕ → CuckooMap K V → K → V → Option (CuckooMap K V × Option ℕ)
  | 0, m, _, _ => some (m, none)
  | n + 1, m, key, v =>
    (m.emplaceEntry H 2 key v).bind fun r =>
      match r.2 with
      | some idx => some (r.1, some idx)
      | none =>
        if n = 0 then some (r.1, none)
        else (expand r.1).bind fun m' => emplaceTrials H expand n m' key v

/-- The loop of `ExpandBuckets` over the entries of the old table, which ends when the new table
refuses one.  An entry that is put in the new table is moved out of the old one. -/
def refill (moved : V → V)
    (emplace : CuckooMap K V → K → V → Option (CuckooMap K V × Option ℕ)) :
    List ℕ → CuckooMap K V → CuckooMap K V → Option (CuckooMap K V × Option (CuckooMap K V))
  | [], m, bigger => some (m, some bigger)
  | x :: xs, m, bigger =>
    (emplace bigger (m.entries x).1 (m.entries x).2).bind fun r =>
      if r.2.isNone then some (m, none)
      else refill moved emplace xs (m.setValue x (moved (m.entries x).2)) r.1

/-- `ExpandBuckets`. -/
def expandBuckets (moved : V → V)
    (emplace : CuckooMap K V → K → V → Option (CuckooMap K V × Option ℕ))
    (m : CuckooMap K V) : Option (CuckooMap K V) :=
  (refill moved emplace m.indices m (new (m.bucketCount * 2) m.entryCount)).map fun r =>
    r.2.getD r.1

/-- `DoEmplace`. -/
def doEmplace (H : KeyHash K κ) (moved : V → V) :
    ℕ → CuckooMap K V → K → V → Option (CuckooMap K V × Option ℕ)
  | 0, _, _, _ => none
  | fuel + 1, m, key, v =>
    match m.findWithHash H (H.hash key) key with
    | some idx => some (m.setValue idx v, some idx)
    | none => emplaceTrials H (expandBuckets moved (doEmplace H moved fuel)) 3 m key v

/-- `Insert`.  The depth of the rebuilds is bounded by the number of entries. -/
def insert (H : KeyHash K κ) (moved : V → V) (m : CuckooMap K V) (key : K) (v : V) :
    Option (CuckooMap K V × Option ℕ) :=
  m.doEmplace H moved (m.numEntries + 1) key v

end Values

/-! ### The invariant -/

/-- The buckets of a key. -/
def Home (H : KeyHash K κ) (m : CuckooMap K V) (k : K) (b : ℕ) : Prop :=
  b = m.bucketOf (H.hash k) ∨ b = m.bucketOf (hashSecondary (H.hash k))

/-- An entry index that some slot refers to. -/
def Stored (m : CuckooMap K V) : ℕ → Prop := Placement.Holds m.occ

/-- The invariant of the map. -/
structure WF (H : KeyHash K κ) (m : CuckooMap K V) : Prop where
  pow : ∃ n, m.bucketCount = 2 ^ n
  mask : m.bucketMask = BitVec.ofNat 32 (m.bucketCount - 1)
  /-- an entry lies in one of the buckets of its key -/
  home : ∀ p idx, m.occ p = some idx → Home H m (m.entries idx).1 p.1
  hash : ∀ p idx, m.occ p = some idx →
    (m.buckets p.1).hashValues p.2 = H.hash (m.entries idx).1
  once : Placement.Once m.occ
  keys : ∀ x y, m.Stored x → m.Stored y → H.key (m.entries x).1 = H.key (m.entries y).1 → x = y
  free_nodup : m.freeEntryIndices.Nodup
  /-- an index is either free or in use -/
  free_iff : ∀ x, x ∈ m.freeEntryIndices ↔ x < m.entryCount ∧ ¬ m.Stored x
  stored_lt : ∀ x, m.Stored x → x < m.entryCount
  card : m.numEntries + m.freeEntryIndices.length = m.entryCount
  /-- so that `ExpandEntries` adds an index -/
  two_le : 2 ≤ m.entryCount

/-- The entries of the map. -/
def content (m : CuckooMap K V) : Set (K × V) := {e | ∃ x, m.Stored x ∧ m.entries x = e}

end CuckooMap

end Backdraft
