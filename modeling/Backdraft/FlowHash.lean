import Backdraft.CuckooMap.Refusal
import Backdraft.Lib.Bytes
import Backdraft.QueueOut.FlowTable

/-!
# The hash of a flow

The tables of flows are cuckoo maps with `Flow::Hash`, the CRC-32C of the first 16 bytes of a flow,
and `Flow::EqualTo`.  Many flows have one hash, and the ninth of them is refused.

* `rteHashCrc`, `flowHash`;
* `sameHashFlow`, `ninth_refused`: nine flows with one hash, of which a new map takes eight.
-/

namespace Backdraft

/-- One bit of a CRC-32C. -/
def crcShift (c : BitVec 32) : BitVec 32 :=
  if c.getLsbD 0 then (c >>> 1) ^^^ 0x82f63b78 else c >>> 1

def crcByte (c : BitVec 32) (b : UInt8) : BitVec 32 :=
  Nat.iterate crcShift 8 (c ^^^ b.toBitVec.setWidth 32)

/-- `rte_hash_crc`. -/
def rteHashCrc (data : List UInt8) (initVal : BitVec 32) : BitVec 32 := data.foldl crcByte initVal

/-- The first 16 bytes of a `Flow`.  Addresses and ports are in network order, the protocol
is not. -/
def FlowTuple.bytes (f : FlowTuple) : List UInt8 :=
  Bytes.toBE 4 f.addrSrc ++ Bytes.toBE 4 f.addrDst ++ Bytes.toBE 2 f.portSrc ++
    Bytes.toBE 2 f.portDst ++ Bytes.toLE 4 f.protocol

/-- `Flow::Hash` and `Flow::EqualTo`. -/
def flowHash : KeyHash Flow FlowTuple where
  hasher f := (rteHashCrc f.toFlowTuple.bytes 0).setWidth 64
  eq := Flow.equalTo
  key := Flow.toFlowTuple
  eq_iff := fun _ _ => Flow.equalTo_iff
  hasher_eq := fun a b h => by rw [h]

open CuckooMap

/-- A map of flows, with two calls for one flow and one for another that is removed again. -/
theorem exists_run_new_flows :
    ∃ m rs f, run flowHash id (new initNumBucket initNumEntries)
        [.insert default 7, .insert default 8, .find default,
          .insert ⟨⟨1, 2, 3, 4, 6⟩, 0, 0⟩ 9, .remove ⟨⟨1, 2, 3, 4, 6⟩, 5, 5⟩, .entries] =
          some (m, rs) ∧
      MeetsAll flowHash (fun _ => none) [.insert default 7, .insert default 8, .find default,
        .insert ⟨⟨1, 2, 3, 4, 6⟩, 0, 0⟩ 9, .remove ⟨⟨1, 2, 3, 4, 6⟩, 5, 5⟩, .entries] rs f ∧
      Represents flowHash m f :=
  exists_run_new (V := ℕ) (fun _ => rfl) flowHash _

/-! ### Nine flows with one hash -/

/-- The addresses and ports from which they come. -/
def sameHashSources : List (ℕ × ℕ) :=
  [(167772161, 1000), (830945446, 1001), (2373492042, 1002), (3070207469, 1003), (82918038, 1004),
    (1064698417, 1005), (2206836701, 1006), (3087966074, 1007), (3885275434, 992)]

/-- TCP connections to port 443 of one host. -/
def sameHashFlow (n : ℕ) : Flow :=
  ⟨⟨(sameHashSources.getD n (0, 0)).1, 167772162, (sameHashSources.getD n (0, 0)).2, 443, 6⟩, 0, 0⟩

theorem hash_sameHashFlow : ∀ n < 9, flowHash.hash (sameHashFlow n) = 0xa231ece0 := by
  decide +kernel

/-- Insert the first eight into a new map. -/
def insertEight {V : Type} [Inhabited V] (val : ℕ → V) :
    Option (CuckooMap Flow V × List (Reply Flow V)) :=
  run flowHash id (new initNumBucket initNumEntries)
    ((List.range 8).map fun n => .insert (sameHashFlow n) (val n))

/-- All eight are taken, and the ninth is another. -/
def takesEight {V : Type} [Inhabited V] (val : ℕ → V) : Bool :=
  (insertEight val).elim false fun r =>
    (List.range 8).all (fun n => (r.1.find flowHash (sameHashFlow n)).isSome) &&
      (r.1.find flowHash (sameHashFlow 8)).isNone

/-- **The ninth is refused.** -/
theorem ninth_refused {V : Type} [Inhabited V] {val : ℕ → V} (h : takesEight val = true) (v : V) :
    ∃ m rs m', insertEight val = some (m, rs) ∧
      (∀ n < 8, (m.find flowHash (sameHashFlow n)).isSome = true) ∧
      m.insert flowHash id (sameHashFlow 8) v = some (m', none) := by
  obtain ⟨m, rs, f, hrun, -, hrep⟩ :=
    (represents_new (V := V) (H := flowHash) 2 (show 2 ≤ initNumEntries by decide)).exists_run
      (fun v => rfl : ∀ v, id v = v) ((List.range 8).map fun n => .insert (sameHashFlow n) (val n))
  have height : insertEight val = some (m, rs) := hrun
  simp only [takesEight, height, Option.elim_some, Bool.and_eq_true, List.all_eq_true,
    List.mem_range, Option.isNone_iff_eq_none] at h
  have hsome : ∀ k ∈ (List.range 8).map sameHashFlow,
      flowHash.hash k = flowHash.hash (sameHashFlow 8) ∧ f (flowHash.key k) ≠ none := by
    intro k hk
    obtain ⟨n, hn, rfl⟩ := List.mem_map.1 hk
    have hlt := List.mem_range.1 hn
    refine ⟨(hash_sameHashFlow n (by omega)).trans (hash_sameHashFlow 8 (by decide)).symm, ?_⟩
    rw [← hrep.find_eq]
    exact Option.isSome_iff_ne_none.1 (h.1 n hlt)
  obtain ⟨m', hins⟩ := hrep.refuses_of_eight (fun v => rfl : ∀ v, id v = v) (by decide)
    (by decide +kernel) hsome (by rw [← hrep.find_eq, h.2]) v
  exact ⟨m, rs, m', height, h.1, hins⟩

end Backdraft
