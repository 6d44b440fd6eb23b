import Backdraft.Lib.LongestPrefix
import Backdraft.Lib.Run
import Backdraft.Overlay.Inspect

/-!
# The broker of the overlay

An `OBroker` sends packets by the longest prefix that matches their destination address, and by a
default gate if there is none.  A message of the overlay about an address is meant for the queue
that packets for this address go to, so `broker` resolves the address again and signals the module
behind the gate.

* `RteLpm`: the functions of `rte_lpm` that are used, and `RteLpm.Correct`, that they are a
  longest-prefix match;
* `OBroker`: the commands with their checks, `processBatch` and `broker`;
* `OBroker.processBatch_eq`: the loop that takes four packets at a time sends each packet the way
  `route` says;
* `OBroker.broker_follows_iff`: `broker` follows the data path for an address just when the gate of
  the matching rule is connected, or no rule matches and the default gate is not connected.

The output gates are a list with `none` for a null pointer, and the module behind a gate stands for
the gate.  Packets are the bytes from `head_data` on.
-/

namespace Backdraft

open Bytes LongestPrefix

/-! ### The library of the longest-prefix match -/

/-- The functions of `rte_lpm`.  `create` fails with `rte_errno` and its text, `add` and `delete`
return a code, and `lookup` returns the next hop on a hit. -/
structure RteLpm (L : Type) where
  create : ℕ → ℕ → Except (ℤ × String) L
  add : L → ℕ → ℕ → ℕ → ℤ × L
  delete : L → ℕ → ℕ → ℤ × L
  deleteAll : L → L
  lookup : L → ℕ → Option ℕ
  lookupx4 : L → (Fin 4 → ℕ) → ℕ → Fin 4 → ℕ

/-- The library is a longest-prefix match of the rules that a table holds. -/
structure RteLpm.Correct {L : Type} (lpm : RteLpm L) (rules : L → Rules ℕ) : Prop where
  create_rules : ∀ {maxRules numberTbl8s l}, lpm.create maxRules numberTbl8s = .ok l →
    rules l = fun _ _ => none
  add_rules : ∀ {l ip depth nextHop l'}, lpm.add l ip depth nextHop = (0, l') →
    rules l' = insert (rules l) depth (network 32 depth ip) nextHop
  delete_rules : ∀ {l ip depth l'}, lpm.delete l ip depth = (0, l') →
    rules l' = erase (rules l) depth (network 32 depth ip)
  deleteAll_rules : ∀ l, rules (lpm.deleteAll l) = fun _ _ => none
  lookup_iff : ∀ {l ip nextHop}, lpm.lookup l ip = some nextHop ↔ Longest 32 (rules l) ip nextHop
  lookupx4_eq : ∀ l ip defv i, lpm.lookupx4 l ip defv i = (lpm.lookup l (ip i)).getD defv

/-- A library without limits, whose tables are the rules themselves. -/
def ruleLpm : RteLpm (Rules ℕ) where
  create _ _ := .ok fun _ _ => none
  add l ip depth nextHop := (0, insert l depth (network 32 depth ip) nextHop)
  delete l ip depth := (0, erase l depth (network 32 depth ip))
  deleteAll _ := fun _ _ => none
  lookup l ip := lookup 32 l ip
  lookupx4 l ip defv i := (lookup 32 l (ip i)).getD defv

theorem ruleLpm_correct : ruleLpm.Correct id where
  create_rules h := (Except.ok.inj h).symm
  add_rules h := (Prod.mk.inj h).2.symm
  delete_rules h := (Prod.mk.inj h).2.symm
  deleteAll_rules _ := rfl
  lookup_iff := lookup_eq_some_iff
  lookupx4_eq _ _ _ _ := rfl

/-! ### Addresses -/

/-- `isspace`. -/
def isSpaceChar (c : Char) : Bool := c = ' ' || (9 ≤ c.toNat && c.toNat ≤ 13)

/-- The conversion `%u` of `sscanf`, with the rest of the text.  The digits are read by `strtoul`,
which stops at the greatest number of 64 bits and negates after a minus sign. -/
def scanUnsigned (s : List Char) : Option (ℕ × List Char) :=
  let s := s.dropWhile isSpaceChar
  let neg := s.head? = some '-'
  let s := if neg ∨ s.head? = some '+' then s.tail else s
  let digits := s.takeWhile Char.isDigit
  let n := digits.foldl (fun n c => 10 * n + (c.toNat - '0'.toNat)) 0
  let n := if 2 ^ 64 ≤ n then 2 ^ 64 - 1 else if neg then (2 ^ 64 - n) % 2 ^ 64 else n
  if digits = [] then none else some (n % 2 ^ 32, s.dropWhile Char.isDigit)

/-- A point of the format of `sscanf`. -/
def scanPoint : List Char → Option (List Char)
  | '.' :: s => some s
  | _ => none

/-- `ParseIpv4Address`, with the format `%u.%u.%u.%u`.  Text after the address is not looked at. -/
def parseIpv4Address (str : String) : Option ℕ := do
  let (a, s) ← scanUnsigned str.toList
  let (b, s) ← scanUnsigned (← scanPoint s)
  let (c, s) ← scanUnsigned (← scanPoint s)
  let (d, _) ← scanUnsigned (← scanPoint s)
  if a ≥ 256 ∨ b ≥ 256 ∨ c ≥ 256 ∨ d ≥ 256 then none
  else some (a * 2 ^ 24 + b * 2 ^ 16 + c * 2 ^ 8 + d)

/-- `SetBitsLow<uint32_t>`: the `n` leading bits are set. -/
def setBitsLow (n : ℕ) : ℕ :=
  if n = 0 then 0 else if n ≥ 32 then 2 ^ 32 - 1 else 2 ^ 32 - 1 - (2 ^ (32 - n) - 1)

/-- The conversion `%x`. -/
def formatHex (n : ℕ) : String := String.ofList (Nat.toDigits 16 n)

/-! ### The module -/

/-- `DROP_GATE`. -/
def dropGate : ℕ := maxGates

/-- `is_valid_gate`. -/
def isValidGate (gate : ℕ) : Prop := gate < maxGates ∨ gate = dropGate

instance : DecidablePred isValidGate := fun gate =>
  inferInstanceAs (Decidable (gate < maxGates ∨ gate = dropGate))

/-- The state of an `OBroker`. -/
structure OBroker (L : Type) where
  lpm : L
  defaultGate : ℕ

/-- The commands, with the fields of their arguments. -/
inductive BrokerCommand
  | add (pfx : String) (prefixLen gate : ℕ)
  | delete (pfx : String) (prefixLen : ℕ)
  | clear

/-- What a call of `broker` does: it counts at a module and signals it, it only logs that the
address is not registered, or it goes through a gate that is not there. -/
inductive Brokered (μ : Type*)
  | signalled (m : μ) (isOver : Bool)
  | unregistered
  | missingGate
  deriving DecidableEq

/-- A module is connected to the gate. -/
def Connected {μ : Type*} (ogates : List (Option μ)) (gate : ℕ) : Prop :=
  ∃ m, ogates[gate]? = some (some m)

/-- `EmitPacket`: the module the packet goes to, and `none` if it is dropped.  The gate is a
parameter of 16 bits. -/
def emitPacket {μ : Type*} (ogates : List (Option μ)) (ogateIdx : ℕ) : Option μ :=
  (ogates[ogateIdx % 2 ^ 16]?).join

namespace OBroker

variable {L : Type} {μ : Type*} (lpm : RteLpm L)

/-- `Init`, with the fields of its argument. -/
def init (maxRules maxTbl8s : ℕ) : Except CommandError (OBroker L) :=
  match lpm.create (if maxRules = 0 then 1024 else maxRules)
      (if maxTbl8s = 0 then 128 else maxTbl8s) with
  | .ok l => .ok ⟨l, dropGate⟩
  | .error (rteErrno, text) => .error ⟨rteErrno, "DPDK error: " ++ text⟩

/-- `ParseIpv4Prefix`: the network address, or the failure of the command. -/
def parseIpv4Prefix (pfx : String) (prefixLen : ℕ) : Except CommandError ℕ :=
  if pfx.length = 0 then .error ⟨einval, "prefix' is missing"⟩
  else
    match parseIpv4Address pfx with
    | none => .error ⟨einval, "Invalid IP prefix: " ++ pfx⟩
    | some netAddr =>
      let netMask := setBitsLow prefixLen
      if prefixLen > 32 then .error ⟨einval, "Invalid prefix length: " ++ toString prefixLen⟩
      else if netAddr &&& (2 ^ 32 - 1 - netMask) ≠ 0 then
        .error ⟨einval, "Invalid IP prefix " ++ pfx ++ "/" ++ toString prefixLen ++ " " ++
          formatHex netAddr ++ " " ++ formatHex netMask⟩
      else .ok netAddr

/-- The end of a command that has called the library: what this returned, and the new table. -/
def lpmReturned (b : OBroker L) (errmsg : String) : ℤ × L → Except CommandError (OBroker L)
  | (ret, l) => if ret ≠ 0 then .error ⟨-ret, errmsg⟩ else .ok { b with lpm := l }

/-- `CommandAdd`; the gate is cut to 16 bits before it is checked. -/
def commandAdd (b : OBroker L) (pfx : String) (prefixLen gate : ℕ) :
    Except CommandError (OBroker L) := do
  let gate := gate % 2 ^ 16
  let netAddr ← parseIpv4Prefix pfx prefixLen
  if ¬isValidGate gate then .error ⟨einval, "Invalid gate: " ++ toString gate⟩
  else if prefixLen = 0 then .ok { b with defaultGate := gate }
  else b.lpmReturned "rpm_lpm_add() failed" (lpm.add b.lpm netAddr prefixLen gate)

/-- `CommandDelete`. -/
def commandDelete (b : OBroker L) (pfx : String) (prefixLen : ℕ) :
    Except CommandError (OBroker L) := do
  let netAddr ← parseIpv4Prefix pfx prefixLen
  if prefixLen = 0 then .ok { b with defaultGate := dropGate }
  else b.lpmReturned "rpm_lpm_delete() failed" (lpm.delete b.lpm netAddr prefixLen)

/-- `CommandClear`, which keeps the default gate. -/
def commandClear (b : OBroker L) : OBroker L := { b with lpm := lpm.deleteAll b.lpm }

/-- One command. -/
def command (b : OBroker L) : BrokerCommand → Except CommandError (OBroker L)
  | .add pfx prefixLen gate => b.commandAdd lpm pfx prefixLen gate
  | .delete pfx prefixLen => b.commandDelete lpm pfx prefixLen
  | .clear => .ok (b.commandClear lpm)

/-- `ProcessBatch`: for each packet the module it goes to.  Four packets are looked up at a time,
and the rest one by one. -/
def processBatch (b : OBroker L) (ogates : List (Option μ)) : List Mem → List (Option μ)
  | p0 :: p1 :: p2 :: p3 :: pkts =>
    let nextHops := lpm.lookupx4 b.lpm ![ipDst p0, ipDst p1, ipDst p2, ipDst p3] b.defaultGate
    emitPacket ogates (nextHops 0) :: emitPacket ogates (nextHops 1) ::
      emitPacket ogates (nextHops 2) :: emitPacket ogates (nextHops 3) ::
        processBatch b ogates pkts
  | pkts => pkts.map fun pkt =>
    match lpm.lookup b.lpm (ipDst pkt) with
    | some nextHop => emitPacket ogates nextHop
    | none => emitPacket ogates b.defaultGate

/-- `broker`; its parameter `over` is `isOver` here.  Nothing is checked before the gate is used,
and the default gate is not looked at. -/
def broker (b : OBroker L) (ogates : List (Option μ)) (addr : ℕ) (isOver : Bool) : Brokered μ :=
  match lpm.lookup b.lpm addr with
  | some nextHop =>
    match ogates[nextHop]? with
    | some (some m) => .signalled m isOver
    | _ => .missingGate
  | none => .unregistered

/-! ### The data path -/

section DataPath

variable {lpm} {rules : L → Rules ℕ} {b b₀ b' : OBroker L} {ogates : List (Option μ)} {addr : ℕ}

/-- Where a packet with destination `addr` goes. -/
def route (lpm : RteLpm L) (b : OBroker L) (ogates : List (Option μ)) (addr : ℕ) : Option μ :=
  emitPacket ogates ((lpm.lookup b.lpm addr).getD b.defaultGate)

theorem lookup_route (addr : ℕ) :
    (match lpm.lookup b.lpm addr with
      | some nextHop => emitPacket ogates nextHop
      | none => emitPacket ogates b.defaultGate) = b.route lpm ogates addr := by
  rw [route]
  cases lpm.lookup b.lpm addr <;> rfl

/-- The two ways of looking up send a packet the same way. -/
theorem processBatch_eq (hlpm : lpm.Correct rules) (batch : List Mem) :
    b.processBatch lpm ogates batch = batch.map fun pkt => b.route lpm ogates (ipDst pkt) := by
  fun_induction processBatch lpm b ogates batch with
  | case1 p0 p1 p2 p3 pkts nextHops ih => simp [nextHops, hlpm.lookupx4_eq, ih, route]
  | case2 pkts hshort => simp only [lookup_route]

/-! ### The gates of the routing state -/

/-- All gates of the routing state have passed the check. -/
structure ValidGates (rules : L → Rules ℕ) (b : OBroker L) : Prop where
  rule : ∀ depth net gate, rules b.lpm depth net = some gate → isValidGate gate
  default : isValidGate b.defaultGate

theorem lt_of_isValidGate {gate : ℕ} (h : isValidGate gate) : gate < 2 ^ 16 := by
  rcases h with h | h
  · exact h.trans (by decide)
  · exact h.trans_lt (by decide)

theorem lpmReturned_eq_ok {errmsg : String} {r : ℤ × L} (h : b.lpmReturned errmsg r = .ok b') :
    ∃ l, r = (0, l) ∧ b' = { b with lpm := l } := by
  obtain ⟨ret, l⟩ := r
  rw [lpmReturned] at h
  split_ifs at h with hret
  exact ⟨l, by rw [not_not.1 hret], (Except.ok.inj h).symm⟩

/-- What an accepted `add` has done. -/
theorem commandAdd_eq_ok {pfx : String} {prefixLen gate : ℕ}
    (h : b.commandAdd lpm pfx prefixLen gate = .ok b') :
    isValidGate (gate % 2 ^ 16) ∧
      (b' = { b with defaultGate := gate % 2 ^ 16 } ∨
        ∃ netAddr l, lpm.add b.lpm netAddr prefixLen (gate % 2 ^ 16) = (0, l) ∧
          b' = { b with lpm := l }) := by
  rw [commandAdd] at h
  obtain ⟨netAddr, -, h⟩ := Run.bind_eq_ok.1 h
  split_ifs at h with hvalid hlen
  · exact ⟨hvalid, .inl (Except.ok.inj h).symm⟩
  · exact ⟨hvalid, .inr ⟨netAddr, lpmReturned_eq_ok h⟩⟩

/-- What an accepted `delete` has done. -/
theorem commandDelete_eq_ok {pfx : String} {prefixLen : ℕ}
    (h : b.commandDelete lpm pfx prefixLen = .ok b') :
    b' = { b with defaultGate := dropGate } ∨
      ∃ netAddr l, lpm.delete b.lpm netAddr prefixLen = (0, l) ∧ b' = { b with lpm := l } := by
  rw [commandDelete] at h
  obtain ⟨netAddr, -, h⟩ := Run.bind_eq_ok.1 h
  split_ifs at h with hlen
  · exact .inl (Except.ok.inj h).symm
  · exact .inr ⟨netAddr, lpmReturned_eq_ok h⟩

theorem ValidGates.command (hlpm : lpm.Correct rules) (hb : ValidGates rules b)
    {c : BrokerCommand} (h : b.command lpm c = .ok b') : ValidGates rules b' := by
  cases c with
  | add pfx prefixLen gate =>
    obtain ⟨hvalid, rfl | ⟨netAddr, l, hadd, rfl⟩⟩ := commandAdd_eq_ok h
    · exact ⟨hb.rule, hvalid⟩
    · refine ⟨fun depth net g hg => ?_, hb.default⟩
      rw [hlpm.add_rules hadd] at hg
      rcases insert_eq_some hg with rfl | hold
      · exact hvalid
      · exact hb.rule depth net g hold
  | delete pfx prefixLen =>
    obtain rfl | ⟨netAddr, l, hdel, rfl⟩ := commandDelete_eq_ok h
    · exact ⟨hb.rule, .inr rfl⟩
    · refine ⟨fun depth net g hg => ?_, hb.default⟩
      rw [hlpm.delete_rules hdel] at hg
      exact hb.rule depth net g (erase_eq_some hg)
  | clear =>
    obtain rfl := Except.ok.inj h
    refine ⟨fun depth net g hg => ?_, hb.default⟩
    rw [commandClear, hlpm.deleteAll_rules] at hg
    exact absurd hg (by simp)

theorem ValidGates.init (hlpm : lpm.Correct rules) {maxRules maxTbl8s : ℕ}
    (h : OBroker.init lpm maxRules maxTbl8s = .ok b) : ValidGates rules b := by
  rw [OBroker.init] at h
  split at h
  · rename_i l hcreate
    obtain rfl := Except.ok.inj h
    refine ⟨fun depth net g hg => ?_, .inr rfl⟩
    rw [hlpm.create_rules hcreate] at hg
    exact absurd hg (by simp)
  · exact absurd h (by simp)

/-- The commands lead to routing states with valid gates only. -/
theorem validGates_of_reach (hlpm : lpm.Correct rules) {maxRules maxTbl8s : ℕ}
    (hinit : OBroker.init lpm maxRules maxTbl8s = .ok b₀)
    (hrun : Run.ReachIf (command lpm) (fun _ _ => true) b₀ b) : ValidGates rules b :=
  hrun.invariant (ValidGates.init hlpm hinit) fun _ _ _ hu _ hstep => hu.command hlpm hstep

/-! ### The broker on the data path -/

/-- What `broker` should do about an address whose packets go to the given module or are dropped. -/
def meant (isOver : Bool) : Option μ → Brokered μ
  | some m => .signalled m isOver
  | none => .unregistered

/-- `broker` follows the data path for `addr`: wherever a packet with this destination stands in a
batch, the module that `ProcessBatch` sends it to is the one that is signalled, and none is, through
no missing gate, if the packet is dropped. -/
def Follows (lpm : RteLpm L) (b : OBroker L) (ogates : List (Option μ)) (addr : ℕ)
    (isOver : Bool) : Prop :=
  ∀ (batch : List Mem) (i : ℕ) (pkt : Mem), batch[i]? = some pkt → ipDst pkt = addr →
    ∃ out, (b.processBatch lpm ogates batch)[i]? = some out ∧
      b.broker lpm ogates addr isOver = meant isOver out

theorem exists_ipDst (haddr : addr < 2 ^ 32) : ∃ pkt : Mem, ipDst pkt = addr := by
  refine ⟨Mem.store (fun _ => 0) (14 + 16) (toBE 4 addr), ?_⟩
  rw [ipDst, Mem.load_store_of_length length_toBE]
  exact ofBE_toBE_of_lt haddr

variable {isOver : Bool}

theorem follows_iff_meant_route (hlpm : lpm.Correct rules) (haddr : addr < 2 ^ 32) :
    Follows lpm b ogates addr isOver ↔
      b.broker lpm ogates addr isOver = meant isOver (b.route lpm ogates addr) := by
  constructor
  · intro h
    obtain ⟨pkt, hpkt⟩ := exists_ipDst haddr
    obtain ⟨out, hout, hbroker⟩ := h [pkt] 0 pkt rfl hpkt
    rw [processBatch_eq hlpm, List.map_singleton, hpkt] at hout
    rw [hbroker, ← Option.some.inj hout]
  · intro h batch i pkt hpkt hdst
    refine ⟨b.route lpm ogates addr, ?_, h⟩
    rw [processBatch_eq hlpm, List.getElem?_map, hpkt, ← hdst]
    rfl

theorem emitPacket_eq_none_iff {gate : ℕ} (h : gate < 2 ^ 16) :
    emitPacket ogates gate = none ↔ ¬Connected ogates gate := by
  rw [emitPacket, Nat.mod_eq_of_lt h, Connected]
  rcases ogates[gate]? with - | - | m <;> simp

/-- On a hit the broker does what is meant just when the gate is connected. -/
theorem broker_of_hit {nextHop : ℕ} (hhit : lpm.lookup b.lpm addr = some nextHop)
    (hhop : nextHop < 2 ^ 16) :
    b.broker lpm ogates addr isOver = meant isOver (b.route lpm ogates addr) ↔
      Connected ogates nextHop := by
  rw [broker, route, hhit, Option.getD_some, emitPacket, Nat.mod_eq_of_lt hhop, Connected]
  rcases hgate : ogates[nextHop]? with - | - | m <;> simp [meant, hgate]

/-- On a miss the broker does what is meant just when the default gate drops the packets. -/
theorem broker_of_miss (hmiss : lpm.lookup b.lpm addr = none) (hdefault : b.defaultGate < 2 ^ 16) :
    b.broker lpm ogates addr isOver = meant isOver (b.route lpm ogates addr) ↔
      ¬Connected ogates b.defaultGate := by
  rw [broker, route, hmiss, Option.getD_none, ← emitPacket_eq_none_iff hdefault]
  cases emitPacket ogates b.defaultGate <;> simp [meant]

/-- **The broker and the data path.**  In every routing state that the commands lead to, and for
every address, the broker follows the data path if and only if the gate of the matching rule is
connected and, where no rule matches, the default gate is not. -/
theorem broker_follows_iff (hlpm : lpm.Correct rules) {maxRules maxTbl8s : ℕ}
    (hinit : OBroker.init lpm maxRules maxTbl8s = .ok b₀)
    (hrun : Run.ReachIf (command lpm) (fun _ _ => true) b₀ b) (ogates : List (Option μ))
    (haddr : addr < 2 ^ 32) (isOver : Bool) :
    Follows lpm b ogates addr isOver ↔
      (∀ gate, Longest 32 (rules b.lpm) addr gate → Connected ogates gate) ∧
        ((∀ gate, ¬Longest 32 (rules b.lpm) addr gate) → ¬Connected ogates b.defaultGate) := by
  have hvalid := validGates_of_reach hlpm hinit hrun
  rw [follows_iff_meant_route hlpm haddr]
  cases hlookup : lpm.lookup b.lpm addr with
  | some nextHop =>
    have hlongest := hlpm.lookup_iff.1 hlookup
    have hgate : isValidGate nextHop := by
      obtain ⟨depth, hmatch, -⟩ := hlongest
      exact hvalid.rule depth _ nextHop hmatch.rule
    rw [broker_of_hit hlookup (lt_of_isValidGate hgate)]
    constructor
    · intro hconnected
      refine ⟨fun gate h => ?_, fun hnone => absurd hlongest (hnone nextHop)⟩
      have hsame := hlookup.symm.trans (hlpm.lookup_iff.2 h)
      rwa [← Option.some.inj hsame]
    · exact fun h => h.1 nextHop hlongest
  | none =>
    have hnone : ∀ gate, ¬Longest 32 (rules b.lpm) addr gate := by
      intro gate h
      exact absurd (hlookup.symm.trans (hlpm.lookup_iff.2 h)) (by simp)
    rw [broker_of_miss hlookup (lt_of_isValidGate hvalid.default)]
    exact ⟨fun h => ⟨fun gate hg => absurd hg (hnone gate), fun _ => h⟩, fun h => h.2 hnone⟩

/-- A rule for `10.0.0.0/8` to a gate that is connected. -/
theorem broker_follows_rule :
    ∃ b₀ b, OBroker.init ruleLpm 0 0 = .ok b₀ ∧
      Run.ReachIf (command ruleLpm) (fun _ _ => true) b₀ b ∧
      Follows ruleLpm b [some 7] 0x0a000001 true := by
  have hinit : OBroker.init ruleLpm 0 0 = .ok ⟨fun _ _ => none, dropGate⟩ := rfl
  have hstep : command ruleLpm ⟨fun _ _ => none, dropGate⟩ (.add "10.0.0.0" 8 0) =
      .ok ⟨insert (fun _ _ => none) 8 0x0a000000 0, dropGate⟩ := rfl
  have hrun := Relation.ReflTransGen.single (r := Run.StepIf (command ruleLpm) fun _ _ => true)
    ⟨_, rfl, hstep⟩
  have hlookup : lookup 32 (insert (fun _ _ => none) 8 0x0a000000 0) 0x0a000001 = some 0 := rfl
  refine ⟨_, _, hinit, hrun, (broker_follows_iff ruleLpm_correct hinit hrun [some 7] (by decide)
    true).2 ⟨fun gate h => ?_, fun h => ?_⟩⟩
  · have hgate := hlookup.symm.trans (lookup_eq_some_iff.2 h)
    exact ⟨7, by rw [← Option.some.inj hgate]; rfl⟩
  · exact absurd (lookup_eq_some_iff.1 hlookup) (h 0)

/-- With a rule to a gate that is not connected and a default gate that is, the broker goes through
the missing gate for an address of the rule, and signals no module for any other. -/
theorem broker_strays :
    ∃ b₀ b, OBroker.init ruleLpm 0 0 = .ok b₀ ∧
      Run.ReachIf (command ruleLpm) (fun _ _ => true) b₀ b ∧
      (b.route ruleLpm [some 7] 0x0a000001 = none ∧
        b.broker ruleLpm [some 7] 0x0a000001 true = .missingGate) ∧
      (b.route ruleLpm [some 7] 0x0b000001 = some 7 ∧
        b.broker ruleLpm [some 7] 0x0b000001 true = .unregistered) ∧
      ¬Follows ruleLpm b [some 7] 0x0a000001 true ∧
      ¬Follows ruleLpm b [some 7] 0x0b000001 true := by
  have hrule : command ruleLpm ⟨fun _ _ => none, dropGate⟩ (.add "10.0.0.0" 8 1) =
      .ok ⟨insert (fun _ _ => none) 8 0x0a000000 1, dropGate⟩ := rfl
  have hdefault : command ruleLpm ⟨insert (fun _ _ => none) 8 0x0a000000 1, dropGate⟩
      (.add "0.0.0.0" 0 0) = .ok ⟨insert (fun _ _ => none) 8 0x0a000000 1, 0⟩ := rfl
  have hrun := (Relation.ReflTransGen.single (r := Run.StepIf (command ruleLpm) fun _ _ => true)
    ⟨_, rfl, hrule⟩).tail ⟨_, rfl, hdefault⟩
  refine ⟨_, _, rfl, hrun, ⟨rfl, rfl⟩, ⟨rfl, rfl⟩, ?_, ?_⟩
  · rw [follows_iff_meant_route ruleLpm_correct (by decide)]
    decide
  · rw [follows_iff_meant_route ruleLpm_correct (by decide)]
    decide

end DataPath

end OBroker

end Backdraft
