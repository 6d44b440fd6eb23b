import Mathlib.Tactic

/-!
# What the modules share

The constants of the core that several modules use, what `CommandFailure` of `message.cc` puts into
a response, and the error codes of the modelled commands.
-/

namespace Backdraft

/-- `PacketBatch::kMaxBurst`; `max_burst` of `bkdrft_queue_inc.cc` is the same number. -/
def kMaxBurst : ℕ := 32

/-- `MAX_GATES`. -/
def maxGates : ℕ := 8192

/-- The message `CommandError`. -/
structure CommandError where
  code : ℤ
  errmsg : String
  deriving DecidableEq

/-- `ENOMEM`. -/
def enomem : ℤ := 12

/-- `EBUSY`. -/
def ebusy : ℤ := 16

/-- `ENODEV`. -/
def enodev : ℤ := 19

/-- `EINVAL`. -/
def einval : ℤ := 22

/-- `strerror`, of the codes that are used. -/
def strerror (code : ℤ) : String :=
  if code = enomem then "Cannot allocate memory"
  else if code = ebusy then "Device or resource busy"
  else if code = enodev then "No such device"
  else if code = einval then "Invalid argument"
  else "Unknown error " ++ toString code

/-- `CommandFailure` with a code alone. -/
def commandFailure (code : ℤ) : CommandError := ⟨code, strerror code⟩

end Backdraft
