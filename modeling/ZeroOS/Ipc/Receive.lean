import ZeroOS.Ipc.Channel

/-!
# Receiving into a user buffer

The system calls take a message out of its channel first and look at the buffer of the caller
afterwards. A buffer that cannot be written costs the message: the caller gets an error, and the
envelope is gone.
-/

namespace ZeroOS.Ipc

open Transition

variable {μ : Type}

inductive SysError
  | invalidArgument
  | permissionDenied
  | channelUnavailable
  | wouldBlock
  deriving DecidableEq, Repr

def mapIpcError : IpcError → SysError
  | .channelBusy => .channelUnavailable
  | .empty => .wouldBlock
  | .accessDenied | .policyDenied => .permissionDenied
  | _ => .invalidArgument

/-- The size of a `Message`, and its alignment. -/
def messageSize : Nat := 132

def messageAlign : Nat := 4

/-- `copy_slice_to_user`, page by page. `accepts` is `validate_user_ptr` for the current process, and
`fuel` is at least what remains. -/
def copySliceToUser (accepts : Nat → Nat → Bool) : Nat → Nat → Nat → Except SysError Unit
  | 0, _, _ => .ok ()
  | fuel + 1, cur, remaining =>
    if remaining = 0 then .ok ()
    else
      let chunk := min remaining (4096 - cur % 4096)
      if accepts cur chunk then copySliceToUser accepts fuel (cur + chunk) (remaining - chunk)
      else .error .invalidArgument

def copyMessageToUser (accepts : Nat → Nat → Bool) (addr : Nat) : Except SysError Unit :=
  if addr % messageAlign ≠ 0 then .error .invalidArgument
  else copySliceToUser accepts messageSize addr messageSize

section

variable (caps : Nat → BitVec 32) (accepts : Nat → Nat → Bool) (t : ChannelTable μ)

/-- The call of the channel table that each of the system calls begins with. -/
def dequeue (blocking : Bool) (pid chan : Nat) : Except IpcError (Option (Nat × μ)) × ChannelTable μ :=
  if blocking then t.receiveOrRegisterWaiter caps pid chan
  else ((t.receive caps pid chan).1.map some, (t.receive caps pid chan).2)

def receiveInto (blocking : Bool) (caller : Option Nat) (chan buffer : Nat) :
    Option (Except SysError Nat) × ChannelTable μ :=
  match caller with
  | none => (some (.error .permissionDenied), t)
  | some pid =>
    match dequeue caps t blocking pid chan with
    | (.ok (some (sender, _)), t') => (some ((copyMessageToUser accepts buffer).map fun _ => sender), t')
    | (.ok none, t') => (none, t')
    | (.error e, t') => (some (.error (mapIpcError e)), t')

/-- `complete_receive`, for a process that has blocked in `ReceiveMessage`. -/
def completeReceive (pid chan buffer : Nat) := receiveInto caps accepts t true (some pid) chan buffer

variable {caps accepts t}

end

def userVaLo : UInt64 := 0x200000

def kernelRegionStart : UInt64 := 0x40000000

def kernelRegionEnd : UInt64 := 0x80000000

def userVaMax : UInt64 := 0xFFFFF000

def checkedAdd (a b : UInt64) : Option UInt64 :=
  if a.toNat + b.toNat < 2 ^ 64 then some (a + b) else none

/-- `zero_abi::validate::validate_user_ptr`. -/
def validateUserPtr (addr size : UInt64) : Except SysError Unit :=
  if addr = 0 then .error .invalidArgument
  else if addr < userVaLo then .error .invalidArgument
  else if kernelRegionStart ≤ addr ∧ addr < kernelRegionEnd then .error .invalidArgument
  else
    match checkedAdd addr size with
    | none => .error .invalidArgument
    | some stop => if userVaMax < stop then .error .invalidArgument else .ok ()

lemma validateUserPtr_ok (h : validateUserPtr addr size = .ok ()) :
    0x200000 ≤ addr.toNat ∧ (addr.toNat < 0x40000000 ∨ 0x80000000 ≤ addr.toNat) ∧ addr.toNat + size.toNat ≤ 0xFFFFF000 := by
  unfold validateUserPtr checkedAdd at h
  split at h
  · cases h
  split at h
  · cases h
  next hl =>
    split at h
    · cases h
    next hk =>
      split at h
      · cases h
      next stop hs =>
        split at h
        · cases h
        next hm =>
          split at hs
          · cases hs
            simp only [userVaLo, userVaMax, kernelRegionStart, kernelRegionEnd, UInt64.lt_iff_toNat_lt,
              UInt64.le_iff_toNat_le, UInt64.toNat_add, UInt64.reduceToNat] at hl hk hm
            omega
          · cases hs

/-- A range that is accepted is one of user addresses, none of them the kernel's, unless it begins below
the kernel's region and goes on into it. -/
theorem accepted_range_avoids_kernel {addr size : UInt64} (h : validateUserPtr addr size = .ok ())
    (hbelow : addr < kernelRegionStart → addr.toNat + size.toNat ≤ kernelRegionStart.toNat) :
    addr.toNat + size.toNat < 2 ^ 64 ∧ ∀ a, addr.toNat ≤ a → a < addr.toNat + size.toNat →
      userVaLo.toNat ≤ a ∧ a < userVaMax.toNat ∧ (a < kernelRegionStart.toNat ∨ kernelRegionEnd.toNat ≤ a) := by
  obtain ⟨hl, hk, hm⟩ := validateUserPtr_ok h
  simp only [userVaLo, userVaMax, kernelRegionStart, kernelRegionEnd, UInt64.lt_iff_toNat_lt, UInt64.reduceToNat] at hbelow ⊢
  refine ⟨by omega, fun a hf hs => ?_⟩
  omega

theorem accepted_range_avoids_kernel_stack : validateUserPtr 0x80000000 0x7FFFF000 = .ok () ∧
    (0x80000000 : UInt64).toNat + (0x7FFFF000 : UInt64).toNat < 2 ^ 64 :=
  ⟨by decide, (@accepted_range_avoids_kernel 0x80000000 0x7FFFF000 (by decide) (by decide)).1⟩

/-- The two pages about the lower end of the kernel's region, and a range that has all of it inside. -/
theorem accepted_range_hits_kernel :
    validateUserPtr 0x3FFFF000 0x2000 = .ok () ∧ 0x3FFFF000 ≤ kernelRegionStart.toNat ∧
      kernelRegionStart.toNat < 0x3FFFF000 + 0x2000 ∧
    validateUserPtr 0x200000 0xFFDFF000 = .ok () ∧ kernelRegionEnd.toNat < 0x200000 + 0xFFDFF000 := by
  decide

end ZeroOS.Ipc
