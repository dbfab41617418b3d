import ZeroOS.Process.Record

/-!
# The result of a wait

A system call has one register for its result, and nine values at its upper end stand for errors. A wait packs a pid
and an exit code into the register. The pids go up to `2 ^ 32 - 1`, so that the last of them together with a small
negative code is one of the nine.
-/

namespace ZeroOS.Process

inductive SysError
  | invalidArgument
  | permissionDenied
  | channelUnavailable
  | notFound
  | noMemory
  | wouldBlock
  | deviceError
  | busy
  | notSupported
  deriving DecidableEq, Repr

/-- The discriminants of the enumeration. -/
def SysError.toNat : SysError → Nat
  | .invalidArgument => 0
  | .permissionDenied => 1
  | .channelUnavailable => 2
  | .notFound => 3
  | .noMemory => 4
  | .wouldBlock => 5
  | .deviceError => 6
  | .busy => 7
  | .notSupported => 8

def SysError.code (e : SysError) : Nat := 2 ^ 64 - 1 - e.toNat

def encodeResult : Except SysError Nat → Nat
  | .ok value => value
  | .error e => e.code

/-- `syscall::decode`, which compares with one code after the other. -/
def decodeResult (value : Nat) : Except SysError Nat :=
  match [SysError.invalidArgument, .permissionDenied, .channelUnavailable, .notFound, .noMemory, .wouldBlock,
    .deviceError, .busy, .notSupported].find? fun e => value = e.code with
  | some e => .error e
  | none => .ok value

def isErrorEncoded (value : Nat) : Bool := 2 ^ 64 - 1 - 8 ≤ value

/-- `value as u32 as i32` in the low half. -/
def unpackWaitResult (value : Nat) : Nat × Int :=
  (value / 2 ^ 32, if value % 2 ^ 32 < 2 ^ 31 then (value % 2 ^ 32 : Nat) else (value % 2 ^ 32 : Nat) - 2 ^ 32)

lemma iterate_nextPidRaw (h : n / 65534 < 2 ^ 48) : nextPidRaw^[n] 2 = n / 65534 * 2 ^ 16 + n % 65534 + 2 := by
  induction n with
  | zero => rfl
  | succ n ih =>
    rw [Function.iterate_succ_apply', ih (by omega)]
    unfold nextPidRaw
    split <;> omega

lemma decodeResult_eq_ok (h : value < 2 ^ 64) : decodeResult value = .ok value ↔ isErrorEncoded value = false := by
  have hc (e : SysError) : e.code = 2 ^ 64 - 1 - e.toNat := rfl
  unfold decodeResult isErrorEncoded
  split
  next e he =>
    have hv : value = e.code := by simpa using List.find?_some he
    have he : e.toNat ≤ 8 := by cases e <;> decide
    simp only [hc] at hv
    simp only [reduceCtorEq, decide_eq_false_iff_not, false_iff]
    omega
  next he =>
    simp only [List.find?_eq_none, List.mem_cons, decide_eq_true_eq, forall_eq_or_imp, hc, SysError.toNat] at he
    simp only [decide_eq_false_iff_not, true_iff]
    omega

lemma isErrorEncoded_packWaitResult (hp : pid < 2 ^ 32) (hl : -2 ^ 31 ≤ code) (hu : code < 2 ^ 31) :
    isErrorEncoded (packWaitResult pid code) = true ↔ pid = 2 ^ 32 - 1 ∧ -9 ≤ code ∧ code < 0 := by
  unfold isErrorEncoded packWaitResult
  rw [decide_eq_true_iff]
  omega

lemma unpack_packWaitResult (hp : pid < 2 ^ 32) (hl : -2 ^ 31 ≤ code) (hu : code < 2 ^ 31) :
    unpackWaitResult (packWaitResult pid code) = (pid, code) := by
  unfold unpackWaitResult packWaitResult
  refine Prod.ext ?_ ?_
  · dsimp only
    omega
  · dsimp only
    split <;> omega

/-- What a wait returns is read back if and only if it is not the last pid with a code from `-9` to `-1`. Every pid
below `2 ^ 32` is meant, so those the counter comes to are. -/
theorem wait_result_read_back (pid : Nat) (code : Int) (hp : pid < 2 ^ 32) (hl : -2 ^ 31 ≤ code) (hu : code < 2 ^ 31) :
    (isErrorEncoded (packWaitResult pid code) = false ∧
      (decodeResult (encodeResult (.ok (packWaitResult pid code)))).map unpackWaitResult = .ok (pid, code)) ↔
    ¬ (pid = 2 ^ 32 - 1 ∧ -9 ≤ code ∧ code < 0) := by
  rw [← isErrorEncoded_packWaitResult hp hl hu, Bool.not_eq_true]
  refine ⟨And.left, fun h => ⟨h, ?_⟩⟩
  have hlt : packWaitResult pid code < 2 ^ 64 := by
    unfold packWaitResult
    omega
  rw [encodeResult, (decodeResult_eq_ok hlt).mpr h]
  exact congrArg Except.ok (unpack_packWaitResult hp hl hu)

theorem wait_result_read_back_two : isErrorEncoded (packWaitResult 2 (-1)) = false ∧
    (decodeResult (encodeResult (.ok (packWaitResult 2 (-1))))).map unpackWaitResult = .ok (2, -1) :=
  (wait_result_read_back 2 (-1) (by decide) (by decide) (by decide)).mpr (by decide)

/-- The counter comes to the pid `2 ^ 32 - 1`, and a process with this pid that exits with `-1` is reported as an
invalid argument. -/
theorem last_pid_taken_for_error : nextPidRaw^[4294836223] 2 = 2 ^ 32 - 1 ∧
    isErrorEncoded (packWaitResult (2 ^ 32 - 1) (-1)) = true ∧
    decodeResult (encodeResult (.ok (packWaitResult (2 ^ 32 - 1) (-1)))) = .error .invalidArgument :=
  ⟨iterate_nextPidRaw (by decide), by decide, by rfl⟩

end ZeroOS.Process
