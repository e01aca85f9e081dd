import Shmipc.Buffer.Manager

/-!
# The configuration

`VerifyConfig` (config.go:98-140) and what it lets through. Of `Config` only the fields
that it reads are here; `runtime.GOOS` and `runtime.GOARCH` are those of the `Platform`.

* `verifyConfig_ok_iff`: the accepted configurations.
* `verifyConfig_defaultConfig`: the default is one of them.
-/

namespace Shmipc

open Buffer

structure Platform where
  goos : String
  goarch : String
  deriving DecidableEq, Repr

/-- `isArmArch` (util.go:138-140). -/
def Platform.isArmArch (p : Platform) : Bool := p.goarch = "arm" ∨ p.goarch = "arm64"

structure Config where
  queueCap : ℕ
  queuePath : String
  shareMemoryBufferCap : ℕ
  shareMemoryPathPrefix : String
  bufferSliceSizes : List SizePercentPair
  deriving DecidableEq, Repr

inductive ConfigError
  | capTooSmall (shareMemoryBufferCap : ℕ)
  | noSliceSizes
  | sliceTooLarge (size shareMemoryBufferCap : ℕ)
  | sliceAlign
  | sumPercent
  | queueAlign
  | noPath
  | osNonSupported
  | archNonSupported
  deriving DecidableEq, Repr

def ConfigError.message : ConfigError → String
  | .capTooSmall c => s!"share memory size is too small:{c}, must greater than {2 ^ 20}"
  | .noSliceSizes => "BufferSliceSizes could not be nil"
  | .sliceTooLarge s c =>
    s!"BufferSliceSizes's Size:{s} couldn't greater than ShareMemoryBufferCap:{c}"
  | .sliceAlign => "the SizePercentPair.Size must be a multiple of 4"
  | .sumPercent => "the sum of BufferSliceSizes's Percent should be 100"
  | .queueAlign => "the QueueCap must be a multiple of 8"
  | .noPath => "buffer path or queue path could not be nil"
  | .osNonSupported => "shmipc just support linux OS now"
  | .archNonSupported => "shmipc just support amd64 or arm64 arch"

/-- The loop over the slice sizes (config.go:107-117): the sum of the percents. -/
def verifySizes (p : Platform) (shareMemoryBufferCap : ℕ) :
    List SizePercentPair → ℕ → Except ConfigError ℕ
  | [], sum => .ok sum
  | pair :: pairs, sum =>
    if pair.size > shareMemoryBufferCap then
      .error (.sliceTooLarge pair.size shareMemoryBufferCap)
    else if p.isArmArch ∧ pair.size % 4 ≠ 0 then .error .sliceAlign
    else verifySizes p shareMemoryBufferCap pairs (sum + pair.percent)

/-- `VerifyConfig`. -/
def verifyConfig (p : Platform) (config : Config) : Except ConfigError Unit :=
  if config.shareMemoryBufferCap < 2 ^ 20 then .error (.capTooSmall config.shareMemoryBufferCap)
  else if config.bufferSliceSizes.length = 0 then .error .noSliceSizes
  else
    match verifySizes p config.shareMemoryBufferCap config.bufferSliceSizes 0 with
    | .error e => .error e
    | .ok sum =>
      if sum ≠ 100 then .error .sumPercent
      else if p.isArmArch ∧ config.queueCap % 8 ≠ 0 then .error .queueAlign
      else if config.shareMemoryPathPrefix = "" ∨ config.queuePath = "" then .error .noPath
      else if p.goos ≠ "linux" then .error .osNonSupported
      else if p.goarch ≠ "amd64" ∧ p.goarch ≠ "arm64" then .error .archNonSupported
      else .ok ()

/-- `DefaultConfig` (config.go:79-96). -/
def defaultConfig : Config where
  queueCap := 8192
  queuePath := "/dev/shm/shmipc_queue"
  shareMemoryBufferCap := 32 * 1024 * 1024
  shareMemoryPathPrefix := "/dev/shm/shmipc"
  bufferSliceSizes := [⟨8192 - bufferHeaderSize, 50⟩, ⟨32 * 1024 - bufferHeaderSize, 30⟩,
    ⟨128 * 1024 - bufferHeaderSize, 20⟩]

theorem verifySizes_ok_iff (p : Platform) (cap : ℕ) : ∀ (pairs : List SizePercentPair) (sum s : ℕ),
    verifySizes p cap pairs sum = .ok s ↔
      (∀ pair ∈ pairs, pair.size ≤ cap ∧ (p.isArmArch = true → pair.size % 4 = 0)) ∧
        s = sum + (pairs.map (·.percent)).sum := by
  intro pairs
  induction pairs with
  | nil =>
    intro sum s
    rw [verifySizes, Except.ok.injEq, eq_comm]
    simp
  | cons pair pairs ih =>
    intro sum s
    unfold verifySizes
    split_ifs with hsize harm
    · refine ⟨fun h => (nomatch h), fun h => ?_⟩
      have := (h.1 pair List.mem_cons_self).1
      omega
    · refine ⟨fun h => (nomatch h), fun h => ?_⟩
      exact absurd ((h.1 pair List.mem_cons_self).2 harm.1) harm.2
    · have hpair : pair.size ≤ cap ∧ (p.isArmArch = true → pair.size % 4 = 0) := by
        refine ⟨by omega, fun ha => ?_⟩
        by_contra hne
        exact harm ⟨ha, hne⟩
      rw [ih, List.forall_mem_cons, List.map_cons, List.sum_cons, Nat.add_assoc]
      exact ⟨fun h => ⟨⟨hpair, h.1⟩, h.2⟩, fun h => ⟨h.1.2, h.2⟩⟩

theorem check_ok_iff {c : Prop} [Decidable c] {e : ConfigError} {r : Except ConfigError Unit} :
    (if c then .error e else r) = .ok () ↔ ¬c ∧ r = .ok () := by
  split_ifs with hc
  · exact ⟨fun h => (nomatch h), fun h => absurd hc h.1⟩
  · exact ⟨fun h => ⟨hc, h⟩, fun h => h.2⟩

/-- **The accepted configurations.** -/
theorem verifyConfig_ok_iff (p : Platform) (config : Config) :
    verifyConfig p config = .ok () ↔ 2 ^ 20 ≤ config.shareMemoryBufferCap ∧
      config.bufferSliceSizes ≠ [] ∧
      (∀ pair ∈ config.bufferSliceSizes, pair.size ≤ config.shareMemoryBufferCap ∧
        (p.isArmArch = true → pair.size % 4 = 0)) ∧
      (config.bufferSliceSizes.map (·.percent)).sum = 100 ∧
      (p.isArmArch = true → config.queueCap % 8 = 0) ∧ config.shareMemoryPathPrefix ≠ "" ∧
      config.queuePath ≠ "" ∧ p.goos = "linux" ∧ (p.goarch = "amd64" ∨ p.goarch = "arm64") := by
  have hsizes := verifySizes_ok_iff p config.shareMemoryBufferCap config.bufferSliceSizes 0
  simp only [Nat.zero_add] at hsizes
  unfold verifyConfig
  rw [check_ok_iff, check_ok_iff, not_lt, List.length_eq_zero_iff]
  refine and_congr_right fun _ => and_congr_right fun _ => ?_
  cases hv : verifySizes p config.shareMemoryBufferCap config.bufferSliceSizes 0 with
  | error e =>
    refine ⟨fun h => (nomatch h), fun h => ?_⟩
    have hok := (hsizes _).mpr ⟨h.1, rfl⟩
    rw [hv] at hok
    cases hok
  | ok sum =>
    obtain ⟨hall, rfl⟩ := (hsizes sum).mp hv
    simp only [check_ok_iff, not_not, not_and, not_or, ne_eq, and_true]
    tauto

/-- The default configuration passes its own check where the library runs. -/
theorem verifyConfig_defaultConfig (p : Platform) (hos : p.goos = "linux")
    (harch : p.goarch = "amd64" ∨ p.goarch = "arm64") :
    verifyConfig p defaultConfig = .ok () := by
  rw [verifyConfig_ok_iff]
  exact ⟨by decide, by decide, by simp [defaultConfig, bufferHeaderSize], by decide,
    fun _ => by decide, by decide, by decide, hos, harch⟩

end Shmipc
