import OneSpark.HashGather

namespace OneSpark.SplitMix
open Longs HashBuild HashGather

-- _MASK64 and the multipliers of Qwen4ExpNGramEmbedding; Python ints do not wrap.
def mask64 : Nat := 2 ^ 64 - 1
def splitmixGamma : Nat := 0x9E3779B97F4A7C15
def splitmixM1 : Nat := 0xBF58476D1CE4E5B9
def splitmixM2 : Nat := 0x94D049BB133111EB

def splitmix64 (x : Nat) : Nat :=
  let x := (x + splitmixGamma) &&& mask64
  let x := ((x ^^^ (x >>> 30)) * splitmixM1) &&& mask64
  let x := ((x ^^^ (x >>> 27)) * splitmixM2) &&& mask64
  (x ^^^ (x >>> 31)) &&& mask64

def twosComplement (z : Nat) : Int := if z < 2 ^ 63 then z else z - 2 ^ 64

-- The mask takes away the copies of the sign bit.
theorem lsr_logical (x : Long) (k : Nat) : lsr x k = x >>> k := by
  apply BitVec.eq_of_getLsbD_eq
  intro i inside
  rw [lsr,BitVec.getLsbD_and,BitVec.getLsbD_sshiftRight,BitVec.getLsbD_ofNat,Nat.testBit_two_pow_sub_one,
    BitVec.getLsbD_ushiftRight]
  by_cases below : k + i < 64
  · have place : i < 64 - k := by omega
    simp [below,place,inside]
  · have beyond : ¬ i < 64 - k := by omega
    rw [BitVec.getLsbD_of_ge x (k + i) (Nat.le_of_not_lt below)]
    simp [beyond]

theorem masked (n : Nat) : n &&& mask64 = n % 2 ^ 64 := Nat.and_two_pow_sub_one_eq_mod n 64

theorem round_unsigned (x m : Long) (k : Nat) :
    ((x ^^^ lsr x k) * m).toNat = ((x.toNat ^^^ (x.toNat >>> k)) * m.toNat) &&& mask64 := by
  rw [lsr_logical,BitVec.toNat_mul,BitVec.toNat_xor,BitVec.toNat_ushiftRight,masked]

theorem splitmix_unsigned (x : Long) : (splitmix x).toNat = splitmix64 x.toNat := by
  have first : (x + gamma).toNat = (x.toNat + splitmixGamma) &&& mask64 := by
    rw [BitVec.toNat_add,masked]
    rfl
  have last : ∀ y : Long, (y ^^^ lsr y 31).toNat = (y.toNat ^^^ (y.toNat >>> 31)) &&& mask64 := by
    intro y
    rw [masked,← BitVec.toNat_ushiftRight,← BitVec.toNat_xor,Nat.mod_eq_of_lt (BitVec.isLt _),lsr_logical]
  unfold splitmix splitmix64
  dsimp only
  rw [last,round_unsigned,round_unsigned,first]
  rfl

theorem toInt_reading (x : Long) : x.toInt = twosComplement x.toNat := by
  rw [BitVec.toInt_eq_toNat_cond,twosComplement]
  split <;> split <;> omega

theorem splitmix_signed (x : Long) : (splitmix x).toInt = twosComplement (splitmix64 x.toNat) := by
  rw [toInt_reading,splitmix_unsigned]

-- The signed hash is the unsigned one read as a signed word, and a slot is its floor remainder.
theorem hash_signed :
    (∀ x : Long, (splitmix x).toInt = twosComplement (splitmix64 x.toNat) ∧
      (hashkSplitmix x).toInt = twosComplement (splitmix64 x.toNat)) ∧
    ∀ (localIdx head : Long) (sub : Fin 2) (size : Long), 1 ≤ size.toInt → ∃ slot,
      hashSlot localIdx head sub size = some slot ∧
      slot.toInt = (twosComplement (splitmix64 ((localIdx + 1) * 2862933555777941757 + BitVec.ofInt 64 (salts sub) +
        head * BitVec.ofInt 64 hsalt).toNat)).fmod size.toInt ∧ 0 ≤ slot.toInt ∧ slot.toInt < size.toInt := by
  refine ⟨fun x => ⟨splitmix_signed x,splitmix_same ▸ splitmix_signed x⟩,?_⟩
  intro localIdx head sub size positive
  obtain ⟨slot,made,exact,low,high⟩ := remainder_bounds (splitmix ((localIdx + 1) * 2862933555777941757 +
    BitVec.ofInt 64 (salts sub) + head * BitVec.ofInt 64 hsalt)) size (by omega)
  refine ⟨slot,made,?_,low,high⟩
  rw [exact,splitmix_signed]

-- The last index and size of the builder's test, under head 1 of the second sub-table.
theorem sample_slot : ∃ slot, hashSlot 19999999 1 1 5000006 = some slot ∧ slot.toInt = 3027739 := by
  obtain ⟨slot,made,exact,_,_⟩ := hash_signed.2 19999999 1 1 5000006 (by decide)
  exact ⟨slot,made,exact.trans (by decide +kernel)⟩

end OneSpark.SplitMix
