import CosmicArchitect.RobinHood.Table
import Mathlib.Data.Nat.Digits.Lemmas
import Mathlib.Data.List.GetD

/-!
# Words of info bytes

`try_increase_info` halves eight info bytes at once and `fastForward` skips eight zero bytes at
once. Both agree with the plain loops over single bytes.
-/

namespace CosmicArchitect.RobinHood

/-- Halving a word and clearing the bits that crossed into the byte below halves its bytes. -/
theorem ofDigits_half (bytes : List Nat) (hb : ∀ b ∈ bytes, b < 256) :
    Nat.ofDigits 256 bytes / 2 &&& Nat.ofDigits 256 (List.replicate bytes.length 127) =
      Nat.ofDigits 256 (bytes.map (· / 2)) := by
  induction bytes with
  | nil => rfl
  | cons b bytes ih =>
    have ih := ih fun c hc => hb c (List.mem_cons_of_mem _ hc)
    have hlt : b < 256 := hb b (List.mem_cons_self ..)
    simp only [List.length_cons, List.replicate_succ, List.map_cons, Nat.ofDigits_cons]
    generalize Nat.ofDigits 256 bytes = D at ih ⊢
    generalize Nat.ofDigits 256 (List.replicate bytes.length 127) = M at ih ⊢
    rw [← ih]
    generalize hX : (b + 256 * D) / 2 = X
    generalize hY : 127 + 256 * M = Y
    -- the byte and the bytes above it, apart
    have hlow : (X &&& Y) % 2 ^ 8 = b / 2 := by
      rw [Nat.and_mod_two_pow, show Y % 2 ^ 8 = 2 ^ 7 - 1 by omega, Nat.and_two_pow_sub_one_eq_mod]
      omega
    have hhigh : (X &&& Y) / 2 ^ 8 = D / 2 &&& M := by
      rw [← Nat.shiftRight_eq_div_pow, Nat.shiftRight_and_distrib, Nat.shiftRight_eq_div_pow,
        Nat.shiftRight_eq_div_pow]
      congr 1 <;> omega
    rw [← Nat.mod_add_div (X &&& Y) (2 ^ 8), hlow, hhigh]
    rfl

theorem store64_load64 {bytes : List Nat} (hlen : bytes.length = 8) (hb : ∀ b ∈ bytes, b < 256) :
    store64 (load64 bytes) = bytes := by
  refine List.ext_getElem (by simp [store64, hlen]) fun i h₁ h₂ => ?_
  simp only [store64, List.getElem_map, List.getElem_range, load64]
  rw [Nat.ofDigits_div_pow_eq_ofDigits_drop i (by omega) bytes hb, List.drop_eq_getElem_cons h₂,
    Nat.ofDigits_cons]
  have := hb _ (List.getElem_mem h₂)
  omega

/-- One word of `try_increase_info`. -/
theorem store64_half {bytes : List Nat} (hlen : bytes.length = 8) (hb : ∀ b ∈ bytes, b < 256) :
    store64 (load64 bytes >>> 1 &&& 0x7f7f7f7f7f7f7f7f) = bytes.map (· / 2) := by
  have hmask : 0x7f7f7f7f7f7f7f7f = Nat.ofDigits 256 (List.replicate bytes.length 127) := by
    rw [hlen]
    norm_num [List.replicate, Nat.ofDigits]
  have hword : load64 bytes >>> 1 &&& 0x7f7f7f7f7f7f7f7f = load64 (bytes.map (· / 2)) := by
    rw [hmask, Nat.shiftRight_eq_div_pow, load64, load64]
    exact ofDigits_half bytes hb
  rw [hword]
  refine store64_load64 (by rw [List.length_map, hlen]) fun b hb' => ?_
  obtain ⟨c, hc, rfl⟩ := List.mem_map.mp hb'
  have := hb c hc
  omega

theorem getElem?_word (info : List Nat) {i : Nat} (hi : i + 8 ≤ info.length) (f : Nat → Nat)
    (j : Nat) : (info.take i ++ ((info.drop i).take 8).map f ++ info.drop (i + 8))[j]? =
      if i ≤ j ∧ j < i + 8 then info[j]?.map f else info[j]? := by
  have htake : (info.take i).length = i := by rw [List.length_take]; omega
  have hword : (((info.drop i).take 8).map f).length = 8 := by
    rw [List.length_map, List.length_take, List.length_drop]; omega
  by_cases hj : j < i
  · rw [if_neg (by omega), List.append_assoc, List.getElem?_append_left (by omega),
      List.getElem?_take_of_lt hj]
  · by_cases hj' : j < i + 8
    · rw [if_pos ⟨by omega, hj'⟩, List.append_assoc, List.getElem?_append_right (by omega),
        List.getElem?_append_left (by omega), List.getElem?_map,
        List.getElem?_take_of_lt (by omega), List.getElem?_drop]
      congr 2
      omega
    · rw [if_neg (by omega), List.getElem?_append_right (by rw [List.length_append]; omega),
        List.length_append, List.getElem?_drop]
      congr 1
      omega

/-- The loop of `try_increase_info` from byte `i` on halves every byte in front of byte `n`, and
keeps the zeros behind it. -/
theorem halveInfo_spec {n : Nat} : ∀ (fuel : Nat) {i : Nat} {info : List Nat}, n ≤ i + 8 * fuel →
    info.length = n + 8 → (∀ b ∈ info, b < 256) →
    ∃ r, halveInfo n (fuel + 1) i info = .ok r ∧ r.length = n + 8 ∧
      (∀ j < n, r[j]? = if j < i then info[j]? else info[j]?.map (· / 2)) ∧
      ∀ j, n ≤ j → info[j]? = some 0 → r[j]? = some 0 := by
  intro fuel
  induction fuel with
  | zero =>
    intro i info hn hlen _
    have hdone : ¬ i < n := by omega
    refine ⟨info, by simp only [halveInfo, if_neg hdone], hlen, fun j hj => ?_, fun _ _ h => h⟩
    rw [if_pos (by omega)]
  | succ fuel ih =>
    intro i info hn hlen hb
    by_cases hi : i < n
    · have hroom : ¬ info.length < i + 8 := by omega
      have hwordlen : ((info.drop i).take 8).length = 8 := by
        rw [List.length_take, List.length_drop]; omega
      have hword : ∀ b ∈ (info.drop i).take 8, b < 256 := fun b hb' =>
        hb b (List.mem_of_mem_drop (List.mem_of_mem_take hb'))
      have hget := getElem?_word info (i := i) (by omega) (· / 2)
      have hnext : (info.take i ++ ((info.drop i).take 8).map (· / 2) ++
          info.drop (i + 8)).length = n + 8 := by
        rw [List.length_append, List.length_append, List.length_map, hwordlen, List.length_take,
          List.length_drop]
        omega
      rw [halveInfo, if_pos hi, if_neg hroom]
      dsimp only
      rw [store64_half hwordlen hword]
      generalize info.take i ++ ((info.drop i).take 8).map (· / 2) ++ info.drop (i + 8) = next
        at hget hnext ⊢
      have hbytes : ∀ b ∈ next, b < 256 := by
        intro b hb'
        obtain ⟨j, hj⟩ := List.getElem?_of_mem hb'
        rw [hget j] at hj
        split at hj
        · obtain ⟨c, hc, rfl⟩ := Option.map_eq_some_iff.mp hj
          exact Nat.lt_of_le_of_lt (Nat.div_le_self c 2) (hb c (List.mem_of_getElem? hc))
        · exact hb b (List.mem_of_getElem? hj)
      obtain ⟨r, hr, hrlen, hfront, hpad⟩ := ih (i := i + 8) (by omega) hnext hbytes
      refine ⟨r, hr, hrlen, fun j hj => ?_, fun j hj hzero => hpad j hj ?_⟩
      · rw [hfront j hj, hget j]
        split <;> split <;> split <;> first | rfl | omega
      · rw [hget j, hzero]
        split <;> rfl
    · refine ⟨info, by simp only [halveInfo, if_neg hi], hlen, fun j hj => ?_, fun _ _ h => h⟩
      rw [if_pos (by omega)]

/-! ### Trailing zeros -/

theorem countTrailingZeroes_lt (width : Nat) : ∀ {k n : Nat}, n % 2 ^ k ≠ 0 →
    countTrailingZeroes width n < k := by
  induction width with
  | zero =>
    intro k n h
    rcases Nat.eq_zero_or_pos k with rfl | hk
    · exact absurd (Nat.mod_one n) h
    · exact hk
  | succ width ih =>
    intro k n h
    cases k with
    | zero => exact absurd (Nat.mod_one n) h
    | succ k =>
      rw [countTrailingZeroes]
      split
      · omega
      · next hodd =>
        have hhalf : n / 2 % 2 ^ k ≠ 0 := by
          intro hzero
          refine h ?_
          rw [pow_succ', Nat.mod_mul, hzero]
          omega
        have := ih hhalf
        omega

/-- A zero byte in front adds eight zero bits. -/
theorem countTrailingZeroes_byte (width n : Nat) :
    countTrailingZeroes (width + 8) (256 * n) = countTrailingZeroes width n + 8 := by
  have hdouble : ∀ w m : Nat, countTrailingZeroes (w + 1) (2 * m) = countTrailingZeroes w m + 1 :=
    fun w m => by
      rw [countTrailingZeroes, if_neg (by omega), Nat.mul_div_cancel_left m (by omega)]
  rw [show 256 * n = 2 * (2 * (2 * (2 * (2 * (2 * (2 * (2 * n))))))) by omega]
  simp only [show width + 8 = width + 1 + 1 + 1 + 1 + 1 + 1 + 1 + 1 from rfl, hdouble]

/-- The count of trailing zeros in bytes is the index of the first nonzero byte. -/
theorem countTrailingZeroes_ofDigits (b : Nat) (rest : List Nat) (hb : b < 256) (hb0 : b ≠ 0) :
    ∀ (k width : Nat), countTrailingZeroes (width + 8 * k)
      (Nat.ofDigits 256 (List.replicate k 0 ++ b :: rest)) / 8 = k := by
  intro k
  induction k with
  | zero =>
    intro width
    have hmod : Nat.ofDigits 256 (b :: rest) % 2 ^ 8 ≠ 0 := by
      rw [Nat.ofDigits_cons]
      omega
    have := countTrailingZeroes_lt width hmod
    rw [List.replicate_zero, List.nil_append, Nat.mul_zero, Nat.add_zero]
    omega
  | succ k ih =>
    intro width
    rw [List.replicate_succ, List.cons_append, Nat.ofDigits_cons, Nat.zero_add,
      show width + 8 * (k + 1) = width + 8 * k + 8 by omega, countTrailingZeroes_byte,
      Nat.add_div_right _ (by omega), ih width]

/-- `fastForward` on one word: the word is zero when all bytes are, else the first nonzero byte
is found. -/
theorem load64_eq_zero {bytes : List Nat} : load64 bytes = 0 ↔ ∀ b ∈ bytes, b = 0 := by
  induction bytes with
  | nil => simp [load64]
  | cons b bytes ih =>
    have ih : Nat.ofDigits 256 bytes = 0 ↔ ∀ b ∈ bytes, b = 0 := ih
    rw [load64, Nat.ofDigits_cons]
    simp only [List.forall_mem_cons, ← ih]
    omega

end CosmicArchitect.RobinHood
