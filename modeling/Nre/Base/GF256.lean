import Mathlib

/-!
# The field with 256 elements

`GF256` is the ring of polynomials over `ZMod 2` modulo the one with the bits of `0x11d`. A
number stands for the polynomial with its bits (`value`): exclusive or is addition, and `double`
is multiplication by `α`.

The numbers that `double` leads to from `1` are all the numbers from 1 to 255, which is checked by
going round once. So every element but zero is a power of `α`, and there are no zero divisors.
-/

open Polynomial

namespace NrePlugins

/-- The polynomial with the bits of `0x11d`. -/
noncomputable def modulus : (ZMod 2)[X] := X ^ 8 + X ^ 4 + X ^ 3 + X ^ 2 + 1

abbrev GF256 : Type := AdjoinRoot modulus

namespace GF256

noncomputable def α : GF256 := AdjoinRoot.root modulus

/-- The element whose coefficients are the bits of a number. -/
noncomputable def value (n : ℕ) : GF256 := Nat.ofDigits α (Nat.digits 2 n)

/-- One shift, reduced by `0x11d`. -/
def double (n : ℕ) : ℕ :=
  if n <<< 1 &&& 0x100 ≠ 0 then n <<< 1 ^^^ 0x11d else n <<< 1

instance : Nontrivial GF256 := by
  refine AdjoinRoot.nontrivial _ (ne_of_gt ?_)
  rw [show modulus.degree = 8 by unfold modulus; compute_degree!]
  decide

instance : CharP GF256 2 := charP_of_injective_algebraMap (algebraMap (ZMod 2) GF256).injective 2

theorem value_eq (n : ℕ) : value n = n + α * value (n / 2) := by
  rw [CharP.cast_eq_mod GF256 2 n]
  obtain rfl | h := n.eq_zero_or_pos
  · simp [value, Nat.ofDigits]
  · simp only [value, Nat.digits_def' Nat.one_lt_two h, Nat.ofDigits]

theorem value_zero : value 0 = 0 := by simp [value, Nat.ofDigits]

theorem value_one : value 1 = 1 := by simp [value, Nat.ofDigits]

theorem value_xor (m n : ℕ) : value (m ^^^ n) = value m + value n := by
  induction m using Nat.strong_induction_on generalizing n with
  | _ m ih =>
    obtain rfl | h := m.eq_zero_or_pos
    · simp [value_zero]
    · have hbit : ((m ^^^ n : ℕ) : GF256) = m + n := by
        have := @Nat.xor_mod_two_eq_one m n
        rw [← Nat.cast_add, CharP.cast_eq_mod GF256 2, CharP.cast_eq_mod GF256 2 (m + n)]
        congr 1
        omega
      rw [value_eq m, value_eq n, value_eq (m ^^^ n), Nat.xor_div_two, ih _ (by omega), hbit]
      ring

theorem value_modulus : value 0x11d = 0 := by
  have h : AdjoinRoot.mk modulus (X ^ 8 + X ^ 4 + X ^ 3 + X ^ 2 + 1) = 0 := AdjoinRoot.mk_self
  simp only [map_add, map_pow, map_one, AdjoinRoot.mk_X] at h
  norm_num [value, α, Nat.ofDigits]
  linear_combination h

theorem value_double (n : ℕ) : value (double n) = α * value n := by
  have h : value (n <<< 1) = α * value n := by
    rw [value_eq, CharP.cast_eq_mod GF256 2]
    simp [Nat.shiftLeft_eq]
  unfold double
  split_ifs
  · rw [value_xor, h, value_modulus, add_zero]
  · exact h

theorem value_iterate (k : ℕ) : value (double^[k] 1) = α ^ k := by
  induction k with
  | zero => exact value_one
  | succ k ih => rw [Function.iterate_succ_apply', value_double, ih, pow_succ']

theorem iterate_lt (k : ℕ) : double^[k] 1 < 256 :=
  Function.Iterate.rec (· < 256) (by decide) (by decide +kernel : ∀ n < 256, double n < 256) k

theorem byte_cases {n : ℕ} (h : n < 256) : n = 0 ∨ ∃ k < 255, n = double^[k] 1 := by
  have hround : ∀ n < 256, n = 0 ∨ n ∈ List.iterate double 1 255 := by decide +kernel
  simpa only [List.mem_iterate] using hround n h

theorem pow_period : α ^ 255 = 1 := by
  rw [← value_iterate, show double^[255] 1 = 1 by decide +kernel, value_one]

theorem isUnit_α : IsUnit α := .of_pow_eq_one pow_period (by decide)

theorem eq_pow (x : GF256) : x = 0 ∨ ∃ k, x = α ^ k := by
  have hx : ∃ n < 256, x = value n := by
    induction x using AdjoinRoot.induction_on with
    | _ p =>
    induction p using Polynomial.induction_on' with
    | add p q hp hq =>
      obtain ⟨⟨m, hm, hp⟩, ⟨n, hn, hq⟩⟩ := hp, hq
      exact ⟨m ^^^ n, Nat.xor_lt_two_pow (n := 8) hm hn, by rw [map_add, hp, hq, value_xor]⟩
    | monomial k a =>
      obtain rfl | rfl : a = 0 ∨ a = 1 := by revert a; decide
      · exact ⟨0, by decide, by simp [value_zero]⟩
      · exact ⟨_, iterate_lt k, by simp [value_iterate, monomial_one_right_eq_X_pow, α]⟩
  obtain ⟨n, hn, rfl⟩ := hx
  obtain rfl | ⟨k, -, rfl⟩ := byte_cases hn
  · exact .inl value_zero
  · exact .inr ⟨k, value_iterate k⟩

instance : IsDomain GF256 := by
  have : NoZeroDivisors GF256 := by
    refine ⟨fun {x y} h => ?_⟩
    obtain hx | ⟨k, rfl⟩ := eq_pow x
    · exact .inl hx
    · exact .inr ((isUnit_α.pow k).mul_right_eq_zero.mp h)
  exact NoZeroDivisors.to_isDomain _

theorem value_inj {m n : ℕ} (hm : m < 256) (hn : n < 256) (h : value m = value n) : m = n := by
  have hzero : value (m ^^^ n) = 0 := by rw [value_xor, h, CharTwo.add_self_eq_zero]
  obtain h0 | ⟨k, -, hk⟩ := byte_cases (Nat.xor_lt_two_pow (n := 8) hm hn)
  · exact xor_eq_zero_iff.mp h0
  · rw [hk, value_iterate] at hzero
    exact absurd hzero (pow_ne_zero k isUnit_α.ne_zero)

theorem pow_injOn : Set.InjOn (α ^ ·) (Set.Iio 255) := by
  have hround : ∀ k < 255, 0 < k → double^[k] 1 ≠ 1 := by decide +kernel
  have h : orderOf α = 255 := by
    refine (orderOf_eq_iff (by decide)).mpr ⟨pow_period, fun k hk h0 h => ?_⟩
    refine hround k hk h0 (value_inj (iterate_lt k) (by decide) ?_)
    rw [value_iterate, h, value_one]
  simpa [h] using pow_injOn_Iio_orderOf (x := α)

/-- A word that vanishes at `d` consecutive powers has more than `d` coefficients. -/
theorem card_gt_of_sum_eq_zero {R ι : Type*} [CommRing R] [IsDomain R] {s : Finset ι}
    {c x : ι → R} {d : ℕ} (hs : s.Nonempty) (hc : ∀ j ∈ s, c j ≠ 0) (hx : Set.InjOn x s)
    (h : ∀ k < d, ∑ j ∈ s, c j * x j ^ k = 0) : d < s.card := by
  by_contra hd
  let e := s.equivFin.symm
  -- otherwise the equations are as many as the coefficients
  have hv : (fun i => c (e i)) = 0 := by
    refine Matrix.eq_zero_of_forall_pow_sum_mul_pow_eq_zero (f := fun i => x (e i)) ?_ fun k => ?_
    · exact fun i j hij => e.injective (Subtype.ext (hx (e i).2 (e j).2 hij))
    · rw [e.sum_comp (fun j => c j * x j ^ (k : ℕ)),
        Finset.sum_coe_sort s fun j => c j * x j ^ (k : ℕ)]
      exact h k (by omega)
  obtain ⟨j, hj⟩ := hs
  exact hc j hj (by simpa using congrFun hv (e.symm ⟨j, hj⟩))

end GF256

end NrePlugins
