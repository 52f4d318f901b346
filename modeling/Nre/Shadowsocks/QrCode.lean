import Nre.Base.Bytes
import Nre.Base.GF256

/-!
# The error correction of the QR code

`sip002.go` draws the access link as a QR code. `qrEnsureGF` fills two tables, `qrMul` multiplies
by them, and `qrReedSolomon` divides the data by the generator polynomial and returns the
remainder. The rest of the encoder (segments, layouts, masks) is left out.

The specs read bytes as elements of `GF256`: the tables hold the powers of `α` and their exponents,
so `qrMul` is the product.
-/

namespace NrePlugins.Shadowsocks

open GF256 List

/-- `qrExp` and `qrLog` after `i` turns of the first loop of `qrEnsureGF`, with its `x`. -/
def qrFill : ℕ → ℕ × Bytes × Bytes
  | 0 => (1, replicate 512 0, replicate 256 0)
  | i + 1 =>
    let (x, exp, log) := qrFill i
    (double x, exp.set i (.ofNat x), log.set x (.ofNat i))

/-- `qrExp` after `i` turns of the second loop. -/
def qrRepeat : ℕ → Bytes
  | 0 => (qrFill 255).2.1
  | i + 1 =>
    let exp := qrRepeat i
    exp.set (255 + i) (exp.getD i 0)

def qrExp : Bytes := qrRepeat 257

def qrLog : Bytes := (qrFill 255).2.2

def qrMul (a b : UInt8) : UInt8 :=
  if a = 0 ∨ b = 0 then 0 else
    qrExp.getD ((qrLog.getD a.toNat 0).toNat + (qrLog.getD b.toNat 0).toNat) 0

/-- `buf[j] ^= bs[j]` for every `j` below `len(bs)`. -/
def xorFrom : Bytes → Bytes → Bytes
  | a :: buf, b :: bs => (a ^^^ b) :: xorFrom buf bs
  | buf, _ => buf

/-- `gen` after `i` turns. -/
def qrGenerator : ℕ → Bytes
  | 0 => [1]
  | i + 1 =>
    let gen := qrGenerator i
    xorFrom (gen ++ [0]) (0 :: gen.map (qrMul · (qrExp.getD i 0)))

/-- One turn of the division: `buf[i]` is cleared by a multiple of `gen`. -/
def qrDivide (gen buf : Bytes) (i : ℕ) : Bytes :=
  let coef := buf.getD i 0
  if coef = 0 then buf else buf.take i ++ xorFrom (buf.drop i) (gen.map (qrMul · coef))

def qrReedSolomon (data : Bytes) (degree : ℕ) : Bytes :=
  ((range data.length).foldl (qrDivide (qrGenerator degree)) (data ++ replicate degree 0)).drop
    data.length

/-- The value at `x` of the polynomial with these coefficients, the highest one first. -/
noncomputable def evalAt (x : GF256) : Bytes → GF256
  | [] => 0
  | b :: bs => value b.toNat * x ^ bs.length + evalAt x bs

/-- The positions in which two codewords differ. -/
def differing (w w' : Bytes) : Finset ℕ :=
  {j ∈ Finset.range w.length | w.getD j 0 ≠ w'.getD j 0}

theorem getD_set {l : Bytes} {i : ℕ} (v : UInt8) (j : ℕ) (hi : i < l.length) :
    (l.set i v).getD j 0 = if i = j then v else l.getD j 0 := by
  rw [getD_eq_getElem?_getD, getElem?_set, if_pos hi, getD_eq_getElem?_getD]
  split_ifs <;> rfl

theorem qrFill_spec {n : ℕ} (hn : n ≤ 255) :
    (qrFill n).1 = double^[n] 1 ∧ (qrFill n).2.1.length = 512 ∧ (qrFill n).2.2.length = 256 ∧
      ∀ i < n, value ((qrFill n).2.1.getD i 0).toNat = α ^ i ∧
        α ^ ((qrFill n).2.2.getD (double^[i] 1) 0).toNat = α ^ i := by
  induction n with
  | zero => exact ⟨rfl, length_replicate, length_replicate, fun i hi => absurd hi (by omega)⟩
  | succ n ih =>
    obtain ⟨hx, hexp, hlog, ih⟩ := ih (by omega)
    refine ⟨by rw [Function.iterate_succ_apply', ← hx]; rfl, length_set.trans hexp,
      length_set.trans hlog, fun i hi => ?_⟩
    have hlt := iterate_lt n
    simp only [qrFill, hx]
    rw [getD_set _ _ (hexp ▸ by omega), getD_set _ _ (hlog ▸ hlt)]
    constructor
    · split_ifs with h
      · rw [UInt8.toNat_ofNat_of_lt' hlt, value_iterate, h]
      · exact (ih i (by omega)).1
    · split_ifs with h
      · rw [UInt8.toNat_ofNat_of_lt' (show n < 256 by omega), ← value_iterate, h, value_iterate]
      · have hne : i ≠ n := fun e => h (by rw [e])
        exact (ih i (by omega)).2

theorem qrRepeat_spec {n : ℕ} (hn : n ≤ 257) : (qrRepeat n).length = 512 ∧
    ∀ i < 255 + n, value ((qrRepeat n).getD i 0).toNat = α ^ i := by
  induction n with
  | zero => exact ⟨(qrFill_spec le_rfl).2.1, fun i hi => ((qrFill_spec le_rfl).2.2.2 i hi).1⟩
  | succ n ih =>
    obtain ⟨hlen, ih⟩ := ih (by omega)
    refine ⟨by rw [qrRepeat, length_set, hlen], fun i hi => ?_⟩
    rw [qrRepeat, getD_set _ _ (by omega)]
    split_ifs with h
    · rw [ih n (by omega), ← h, pow_add, pow_period, one_mul]
    · exact ih i (by omega)

theorem qrExp_spec {i : ℕ} (hi : i < 512) : value (qrExp.getD i 0).toNat = α ^ i :=
  (qrRepeat_spec le_rfl).2 i hi

theorem qrLog_spec {b : UInt8} (hb : b ≠ 0) :
    α ^ (qrLog.getD b.toNat 0).toNat = value b.toNat := by
  obtain h0 | ⟨k, hk, hb⟩ := byte_cases b.toNat_lt
  · exact absurd (UInt8.toNat_inj.mp h0) hb
  · rw [qrLog, hb, ((qrFill_spec le_rfl).2.2.2 k hk).2, value_iterate]

theorem qrMul_spec (a b : UInt8) :
    value (qrMul a b).toNat = value a.toNat * value b.toNat := by
  unfold qrMul
  split_ifs with h
  · obtain rfl | rfl := h <;> simp [value_zero]
  · obtain ⟨ha, hb⟩ := not_or.mp h
    have := (qrLog.getD a.toNat 0).toNat_lt
    have := (qrLog.getD b.toNat 0).toNat_lt
    rw [qrExp_spec (by omega), pow_add, qrLog_spec ha, qrLog_spec hb]

variable (x : GF256)

theorem evalAt_append (v w : Bytes) :
    evalAt x (v ++ w) = evalAt x v * x ^ w.length + evalAt x w := by
  induction v with
  | nil => simp [evalAt]
  | cons b v ih =>
    simp only [evalAt, cons_append, ih, length_append, pow_add]
    ring

theorem evalAt_replicate (n : ℕ) : evalAt x (replicate n 0) = 0 := by
  induction n with
  | zero => rfl
  | succ n ih => simp [evalAt, replicate_succ, ih, value_zero]

theorem evalAt_map_qrMul (w : Bytes) (c : UInt8) :
    evalAt x (w.map (qrMul · c)) = evalAt x w * value c.toNat := by
  induction w with
  | nil => simp [evalAt]
  | cons b w ih =>
    simp only [evalAt, map_cons, length_map, ih, qrMul_spec]
    ring

theorem length_xorFrom (v w : Bytes) : (xorFrom v w).length = v.length := by
  fun_induction xorFrom v w <;> simp [*]

theorem evalAt_xorFrom {v w : Bytes} (h : w.length ≤ v.length) :
    evalAt x (xorFrom v w) = evalAt x v + evalAt x w * x ^ (v.length - w.length) := by
  fun_induction xorFrom v w with
  | case1 a v b w ih =>
    have h : w.length ≤ v.length := by simpa using h
    simp only [evalAt, length_xorFrom, UInt8.toNat_xor, value_xor, ih h, length_cons,
      Nat.add_sub_add_right]
    rw [← Nat.sub_add_cancel h, pow_add]
    simp
    ring
  | case2 v w hne =>
    obtain rfl : w = [] := by
      cases w with
      | nil => rfl
      | cons b w => cases v with
        | nil => simp at h
        | cons a v => exact absurd rfl (hne a v b w rfl)
    simp [evalAt]

theorem qrGenerator_spec (n : ℕ) : ∃ gen, qrGenerator n = 1 :: gen ∧ gen.length = n := by
  induction n with
  | zero => exact ⟨[], rfl, rfl⟩
  | succ n ih =>
    obtain ⟨gen, h, hlen⟩ := ih
    refine ⟨_, by rw [qrGenerator, h]; rfl, ?_⟩
    simp [length_xorFrom, hlen]

theorem evalAt_qrGenerator {n i : ℕ} (hn : n < 512) (hi : i < n) :
    evalAt (α ^ i) (qrGenerator n) = 0 := by
  induction n with
  | zero => omega
  | succ n ih =>
    have hstep : evalAt (α ^ i) (qrGenerator (n + 1)) =
        evalAt (α ^ i) (qrGenerator n) * (α ^ i + α ^ n) := by
      rw [qrGenerator, evalAt_xorFrom _ (by simp), evalAt_append]
      simp only [evalAt, evalAt_map_qrMul, qrExp_spec (show n < 512 by omega)]
      simp [value_zero]
      ring
    rw [hstep]
    obtain rfl | hlt := Nat.eq_or_lt_of_le (Nat.le_of_lt_succ hi)
    · rw [CharTwo.add_self_eq_zero, mul_zero]
    · rw [ih (by omega) hlt, zero_mul]

theorem qrDivide_spec {gen rest : Bytes} (i : ℕ) (hgen : evalAt x (1 :: gen) = 0)
    (h : gen.length < rest.length) :
    ∃ rest', qrDivide (1 :: gen) (replicate i 0 ++ rest) i = replicate (i + 1) 0 ++ rest' ∧
      rest'.length + 1 = rest.length ∧ evalAt x rest' = evalAt x rest := by
  cases rest with
  | nil => simp at h
  | cons coef rest =>
    have hcoef : (replicate i 0 ++ coef :: rest).getD i 0 = coef := by simp
    simp only [qrDivide, hcoef]
    split_ifs with h0
    · refine ⟨rest, ?_, rfl, ?_⟩
      · simp [h0, replicate_succ']
      · simp [h0, evalAt, value_zero]
    · have hmul : qrMul 1 coef = coef := UInt8.toNat_inj.mp <|
        value_inj (UInt8.toNat_lt _) (UInt8.toNat_lt _) (by simp [qrMul_spec, value_one])
      refine ⟨xorFrom rest (gen.map (qrMul · coef)), ?_, ?_, ?_⟩
      · simp [xorFrom, hmul, replicate_succ']
      · rw [length_xorFrom]; rfl
      · have := evalAt_xorFrom x (v := coef :: rest) (w := (1 :: gen).map (qrMul · coef))
          (by simpa using h)
        rw [evalAt_map_qrMul, hgen] at this
        simpa [xorFrom, hmul, evalAt, value_zero] using this

theorem qrReedSolomon_spec {degree : ℕ} {x : GF256} (hroot : evalAt x (qrGenerator degree) = 0)
    (data : Bytes) : (qrReedSolomon data degree).length = degree ∧
      evalAt x (data ++ qrReedSolomon data degree) = 0 := by
  obtain ⟨gen, hgen, hlen⟩ := qrGenerator_spec degree
  set buf := data ++ replicate degree 0
  -- a turn subtracts a multiple of the generator, which vanishes at its roots
  have hloop : ∀ n ≤ data.length, ∃ rest,
      (range n).foldl (qrDivide (1 :: gen)) buf = replicate n 0 ++ rest ∧
        n + rest.length = data.length + degree ∧ evalAt x rest = evalAt x buf := by
    intro n hn
    induction n with
    | zero => exact ⟨buf, rfl, by simp [buf], rfl⟩
    | succ n ih =>
      obtain ⟨rest, hfold, hrest, heval⟩ := ih (by omega)
      have hlt : gen.length < rest.length := by omega
      obtain ⟨rest', hstep, hlen', heval'⟩ := qrDivide_spec x n (hgen ▸ hroot) hlt
      refine ⟨rest', ?_, by omega, heval'.trans heval⟩
      rw [range_succ, foldl_append, hfold]
      exact hstep
  obtain ⟨rest, hfold, hrest, heval⟩ := hloop _ le_rfl
  have hrs : qrReedSolomon data degree = rest := by
    rw [qrReedSolomon, hgen, hfold, drop_left' (by simp)]
  have hlen : rest.length = degree := by omega
  refine ⟨hrs ▸ hlen, ?_⟩
  rw [hrs, evalAt_append, heval, evalAt_append, evalAt_replicate, length_replicate, hlen, add_zero]
  exact CharTwo.add_self_eq_zero _

theorem evalAt_eq_sum (w : Bytes) : evalAt x w =
    ∑ j ∈ Finset.range w.length, value (w.getD j 0).toNat * x ^ (w.length - 1 - j) := by
  induction w with
  | nil => rfl
  | cons b w ih =>
    rw [evalAt, ih, length_cons, Finset.sum_range_succ']
    simp [add_comm, Nat.sub_sub]

theorem card_differing {w w' : Bytes} {degree : ℕ} (hlen : w'.length = w.length)
    (hw : w.length ≤ 255) (h : ∀ k < degree, evalAt (α ^ k) w = 0)
    (h' : ∀ k < degree, evalAt (α ^ k) w' = 0) (hne : w ≠ w') : degree < (differing w w').card := by
  let c j := value (w.getD j 0).toNat + value (w'.getD j 0).toNat
  have hc : ∀ j, c j = 0 ↔ w.getD j 0 = w'.getD j 0 := fun j => by
    rw [CharTwo.add_eq_zero]
    exact ⟨fun h => UInt8.toNat_inj.mp (value_inj (UInt8.toNat_lt _) (UInt8.toNat_lt _) h),
      fun h => by rw [h]⟩
  -- the sum of the two words vanishes where both do, and its coefficients are the differences
  refine card_gt_of_sum_eq_zero (c := c) (x := fun j => α ^ (w.length - 1 - j)) ?_ ?_ ?_ ?_
  · by_contra hempty
    refine hne (ext_getElem hlen.symm fun j hj hj' => ?_)
    simpa [differing, hj, hj'] using Finset.eq_empty_iff_forall_notMem.mp
      (Finset.not_nonempty_iff_eq_empty.mp hempty) j
  · intro j hj
    rw [Ne, hc]
    exact (Finset.mem_filter.mp hj).2
  · intro i hi j hj hij
    have hi := Finset.mem_range.mp (Finset.mem_filter.mp hi).1
    have hj := Finset.mem_range.mp (Finset.mem_filter.mp hj).1
    have := pow_injOn (by simp; omega) (by simp; omega) hij
    omega
  · intro k hk
    calc
      _ = ∑ j ∈ Finset.range w.length, c j * (α ^ (w.length - 1 - j)) ^ k := by
        refine Finset.sum_subset (Finset.filter_subset _ _) fun j hj hn => ?_
        have heq : w.getD j 0 = w'.getD j 0 := by
          by_contra hd
          exact hn (Finset.mem_filter.mpr ⟨hj, hd⟩)
        rw [(hc j).mpr heq, zero_mul]
      _ = evalAt (α ^ k) w + evalAt (α ^ k) w' := by
        rw [evalAt_eq_sum, evalAt_eq_sum, hlen, ← Finset.sum_add_distrib]
        refine Finset.sum_congr rfl fun j _ => ?_
        rw [pow_right_comm, add_mul]
      _ = 0 := by rw [h k hk, h' k hk, add_zero]

/-- The error correction of the QR code is a Reed-Solomon code. -/
theorem qrReedSolomon_code (data : Bytes) (degree : ℕ) (hpos : 1 ≤ degree)
    (hlen : data.length + degree ≤ 255) :
    (∀ i < degree, evalAt (α ^ i) (data ++ qrReedSolomon data degree) = 0) ∧
      ∀ data', data'.length = data.length → data' ≠ data →
        degree + 1 ≤ (differing (data ++ qrReedSolomon data degree)
          (data' ++ qrReedSolomon data' degree)).card := by
  have hspec data {i} (hi : i < degree) :=
    qrReedSolomon_spec (evalAt_qrGenerator (i := i) (by omega) hi) data
  refine ⟨fun i hi => (hspec data hi).2, fun data' hlen' hne => ?_⟩
  have hl data := (hspec data hpos).1
  refine card_differing ?_ ?_ (fun k hk => (hspec data hk).2) (fun k hk => (hspec data' hk).2) ?_
  · simp [hl, hlen']
  · simpa [hl] using hlen
  · exact fun h => hne (append_inj_left h hlen'.symm).symm

/-- Two messages of two bytes. -/
theorem qrReedSolomon_code_sample :
    evalAt (α ^ 1) ([1, 2] ++ qrReedSolomon [1, 2] 2) = 0 ∧
      3 ≤ (differing ([1, 2] ++ qrReedSolomon [1, 2] 2)
        ([3, 4] ++ qrReedSolomon [3, 4] 2)).card := by
  have h := qrReedSolomon_code [1, 2] 2 (by decide) (by decide)
  exact ⟨h.1 1 (by decide), h.2 [3, 4] rfl (by decide)⟩

end NrePlugins.Shadowsocks
