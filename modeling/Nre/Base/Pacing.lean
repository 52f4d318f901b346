import Mathlib.Data.List.Basic

/-!
# Pacing by a theoretical arrival time

The arithmetic of a limiter that keeps one number, the theoretical arrival time: an
admission needs that this time is at most `tolerance` ahead of the clock, and moves it
`interval` beyond the later of itself and the clock.

- `Paced`: a list of times that such a limiter admits, from a given arrival time on;
- `Paced.count_le`: the admissions in a window, in whatever order the times come;
- `Paced.arrival_le`: how far ahead the last admission leaves the arrival time.
-/

namespace NrePlugins

open List

/-- The arrival time after an admission. -/
def nextArrival (interval arrival now : Nat) : Nat := max arrival now + interval

/-- The times of consecutive admissions. -/
def Paced (interval tolerance : Nat) : Nat → List Nat → Prop
  | _, [] => True
  | arrival, now :: rest =>
    arrival ≤ now + tolerance ∧ Paced interval tolerance (nextArrival interval arrival now) rest

/-- The arrival time after admissions at the given times. -/
def arrivalAfter (interval arrival : Nat) (times : List Nat) : Nat :=
  times.foldl (nextArrival interval) arrival

/-- The times that lie in a closed window. -/
def inWindow (start width : Nat) (times : List Nat) : List Nat :=
  times.filter fun t => start ≤ t && t ≤ start + width

variable {interval tolerance : Nat}

/-- Each admission in a window takes one interval of the time that the window and the
tolerance give. -/
theorem Paced.count_interval_le {start width arrival : Nat} {times : List Nat}
    (h : Paced interval tolerance arrival times) (hsome : inWindow start width times ≠ []) :
    max arrival start + ((inWindow start width times).length - 1) * interval ≤
      start + width + tolerance := by
  induction times generalizing arrival with
  | nil => exact absurd rfl hsome
  | cons now rest ih =>
    obtain ⟨hadmitted, hrest⟩ := h
    by_cases hin : start ≤ now ∧ now ≤ start + width
    · have hcons : inWindow start width (now :: rest) = now :: inWindow start width rest :=
        filter_cons_of_pos (by simp [hin])
      rw [hcons, length_cons, Nat.add_sub_cancel]
      by_cases hlast : inWindow start width rest = []
      · rw [hlast, length_nil]
        omega
      · have hnext := ih hrest hlast
        -- the first admission has moved the arrival time by one interval
        obtain ⟨k, hk⟩ : ∃ k, (inWindow start width rest).length = k + 1 :=
          Nat.exists_eq_succ_of_ne_zero (fun h => hlast (length_eq_zero_iff.mp h))
        rw [hk, Nat.add_sub_cancel] at hnext
        rw [hk, Nat.succ_mul]
        unfold nextArrival at hnext
        omega
    · have hskip : inWindow start width (now :: rest) = inWindow start width rest :=
        filter_cons_of_neg (by simpa using hin)
      rw [hskip] at hsome ⊢
      have hnext := ih hrest hsome
      unfold nextArrival at hnext
      omega

/-- A window of a given width takes as many admissions as intervals fit in, and those
of the tolerance. -/
theorem Paced.count_le {burst start width arrival : Nat} {times : List Nat}
    (hburst : 0 < burst) (hinterval : 0 < interval)
    (h : Paced interval (interval * (burst - 1)) arrival times) :
    (inWindow start width times).length ≤ burst + width / interval := by
  by_cases hsome : inWindow start width times = []
  · rw [hsome]
    exact Nat.zero_le _
  · have hcount := h.count_interval_le hsome
    obtain ⟨k, hk⟩ : ∃ k, (inWindow start width times).length = k + 1 :=
      Nat.exists_eq_succ_of_ne_zero (fun h => hsome (length_eq_zero_iff.mp h))
    obtain ⟨b, rfl⟩ : ∃ b, burst = b + 1 := Nat.exists_eq_succ_of_ne_zero (Nat.ne_of_gt hburst)
    rw [hk, Nat.add_sub_cancel, Nat.add_sub_cancel, Nat.mul_comm interval b] at hcount
    have hwidth : (k - b) * interval ≤ width := by
      rw [Nat.sub_mul]
      omega
    have hquotient := (Nat.le_div_iff_mul_le hinterval).mpr hwidth
    omega

/-- The last admission leaves the arrival time at most a tolerance and an interval ahead. -/
theorem Paced.arrival_le {arrival now : Nat} {times : List Nat}
    (h : Paced interval tolerance arrival times) (harrival : arrival ≤ now)
    (hidle : ∀ t ∈ times, t + tolerance + interval ≤ now) :
    arrivalAfter interval arrival times ≤ now := by
  induction times generalizing arrival with
  | nil => exact harrival
  | cons t rest ih =>
    obtain ⟨hadmitted, hrest⟩ := h
    have ht := hidle t mem_cons_self
    refine ih hrest ?_ fun t' ht' => hidle t' (mem_cons_of_mem _ ht')
    unfold nextArrival
    omega

end NrePlugins
