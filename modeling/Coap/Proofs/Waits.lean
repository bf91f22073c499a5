import Coap.Proofs.RetrySchedule
import Mathlib.Order.MinMax

/-!
# How long the waits are

Sums and products of times stop at the top, and so does each factor and each partial sum on the
way. That loses nothing but what is above the top: a wait and a span are what they would be without
a bound, cut off once.
-/
namespace Coap

namespace Millis

/-- Cutting the terms off first changes nothing. -/
theorem add_min (a b : Nat) : add (min a top) (min b top) = min (a + b) top := by
  unfold add
  grind

/-- Nor does cutting a factor off first, even where the other one is zero. -/
theorem mul_min (a b : Nat) : mul a (min b top) = min (a * b) top := by
  rcases Nat.eq_zero_or_pos a with rfl | ha
  · rw [mul, Nat.zero_mul, Nat.zero_mul]
  · rcases Nat.le_total b top with hb | hb
    · rw [Nat.min_eq_left hb, mul]
    · have htop : top ≤ a * top := Nat.le_mul_of_pos_left top ha
      have hb' : top ≤ a * b := Nat.le_trans hb (Nat.le_mul_of_pos_left b ha)
      rw [Nat.min_eq_right hb, mul, Nat.min_eq_right htop, Nat.min_eq_right hb']

end Millis

namespace Backoff

/-- The wait after so many retransmissions, in timeouts. -/
def weight : Backoff → Nat → Nat
  | exponential, n => 2 ^ n
  | constant, _ => 1

/-- All waits before the last of so many retransmissions together, in timeouts. -/
def total : Backoff → Nat → Nat
  | exponential, n => 2 ^ n - 1
  | constant, n => n

variable {t t' : Millis} {m n : Nat}

theorem total_succ (b : Backoff) (n : Nat) : b.total (n + 1) = b.total n + b.weight n := by
  cases b with
  | exponential =>
    have hpos : 0 < 2 ^ n := Nat.two_pow_pos n
    rw [total, total, weight, Nat.pow_succ]
    omega
  | constant => rfl

theorem weight_mono (b : Backoff) (h : m ≤ n) : b.weight m ≤ b.weight n := by
  cases b with
  | exponential => exact Nat.pow_le_pow_right Nat.two_pos h
  | constant => exact Nat.le_refl 1

theorem total_mono (b : Backoff) (h : m ≤ n) : b.total m ≤ b.total n := by
  cases b with
  | exponential => exact Nat.sub_le_sub_right (Nat.pow_le_pow_right Nat.two_pos h) 1
  | constant => exact h

/-- A power that 64 bits do not hold is above the top. -/
theorem factor_eq (n : Nat) : factor n = min (2 ^ n) Millis.top := by
  unfold factor
  split
  · rename_i hn
    have hlt : 2 ^ n < Millis.top + 1 := Nat.pow_lt_pow_right Nat.one_lt_two hn
    exact (Nat.min_eq_left (Nat.le_of_lt_succ hlt)).symm
  · rename_i hn
    have hle : Millis.top + 1 ≤ 2 ^ n := Nat.pow_le_pow_right Nat.two_pos (Nat.not_lt.1 hn)
    exact (Nat.min_eq_right (Nat.le_of_succ_le hle)).symm

theorem delay_eq (b : Backoff) (ht : t ≤ Millis.top) (n : Nat) :
    b.delay t n = min (t * b.weight n) Millis.top := by
  cases b with
  | exponential => rw [delay, factor_eq, Millis.mul_min, weight]
  | constant => rw [delay, weight, Nat.mul_one, Nat.min_eq_left ht]

theorem span_eq (b : Backoff) (ht : t ≤ Millis.top) (n : Nat) :
    b.span t n = min (t * b.total n) Millis.top := by
  induction n with
  | zero =>
    have hnone : b.total 0 = 0 := by cases b <;> rfl
    rw [span_zero, hnone, Nat.mul_zero, Nat.zero_min]
  | succ n ih => rw [span_succ, ih, b.delay_eq ht, Millis.add_min, ← Nat.mul_add, ← total_succ]

/-- **Waits and spans are exact up to the top.** They are what the timeout, doubled or not, comes to
without any bound, cut off at the last time there is: also where the power alone is above the top,
and where a partial sum is. So they never fall as the timeout or the count grows, and each span is
the one before it and one more wait. -/
theorem exact_up_to_the_top (t : Millis) (n : Nat) (ht : t ≤ Millis.top) :
    exponential.delay t n = min (t * 2 ^ n) Millis.top ∧
      exponential.span t n = min (t * (2 ^ n - 1)) Millis.top ∧
      constant.delay t n = t ∧
      constant.span t n = min (t * n) Millis.top ∧
      ∀ b : Backoff,
        b.delay t n ≤ Millis.top ∧ b.span t n ≤ Millis.top ∧
          (∀ t', t ≤ t' → t' ≤ Millis.top →
            b.delay t n ≤ b.delay t' n ∧ b.span t n ≤ b.span t' n) ∧
          (∀ n', n ≤ n' → b.delay t n ≤ b.delay t n' ∧ b.span t n ≤ b.span t n') ∧
          b.span t (n + 1) = min (b.span t n + b.delay t n) Millis.top := by
  refine ⟨exponential.delay_eq ht n, exponential.span_eq ht n, rfl, constant.span_eq ht n, ?_⟩
  intro b
  have hdelay := b.delay_eq ht
  have hspan := b.span_eq ht
  refine ⟨?_, ?_, ?_, ?_, b.span_succ t n⟩
  · rw [hdelay]
    exact Nat.min_le_right _ _
  · rw [hspan]
    exact Nat.min_le_right _ _
  · intro t' hle ht'
    rw [hdelay, hspan, b.delay_eq ht', b.span_eq ht']
    exact ⟨min_le_min_right _ (Nat.mul_le_mul_right _ hle),
      min_le_min_right _ (Nat.mul_le_mul_right _ hle)⟩
  · intro n' hle
    rw [hdelay, hdelay, hspan, hspan]
    exact ⟨min_le_min_right _ (Nat.mul_le_mul_left t (b.weight_mono hle)),
      min_le_min_right _ (Nat.mul_le_mul_left t (b.total_mono hle))⟩

/-- The first power that 64 bits do not hold, times one and times zero; and the last sum of waits
that they do hold. -/
theorem exact_up_to_the_top_samples :
    exponential.delay 1 64 = Millis.top ∧ exponential.delay 0 64 = 0 ∧
      exponential.span 1 64 = 2 ^ 64 - 1 ∧ exponential.span 2000 4 = 30000 ∧
      constant.span 2000 65535 = 131070000 := by
  obtain ⟨hone, hlast, -⟩ := exact_up_to_the_top 1 64 (by decide)
  obtain ⟨hzero, -⟩ := exact_up_to_the_top 0 64 (by decide)
  obtain ⟨-, hfour, -⟩ := exact_up_to_the_top 2000 4 (by decide)
  obtain ⟨-, -, -, hmany, -⟩ := exact_up_to_the_top 2000 65535 (by decide)
  rw [hone, hzero, hlast, hfour, hmany]
  decide

end Backoff

end Coap
