import Coap.Bytes
import Mathlib.Data.List.Induction
import Mathlib.Algebra.Group.Nat.Defs
import Mathlib.Data.List.TakeWhile

/-!
# Big-endian digits

Writing a number that was read from octets gives the octets back but for their leading
zeros, and a number takes no more octets than its size asks for.
-/
namespace Coap.Bytes

theorem toNat_lt (bs : Bytes) : toNat bs < 256 ^ bs.length := by
  induction bs using List.reverseRecOn with
  | nil => decide
  | append_singleton bs b ih =>
    have hb := b.toNat_lt
    rw [toNat_append_singleton, List.length_append, List.length_singleton, Nat.pow_succ]
    omega

theorem ofNat_zero : ofNat 0 = [] := by
  rw [ofNat, if_pos rfl]

/-- The digits of a number that is not zero, the last one apart. -/
theorem ofNat_mul_add {n : Nat} {b : UInt8} (h : n * 256 + b.toNat ≠ 0) :
    ofNat (n * 256 + b.toNat) = ofNat n ++ [b] := by
  have hb := b.toNat_lt
  rw [ofNat, if_neg h, show (n * 256 + b.toNat) / 256 = n from by omega,
    show (n * 256 + b.toNat) % 256 = b.toNat from by omega, UInt8.ofNat_toNat]

theorem toNat_eq_zero_iff (bs : Bytes) : toNat bs = 0 ↔ bs.dropWhile (· == 0) = [] := by
  rw [List.dropWhile_eq_nil_iff]
  induction bs using List.reverseRecOn with
  | nil => simp [toNat]
  | append_singleton bs b ih =>
    rw [toNat_append_singleton]
    constructor
    · intro h x hx
      have hb : b.toNat = 0 := by omega
      rcases List.mem_append.1 hx with hx | hx
      · exact ih.1 (by omega) x hx
      · rw [List.mem_singleton.1 hx]
        simpa [← UInt8.toNat_inj] using hb
    · intro h
      have hbs := ih.2 fun x hx => h x (List.mem_append_left _ hx)
      have hb : b = 0 := by simpa using h b (List.mem_append_right _ (List.mem_singleton_self b))
      rw [hbs, hb]
      rfl

/-- Only leading zeros are lost. -/
theorem ofNat_toNat (bs : Bytes) : ofNat (toNat bs) = bs.dropWhile (· == 0) := by
  induction bs using List.reverseRecOn with
  | nil => exact ofNat_zero
  | append_singleton bs b ih =>
    by_cases hz : toNat (bs ++ [b]) = 0
    · rw [hz, ofNat_zero, (toNat_eq_zero_iff _).1 hz]
    · rw [toNat_append_singleton] at hz ⊢
      rw [ofNat_mul_add hz, ih, List.dropWhile_append]
      cases hbs : bs.dropWhile (· == 0) with
      | cons x xs => simp
      | nil =>
        have hn := (toNat_eq_zero_iff bs).2 hbs
        have hb : b ≠ 0 := fun hb => hz (by rw [hn, hb]; rfl)
        simp [hb]

theorem toNat_dropWhile (bs : Bytes) : toNat (bs.dropWhile (· == 0)) = toNat bs := by
  rw [← ofNat_toNat, toNat_ofNat]

theorem length_ofNat_le {n k : Nat} (h : n < 256 ^ k) : (ofNat n).length ≤ k := by
  induction k generalizing n with
  | zero =>
    have hn : n = 0 := by simpa using h
    rw [hn, ofNat_zero]
    exact Nat.le_refl 0
  | succ k ih =>
    rw [ofNat]
    split
    · exact Nat.zero_le _
    · rw [List.length_append, List.length_singleton]
      have hq : n / 256 < 256 ^ k := by
        rw [Nat.div_lt_iff_lt_mul (by decide)]
        rwa [Nat.pow_succ] at h
      exact Nat.succ_le_succ (ih hq)

end Coap.Bytes
