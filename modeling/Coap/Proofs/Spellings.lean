import Coap.Proofs.Extended
import Mathlib.Data.List.Basic
import Mathlib.Logic.ExistsUnique

/-!
# Numbers and spellings in pairs

A nibble says how many octets extend it: none up to 12, one for 13, two for 14. These are the
spellings, and the numbers up to `maxExtended` are paired with them. The offsets make the ranges of
the three widths meet without an overlap, so there is no longer spelling of a number to be refused.
-/
namespace Coap.Extended

variable {nibble n n' : Nat} {ext : Bytes}

/-! ## The spellings by width -/

theorem Stands.length_eq (h : Stands nibble ext n) : ext.length = nibble - 12 := by
  cases h with
  | short h => exact (Nat.sub_eq_zero_of_le (Nat.le_of_lt_succ h)).symm
  | octet b => rfl
  | word hi lo => rfl

theorem exists_stands (hnibble : nibble ≤ 14) (hlength : ext.length = nibble - 12) :
    ∃ n, Stands nibble ext n := by
  by_cases hshort : nibble < 13
  · rw [Nat.sub_eq_zero_of_le (Nat.le_of_lt_succ hshort), List.length_eq_zero_iff] at hlength
    exact ⟨nibble, hlength ▸ .short hshort⟩
  · obtain rfl | rfl : nibble = 13 ∨ nibble = 14 := by omega
    · obtain ⟨b, rfl⟩ := List.length_eq_one_iff.1 hlength
      exact ⟨_, .octet b⟩
    · obtain ⟨hi, lo, rfl⟩ := List.length_eq_two.1 hlength
      exact ⟨_, .word hi lo⟩

/-! ## One of each -/

theorem Stands.number_eq (h : Stands nibble ext n) (h' : Stands nibble ext n') : n = n' :=
  (h.append_inj h' (rfl : ext ++ [] = ext ++ [])).2.1

theorem existsUnique_number (hnibble : nibble ≤ 14) (hlength : ext.length = nibble - 12) :
    ∃! n, Stands nibble ext n := by
  obtain ⟨n, hn⟩ := exists_stands hnibble hlength
  exact ⟨n, hn, fun n' hn' => hn'.number_eq hn⟩

theorem existsUnique_spelling (h : n ≤ maxExtended) :
    ∃! s : Nat × Bytes, Stands s.1 s.2 n := by
  obtain ⟨nibble, ext, hwrite⟩ := exists_write h
  refine ⟨(nibble, ext), stands_of_write hwrite, fun s hs => ?_⟩
  exact Option.some.inj ((write_of_stands hs).symm.trans hwrite)

/-- An input that is read to its end is a spelling. -/
theorem read_eq_ok_nil_iff {reserved : Options.ReadError} :
    read nibble ext reserved = .ok (n, []) ↔ Stands nibble ext n := by
  constructor
  · intro hread
    obtain ⟨ext', rfl, hn⟩ := stands_of_read hread
    rwa [List.append_nil]
  · intro hn
    have hread := read_append hn [] reserved
    rwa [List.append_nil] at hread

/-- **The extended nibble code is a bijection.** Exactly the numbers up to 65804 are written. What is
written is read back whatever follows it, and no more is taken than was written. Conversely, what is
taken for a number is what is written for it. So each of these numbers has one spelling and no longer
one besides it, and each nibble up to 14 with as many octets as it asks for spells one number. -/
theorem numbers_paired_with_spellings (reserved : Options.ReadError) :
    (∀ n, write n = none ↔ 65804 < n) ∧
      (∀ n nibble ext, write n = some (nibble, ext) → nibble ≤ 14 ∧ ext.length = nibble - 12 ∧
        ∀ rest, read nibble (ext ++ rest) reserved = .ok (n, rest)) ∧
      (∀ nibble bs n rest, nibble ≤ 15 → read nibble bs reserved = .ok (n, rest) →
        ∃ ext, bs = ext ++ rest ∧ write n = some (nibble, ext)) ∧
      (∀ n ≤ 65804, ∃! s : Nat × Bytes, s.1 ≤ 15 ∧ read s.1 s.2 reserved = .ok (n, [])) ∧
      ∀ nibble ext, nibble ≤ 14 → ext.length = nibble - 12 →
        ∃! n, write n = some (nibble, ext) := by
  refine ⟨fun n => write_eq_none_iff, ?_, ?_, ?_, ?_⟩
  · intro n nibble ext hwrite
    have hn := stands_of_write hwrite
    exact ⟨Nat.le_of_lt_succ hn.nibble_lt, hn.length_eq, fun rest => read_append hn rest reserved⟩
  · intro nibble bs n rest _ hread
    obtain ⟨ext, hbs, hn⟩ := stands_of_read hread
    exact ⟨ext, hbs, write_of_stands hn⟩
  · intro n hn
    simp only [read_eq_ok_nil_iff]
    obtain ⟨s, hs, hone⟩ := existsUnique_spelling hn
    exact ⟨s, ⟨Nat.le_of_lt hs.nibble_lt, hs⟩, fun s' hs' => hone s' hs'.2⟩
  · intro nibble ext hnibble hlength
    simp only [write_eq_some_iff]
    exact existsUnique_number hnibble hlength

/-- Both sides of each limit: 12 has no spelling but its nibble, 268 is the last number of one octet and
269 the first of two, and 65804 is the last that is written. -/
theorem numbers_paired_with_spellings_samples :
    (∀ s : Nat × Bytes, s.1 ≤ 15 → read s.1 s.2 .endOfInput = .ok (12, []) → s = (12, [])) ∧
      read 13 [255, 0] .endOfInput = .ok (268, [0]) ∧ write 269 = some (14, [0, 0]) ∧
      write 65804 = some (14, [255, 255]) ∧ write 65805 = none ∧
      ∃! n, write n = some (13, [0]) := by
  obtain ⟨hnone, hwritten, hread, hnumber, hspelling⟩ := numbers_paired_with_spellings .endOfInput
  have hword : ∀ n hi lo, read 14 [hi, lo] .endOfInput = .ok (n, []) →
      write n = some (14, [hi, lo]) := by
    intro n hi lo htaken
    obtain ⟨ext, hext, hwrite⟩ := hread 14 [hi, lo] n [] (by decide) htaken
    rwa [hext, List.append_nil]
  refine ⟨?_, (hwritten 268 13 [255] rfl).2.2 [0], hword 269 0 0 rfl, hword 65804 255 255 rfl,
    (hnone 65805).2 (by decide), hspelling 13 [0] (by decide) rfl⟩
  intro s hs htaken
  exact (hnumber 12 (by decide)).unique ⟨hs, htaken⟩ ⟨by decide, rfl⟩

end Coap.Extended
