import Coap.Options.Extended

/-!
# One spelling for each number

The extended nibble code as a relation. Reading accepts exactly the spellings of the
relation and writing produces them, so a number up to `maxExtended` has one spelling
and a larger one has none.
-/
namespace Coap.Extended

/-- A nibble and the octets that extend it stand for a number. -/
inductive Stands : Nat → Bytes → Nat → Prop
  | short {n : Nat} (h : n < 13) : Stands n [] n
  | octet (b : UInt8) : Stands 13 [b] (b.toNat + 13)
  | word (hi lo : UInt8) : Stands 14 [hi, lo] (hi.toNat * 256 + lo.toNat + 269)

theorem Stands.nibble_lt {nibble n : Nat} {ext : Bytes} (h : Stands nibble ext n) :
    nibble < 15 := by
  cases h with
  | short h => omega
  | octet b => decide
  | word hi lo => decide

theorem Stands.le_max {nibble n : Nat} {ext : Bytes} (h : Stands nibble ext n) :
    n ≤ maxExtended := by
  unfold maxExtended
  cases h with
  | short h => omega
  | octet b => have hb := b.toNat_lt; omega
  | word hi lo =>
    have hhi := hi.toNat_lt
    have hlo := lo.toNat_lt
    omega

theorem mod_size_of_le {n : Nat} (h : n ≤ maxExtended) : n % UInt32.size = n := by
  apply Nat.mod_eq_of_lt
  exact Nat.lt_of_le_of_lt h (by decide)

theorem toNat_word16 (hi lo : UInt8) :
    (Bytes.word16 hi lo).toNat = hi.toNat * 256 + lo.toNat := by
  have hhi := hi.toNat_lt
  have hlo := lo.toNat_lt
  rw [Bytes.word16, UInt16.toNat_ofNat']
  omega

/-- What follows a spelling is left for the next reader. -/
theorem read_append {nibble n : Nat} {ext : Bytes} (h : Stands nibble ext n) (rest : Bytes)
    (reserved : Options.ReadError) : read nibble (ext ++ rest) reserved = .ok (n, rest) := by
  cases h with
  | short h => simp only [read, if_pos h, List.nil_append]
  | octet b => rfl
  | word hi lo => simp [read, toNat_word16]

/-- An input begins with a spelling under its nibble, or it is refused. -/
theorem read_cases (nibble : Nat) (bs : Bytes) (reserved : Options.ReadError) :
    (∃ n ext rest, bs = ext ++ rest ∧ Stands nibble ext n) ∨
      read nibble bs reserved = .error .endOfInput ∨ read nibble bs reserved = .error reserved := by
  by_cases hshort : nibble < 13
  · exact .inl ⟨nibble, [], bs, rfl, .short hshort⟩
  · by_cases hoctet : nibble = 13
    · subst hoctet
      cases bs with
      | nil => exact .inr (.inl rfl)
      | cons b rest => exact .inl ⟨_, [b], rest, rfl, .octet b⟩
    · by_cases hword : nibble = 14
      · subst hword
        rcases bs with _ | ⟨hi, _ | ⟨lo, rest⟩⟩
        · exact .inr (.inl rfl)
        · exact .inr (.inl rfl)
        · exact .inl ⟨_, [hi, lo], rest, rfl, .word hi lo⟩
      · refine .inr (.inr ?_)
        unfold read
        rw [if_neg hshort, if_neg hoctet, if_neg hword]

theorem stands_of_read {nibble n : Nat} {bs rest : Bytes} {reserved : Options.ReadError}
    (h : read nibble bs reserved = .ok (n, rest)) :
    ∃ ext, bs = ext ++ rest ∧ Stands nibble ext n := by
  obtain ⟨n', ext, rest', rfl, hn⟩ | he | he := read_cases nibble bs reserved
  · rw [read_append hn] at h
    cases h
    exact ⟨ext, rfl, hn⟩
  · rw [he] at h
    cases h
  · rw [he] at h
    cases h

theorem stands_of_write {nibble n : Nat} {ext : Bytes} (h : write n = some (nibble, ext)) :
    Stands nibble ext n := by
  unfold write at h
  split at h
  · rename_i hlt
    cases h
    exact .short hlt
  · split at h
    · rename_i hge hlt
      cases h
      have hs := Stands.octet (UInt8.ofNat (n - 13))
      rwa [UInt8.toNat_ofNat', show (n - 13) % 2 ^ 8 + 13 = n from by omega] at hs
    · split at h
      · rename_i hge hle
        cases h
        have hn : (UInt16.ofNat (n - 269)).toNat = n - 269 := by
          rw [UInt16.toNat_ofNat']
          unfold maxExtended at hle
          omega
        have hs := Stands.word (UInt8.ofNat ((n - 269) / 256)) (UInt8.ofNat ((n - 269) % 256))
        have hv : (UInt8.ofNat ((n - 269) / 256)).toNat * 256 +
            (UInt8.ofNat ((n - 269) % 256)).toNat + 269 = n := by
          unfold maxExtended at hle
          rw [UInt8.toNat_ofNat', UInt8.toNat_ofNat']
          omega
        rw [hv] at hs
        rwa [Bytes.ofWord16, hn]
      · cases h

theorem write_of_stands {nibble n : Nat} {ext : Bytes} (h : Stands nibble ext n) :
    write n = some (nibble, ext) := by
  cases h with
  | short h => rw [write, if_pos h]
  | octet b =>
    have hb := b.toNat_lt
    rw [write, if_neg (by omega), if_pos (by omega), Nat.add_sub_cancel, UInt8.ofNat_toNat]
  | word hi lo =>
    have hle := (Stands.word hi lo).le_max
    rw [write, if_neg (by omega), if_neg (by omega), if_pos hle, Nat.add_sub_cancel]
    have hhi := hi.toNat_lt
    have hlo := lo.toNat_lt
    have hw : (UInt16.ofNat (hi.toNat * 256 + lo.toNat)).toNat = hi.toNat * 256 + lo.toNat := by
      rw [UInt16.toNat_ofNat']
      omega
    rw [Bytes.ofWord16, hw, show (hi.toNat * 256 + lo.toNat) / 256 = hi.toNat from by omega,
      show (hi.toNat * 256 + lo.toNat) % 256 = lo.toNat from by omega, UInt8.ofNat_toNat,
      UInt8.ofNat_toNat]

/-- The writer and the relation agree. -/
theorem write_eq_some_iff {nibble n : Nat} {ext : Bytes} :
    write n = some (nibble, ext) ↔ Stands nibble ext n :=
  ⟨stands_of_write, write_of_stands⟩

theorem exists_write {n : Nat} (h : n ≤ maxExtended) :
    ∃ nibble ext, write n = some (nibble, ext) := by
  unfold write
  split
  · exact ⟨_, _, rfl⟩
  · split
    · exact ⟨_, _, rfl⟩
    · exact ⟨_, _, rfl⟩

theorem write_eq_none_iff {n : Nat} : write n = none ↔ maxExtended < n := by
  constructor
  · intro hnone
    apply Nat.not_le.1
    intro hle
    obtain ⟨nibble, ext, hsome⟩ := exists_write hle
    cases hnone.symm.trans hsome
  · intro hlt
    cases hwrite : write n with
    | none => rfl
    | some spelling => exact absurd (stands_of_write hwrite).le_max (Nat.not_le.2 hlt)

/-- Of two spellings at the front of one input neither extends the other. -/
theorem Stands.append_inj {nibble n n' : Nat} {ext ext' rest rest' : Bytes}
    (h : Stands nibble ext n) (h' : Stands nibble ext' n')
    (he : ext ++ rest = ext' ++ rest') : ext = ext' ∧ n = n' ∧ rest = rest' := by
  have hr := read_append h rest .exhausted
  rw [he, read_append h' rest' .exhausted] at hr
  cases hr
  exact ⟨List.append_cancel_right he, rfl, rfl⟩

/-- The causes for which a number cannot be read. -/
theorem read_error {nibble : Nat} {bs : Bytes} {reserved cause : Options.ReadError}
    (h : read nibble bs reserved = .error cause) : cause = .endOfInput ∨ cause = reserved := by
  obtain ⟨n, ext, rest, rfl, hn⟩ | he | he := read_cases nibble bs reserved
  · rw [read_append hn] at h
    cases h
  · rw [he] at h
    cases h
    exact .inl rfl
  · rw [he] at h
    cases h
    exact .inr rfl

end Coap.Extended
