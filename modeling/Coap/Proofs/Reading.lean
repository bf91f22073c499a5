import Coap.Proofs.Digits
import Coap.Proofs.Grammar

/-!
# The reader accepts exactly the format

Reading and the format agree option by option and then over the row of options: what the
format describes is read, with the rest of the input left over, and what is read has the
described form. The end of the options is a cause that never leaves the reader.
-/
namespace Coap

namespace OptionValue

theorem read_of_spelt {f : ValueFormat} {bs : Bytes} {v : OptionValue} (h : Spelt f bs v) :
    read f bs = .ok v := by
  cases h with
  | none => rfl
  | unexpected h => simp [read, h]
  | blob => rfl
  | @uint _ n hl hn =>
    have hlt : ¬ bs.length > 4 := by omega
    simp only [read, hlt, if_false, ← hn, UInt32.ofNat_toNat]
  | text s => simp only [read, ofUtf8?_utf8]

theorem spelt_of_read {f : ValueFormat} {bs : Bytes} {v : OptionValue} (h : read f bs = .ok v) :
    Spelt f bs v := by
  cases f with
  | empty =>
    cases bs with
    | nil => cases h; exact .none
    | cons b bs => cases h; exact .unexpected (List.cons_ne_nil b bs)
  | blob => cases h; exact .blob bs
  | uint =>
    simp only [read] at h
    split at h
    · cases h
    · rename_i hlt
      cases h
      refine .uint (by omega) ?_
      have hp : 256 ^ bs.length ≤ 256 ^ 4 := Nat.pow_le_pow_right (by decide) (by omega)
      exact UInt32.toNat_ofNat_of_lt' (Nat.lt_of_lt_of_le (Bytes.toNat_lt bs) hp)
  | text =>
    simp only [read] at h
    split at h
    · rename_i s hs
      cases h
      rw [← utf8_of_ofUtf8? hs]
      exact .text s
    · cases h

theorem read_ne_exhausted (f : ValueFormat) (bs : Bytes) : read f bs ≠ .error .exhausted := by
  cases f with
  | empty => simp [read]
  | blob => simp [read]
  | uint => simp only [read]; split <;> simp
  | text => simp only [read]; split <;> simp

end OptionValue

namespace Entry

theorem split?_append (front rest : Bytes) :
    split? front.length (front ++ rest) = some (front, rest) := by
  simp [split?]

theorem eq_append_of_split? {n : Nat} {bs front rest : Bytes}
    (h : split? n bs = some (front, rest)) : bs = front ++ rest ∧ front.length = n := by
  simp only [split?] at h
  split at h
  · rename_i hl
    cases h
    exact ⟨(List.take_append_drop n bs).symm, hl⟩
  · cases h

/-- A piece in its place is read whole, and only its value decides whether it is accepted. -/
theorem read_piece {p : Piece} {previous number : OptionNumber} (h : p.Leads previous number)
    (rest : Bytes) :
    read previous (p.octets ++ rest) =
      (OptionValue.read number.format p.value).map fun v => (⟨number, v⟩, rest) := by
  obtain ⟨⟨gap, hgap, hnumber⟩, hextent⟩ := h
  have hlt := hgap.nibble_lt
  have hhead : p.head ≠ payloadMarker := by
    intro he
    rw [he] at hlt
    exact absurd hlt (by decide)
  have hsum : previous.toNat + gap < UInt32.size := by
    rw [← hnumber]
    exact number.toNat_lt
  have hn : UInt32.ofNat (previous.toNat + gap) = number := by
    rw [← hnumber, UInt32.ofNat_toNat]
  have hbs : p.octets ++ rest = p.head :: (p.delta ++ (p.extent ++ (p.value ++ rest))) := by
    simp [Piece.octets]
  rw [hbs]
  simp only [read, hhead, if_false, readBody, Extended.read_append hgap,
    Extended.read_append hextent, split?_append, ofDelta, hsum, if_true, hn]
  cases OptionValue.read number.format p.value <;> rfl

theorem piece_of_read {previous : OptionNumber} {bs rest : Bytes} {e : Entry}
    (h : read previous bs = .ok (e, rest)) :
    ∃ p : Piece, bs = p.octets ++ rest ∧ p.Carries previous e := by
  cases bs with
  | nil => cases h
  | cons head bs =>
    simp only [read] at h
    split at h
    · cases h
    · unfold readBody at h
      split at h
      · cases h
      · rename_i gap bs₁ hgap
        split at h
        · cases h
        · rename_i length bs₂ hlength
          split at h
          · cases h
          · rename_i octets rest' hsplit
            split at h
            · cases h
            · rename_i e' hentry
              cases h
              obtain ⟨delta, rfl, hdelta⟩ := Extended.stands_of_read hgap
              obtain ⟨extent, rfl, hextent⟩ := Extended.stands_of_read hlength
              obtain ⟨rfl, rfl⟩ := eq_append_of_split? hsplit
              unfold ofDelta at hentry
              split at hentry
              · rename_i hsum
                split at hentry
                · cases hentry
                · rename_i v hv
                  cases hentry
                  refine ⟨⟨head, delta, extent, octets⟩, by simp [Piece.octets], ⟨⟨gap, hdelta, ?_⟩,
                    hextent⟩, OptionValue.spelt_of_read hv⟩
                  rw [UInt32.toNat_ofNat_of_lt' hsum]
              · cases hentry

theorem readBody_ne_exhausted (previous : OptionNumber) (head : UInt8) (bs : Bytes) :
    readBody previous head bs ≠ .error .exhausted := by
  intro h
  unfold readBody at h
  split at h
  · rename_i hgap
    cases h
    rcases Extended.read_error hgap with he | he <;> cases he
  · split at h
    · rename_i hlength
      cases h
      rcases Extended.read_error hlength with he | he <;> cases he
    · split at h
      · cases h
      · split at h
        · rename_i hentry
          cases h
          unfold ofDelta at hentry
          split at hentry
          · split at hentry
            · rename_i hv
              cases hentry
              exact OptionValue.read_ne_exhausted _ _ hv
            · cases hentry
          · cases hentry
        · cases h

/-- The options end where the input ends or the marker stands. -/
theorem ending_of_exhausted {previous : OptionNumber} {bs : Bytes}
    (h : read previous bs = .error .exhausted) : ∃ payload, bs = Layout.ending payload := by
  cases bs with
  | nil => exact ⟨none, rfl⟩
  | cons head bs =>
    simp only [read] at h
    split at h
    · rename_i he
      exact ⟨some bs, by rw [he]; rfl⟩
    · exact absurd h (readBody_ne_exhausted previous head bs)

theorem read_ending (previous : OptionNumber) (payload : Option Bytes) :
    read previous (Layout.ending payload) = .error .exhausted := by
  cases payload <;> rfl

end Entry

namespace Options

variable {previous : OptionNumber} {seen : List Entry} {bs : Bytes}

theorem readAfter_of_ok {e : Entry} {rest : Bytes} (h : Entry.read previous bs = .ok (e, rest)) :
    readAfter previous seen bs = readAfter e.number (e :: seen) rest := by
  rw [readAfter]
  split
  · rename_i he
    rw [h] at he
    cases he
    rfl
  · rename_i he
    cases h.symm.trans he
  · rename_i he
    cases h.symm.trans he

theorem readAfter_of_exhausted (h : Entry.read previous bs = .error .exhausted) :
    readAfter previous seen bs = .ok (seen, bs.drop 1) := by
  rw [readAfter]
  split
  · rename_i he
    cases h.symm.trans he
  · rfl
  · rename_i hne he
    cases h.symm.trans he
    exact absurd rfl hne

theorem readAfter_of_error {cause : ReadError} (h : Entry.read previous bs = .error cause)
    (hne : cause ≠ .exhausted) : readAfter previous seen bs = .error cause := by
  rw [readAfter]
  split
  · rename_i he
    cases h.symm.trans he
  · rename_i he
    cases h.symm.trans he
    exact absurd rfl hne
  · rename_i he
    cases h.symm.trans he
    rfl

theorem readAfter_piece {p : Piece} {number : OptionNumber} {v : OptionValue}
    (h : p.Leads previous number) (hv : OptionValue.read number.format p.value = .ok v)
    (seen : List Entry) (rest : Bytes) :
    readAfter previous seen (p.octets ++ rest) = readAfter number (⟨number, v⟩ :: seen) rest := by
  have hread := Entry.read_piece h rest
  rw [hv] at hread
  exact readAfter_of_ok hread

/-- An option whose value is refused ends the reading. -/
theorem readAfter_refused {p : Piece} {number : OptionNumber} {cause : ReadError}
    (h : p.Leads previous number) (hv : OptionValue.read number.format p.value = .error cause)
    (seen : List Entry) (rest : Bytes) :
    readAfter previous seen (p.octets ++ rest) = .error cause := by
  have hread := Entry.read_piece h rest
  rw [hv] at hread
  refine readAfter_of_error hread ?_
  rintro rfl
  exact OptionValue.read_ne_exhausted _ _ hv

theorem readAfter_ending (previous : OptionNumber) (seen : List Entry) (payload : Option Bytes) :
    readAfter previous seen (Layout.ending payload) = .ok (seen, payload.getD []) := by
  rw [readAfter_of_exhausted (Entry.read_ending previous payload)]
  cases payload <;> rfl

/-- A row of the format is read to its end. -/
theorem readAfter_of_spelt {previous : OptionNumber} {ps : List Piece} {es : List Entry}
    (h : Spelt previous ps es) (seen : List Entry) (payload : Option Bytes) :
    readAfter previous seen (ps.flatMap Piece.octets ++ Layout.ending payload) =
      .ok (es.reverse ++ seen, payload.getD []) := by
  induction h generalizing seen with
  | nil previous => exact readAfter_ending previous seen payload
  | cons head _ ih =>
    rw [List.flatMap_cons, List.append_assoc,
      readAfter_piece head.leads (OptionValue.read_of_spelt head.value), ih]
    simp

theorem spelt_of_readAfter {previous : OptionNumber} {seen es : List Entry} {bs rest : Bytes}
    (h : readAfter previous seen bs = .ok (es, rest)) :
    ∃ ps new payload, bs = ps.flatMap Piece.octets ++ Layout.ending payload ∧
      Spelt previous ps new ∧ es = new.reverse ++ seen ∧ rest = payload.getD [] := by
  fun_induction readAfter previous seen bs with
  | case1 previous seen bs e rest' he ih =>
    obtain ⟨p, hp, hcarries⟩ := Entry.piece_of_read he
    obtain ⟨ps, new, payload, hbs, hrow, hes, hrest⟩ := ih h
    refine ⟨p :: ps, e :: new, payload, ?_, .cons hcarries hrow, ?_, hrest⟩
    · rw [hp, hbs, List.flatMap_cons, List.append_assoc]
    · rw [hes, List.reverse_cons, List.append_assoc, List.singleton_append]
  | case2 previous seen bs he =>
    obtain ⟨payload, rfl⟩ := Entry.ending_of_exhausted he
    cases h
    refine ⟨[], [], payload, rfl, .nil previous, rfl, ?_⟩
    cases payload <;> rfl
  | case3 => cases h

theorem readAfter_ne_exhausted (previous : OptionNumber) (seen : List Entry) (bs : Bytes) :
    readAfter previous seen bs ≠ .error .exhausted := by
  fun_induction readAfter previous seen bs with
  | case1 previous seen bs e rest he ih => exact ih
  | case2 => simp
  | case3 previous seen bs cause hne he =>
    intro h
    cases h
    exact hne rfl

theorem read_eq_ok_iff {bs rest : Bytes} {o : Options} :
    read bs = .ok (o, rest) ↔ readAfter 0 [] bs = .ok (o.entries.reverse, rest) := by
  unfold read
  split
  · rename_i es rest' he
    constructor
    · intro h
      cases h
      simpa using he
    · intro h
      have hp := Except.ok.inj (he.symm.trans h)
      cases hp
      simp only [Except.ok.injEq, Prod.mk.injEq, and_true]
      exact Options.ext (List.reverse_reverse _)
  · rename_i he
    constructor
    · intro h
      cases h
    · intro h
      cases he.symm.trans h

theorem read_of_readAfter {bs rest : Bytes} {es : List Entry}
    (h : readAfter 0 [] bs = .ok (es.reverse, rest)) :
    ∃ o : Options, o.entries = es ∧ read bs = .ok (o, rest) := by
  have hsorted := sorted_of_readAfter (by simp) List.Pairwise.nil h
  exact ⟨⟨es, List.pairwise_reverse.1 hsorted⟩, rfl, read_eq_ok_iff.2 h⟩

theorem read_eq_error_iff {bs : Bytes} {cause : ReadError} :
    read bs = .error cause ↔ readAfter 0 [] bs = .error cause := by
  unfold read
  split
  · rename_i he
    constructor
    · intro h
      cases h
    · intro h
      cases he.symm.trans h
  · rename_i he
    exact ⟨fun h => by cases h; exact he, fun h => by cases he.symm.trans h; rfl⟩

/-- One round of the loop over the options: from the number before and the octets left to
the next number and the octets left then. -/
def Round (before after : OptionNumber × Bytes) : Prop :=
  ∃ e, Entry.read before.1 before.2 = .ok (e, after.2) ∧ after.1 = e.number

theorem round_wellFounded : WellFounded fun after before => Round before after := by
  refine Subrelation.wf ?_ (measure fun s : OptionNumber × Bytes => s.2.length).wf
  rintro after before ⟨e, he, -⟩
  exact Entry.length_lt_of_read he

end Options
end Coap
