import Coap.Proofs.Datagram

/-!
# Datagrams cut short and continued

The reader decides on octets that it has taken, from left to right. So octets behind those that it
took change nothing: a fault stays the fault that it is, unless it is that the octets ran out, and
the front of a datagram is read as its header and the first of its options.
-/
namespace Coap

/-- The input was over before what it announced. -/
inductive Options.ReadError.RanOut : ReadError → Prop
  | endOfInput : RanOut .endOfInput
  | value (declared remaining : Nat) : RanOut (.valueRunsPastEnd declared remaining)

inductive Message.ReadError.RanOut : ReadError → Prop
  | endOfInput : RanOut .endOfInput
  | options {cause : Options.ReadError} (h : cause.RanOut) : RanOut (.options cause)

/-- How an input is read, given how the front of it is, with `more` behind that front. -/
inductive Continues {α : Type} (more : Bytes) :
    Except Options.ReadError (α × Bytes) → Except Options.ReadError (α × Bytes) → Prop
  | taken (a : α) (rest : Bytes) : Continues more (.ok (a, rest)) (.ok (a, rest ++ more))
  | refused (cause : Options.ReadError) : Continues more (.error cause) (.error cause)
  | ranOut {cause : Options.ReadError} (h : cause.RanOut)
    (whole : Except Options.ReadError (α × Bytes)) : Continues more (.error cause) whole

namespace Continues

variable {α : Type} {more rest : Bytes} {a : α} {cause : Options.ReadError}
  {whole : Except Options.ReadError (α × Bytes)}

theorem of_ok (h : Continues more (.ok (a, rest)) whole) : whole = .ok (a, rest ++ more) := by
  cases h
  rfl

theorem of_error (h : Continues more (.error cause) whole) :
    cause.RanOut ∨ whole = .error cause := by
  cases h with
  | refused => exact .inr rfl
  | ranOut h => exact .inl h

end Continues

theorem Extended.read_continues (nibble : Nat) (bs more : Bytes) (reserved : Options.ReadError) :
    Continues more (read nibble bs reserved) (read nibble (bs ++ more) reserved) := by
  unfold read
  split
  · exact .taken nibble bs
  · split
    · cases bs with
      | nil => exact .ranOut .endOfInput _
      | cons b rest => exact .taken _ rest
    · split
      · match bs with
        | [] => exact .ranOut .endOfInput _
        | [_] => exact .ranOut .endOfInput _
        | hi :: lo :: rest => exact .taken _ rest
      · exact .refused reserved

namespace Entry

theorem split?_append_of_some {n : Nat} {bs front rest : Bytes} (more : Bytes)
    (h : split? n bs = some (front, rest)) :
    split? n (bs ++ more) = some (front, rest ++ more) := by
  obtain ⟨rfl, rfl⟩ := eq_append_of_split? h
  rw [List.append_assoc, split?_append]

/-- The value is judged once it is taken whole. -/
theorem readBody_continues (previous : OptionNumber) (head : UInt8) (bs more : Bytes) :
    Continues more (readBody previous head bs) (readBody previous head (bs ++ more)) := by
  have hdelta := Extended.read_continues (head.toNat / 16) bs more (.reservedDelta 15)
  unfold readBody
  generalize Extended.read (head.toNat / 16) bs (.reservedDelta 15) = front at hdelta ⊢
  generalize Extended.read (head.toNat / 16) (bs ++ more) (.reservedDelta 15) = whole at hdelta ⊢
  cases hdelta with
  | refused cause => exact .refused cause
  | ranOut h => exact .ranOut h _
  | taken delta bs =>
    have hlength := Extended.read_continues (head.toNat % 16) bs more (.reservedLength 15)
    dsimp only
    generalize Extended.read (head.toNat % 16) bs (.reservedLength 15) = front at hlength ⊢
    generalize Extended.read (head.toNat % 16) (bs ++ more) (.reservedLength 15) = whole
      at hlength ⊢
    cases hlength with
    | refused cause => exact .refused cause
    | ranOut h => exact .ranOut h _
    | taken length bs =>
      dsimp only
      cases hsplit : split? length bs with
      | none => exact .ranOut (.value length bs.length) _
      | some value =>
        obtain ⟨octets, rest⟩ := value
        rw [split?_append_of_some more hsplit]
        dsimp only
        cases ofDelta previous delta octets with
        | error cause => exact .refused cause
        | ok e => exact .taken e rest

/-- Only where nothing is left does it matter whether more octets come. -/
theorem read_continues (previous : OptionNumber) {bs : Bytes} (more : Bytes) (hne : bs ≠ []) :
    Continues more (read previous bs) (read previous (bs ++ more)) := by
  cases bs with
  | nil => exact absurd rfl hne
  | cons head bs =>
    simp only [read, List.cons_append]
    split
    · exact .refused .exhausted
    · exact readBody_continues previous head bs more

end Entry

namespace Options

variable {bs rest : Bytes} {o : Options} {cause : ReadError}

/-- A row of options goes on as the whole input has it, unless it ended with the front: then more
options may follow. -/
theorem readAfter_continues (previous : OptionNumber) (seen : List Entry) (bs more : Bytes) :
    Continues more (readAfter previous seen bs) (readAfter previous seen (bs ++ more)) ∨
      ∃ es number, readAfter previous seen bs = .ok (es, []) ∧
        readAfter previous seen (bs ++ more) = readAfter number es more := by
  fun_induction readAfter previous seen bs with
  | case1 previous seen bs e rest he ih =>
    have hne : bs ≠ [] := by
      rintro rfl
      cases he
    have hcontinues := Entry.read_continues previous more hne
    rw [he] at hcontinues
    rw [readAfter_of_ok hcontinues.of_ok]
    exact ih
  | case2 previous seen bs he =>
    cases bs with
    | nil => exact .inr ⟨seen, previous, rfl, rfl⟩
    | cons head bs =>
      have hcontinues := Entry.read_continues previous more (List.cons_ne_nil head bs)
      rw [he] at hcontinues
      rcases hcontinues.of_error with hran | hwhole
      · cases hran
      · rw [readAfter_of_exhausted hwhole]
        exact .inl (.taken seen bs)
  | case3 previous seen bs cause hexhausted he =>
    have hne : bs ≠ [] := by
      rintro rfl
      cases he
      exact hexhausted rfl
    have hcontinues := Entry.read_continues previous more hne
    rw [he] at hcontinues
    rcases hcontinues.of_error with hran | hwhole
    · exact .inl (.ranOut hran _)
    · rw [readAfter_of_error hwhole hexhausted]
      exact .inl (.refused cause)

theorem read_ok_continued (more : Bytes) (h : read bs = .ok (o, rest)) :
    read (bs ++ more) = .ok (o, rest ++ more) ∨
      rest = [] ∧ ∀ o' rest', read (bs ++ more) = .ok (o', rest') → o.entries <+: o'.entries := by
  have hfront := read_eq_ok_iff.1 h
  rcases readAfter_continues 0 [] bs more with hcontinues | ⟨es, number, hes, hwhole⟩
  · rw [hfront] at hcontinues
    exact .inl (read_eq_ok_iff.2 hcontinues.of_ok)
  · cases hfront.symm.trans hes
    refine .inr ⟨rfl, ?_⟩
    intro o' rest' ho'
    rw [read_eq_ok_iff, hwhole] at ho'
    obtain ⟨-, new, -, -, -, hentries, -⟩ := spelt_of_readAfter ho'
    rw [← List.reverse_append, List.reverse_inj] at hentries
    exact ⟨new, hentries.symm⟩

theorem read_error_continued (more : Bytes) (h : read bs = .error cause) :
    cause.RanOut ∨ read (bs ++ more) = .error cause := by
  have hfront := read_eq_error_iff.1 h
  rw [read_eq_error_iff]
  rcases readAfter_continues 0 [] bs more with hcontinues | ⟨es, number, hes, -⟩
  · rw [hfront] at hcontinues
    exact hcontinues.of_error
  · cases hfront.symm.trans hes

end Options

namespace Message

variable {b : Bytes} {m : Message} {e : ReadError}

theorem readRest_error_continued {type : MessageType} {code : Code} {id : MessageId} {n : Nat}
    (more : Bytes) (h : readRest type code id n b = .error e) :
    e.RanOut ∨ readRest type code id n (b ++ more) = .error e := by
  unfold readRest at h ⊢
  cases hsplit : Entry.split? n b with
  | none =>
    rw [hsplit] at h
    cases h
    exact .inl .endOfInput
  | some parts =>
    obtain ⟨front, rest⟩ := parts
    rw [hsplit] at h
    rw [Entry.split?_append_of_some more hsplit]
    dsimp only at h ⊢
    cases htoken : Token.ofBytes? front with
    | none =>
      rw [htoken] at h
      exact .inr h
    | some token =>
      rw [htoken] at h
      cases hoptions : Options.read rest with
      | ok r =>
        rw [hoptions] at h
        cases h
      | error cause =>
        rw [hoptions] at h
        cases h
        rcases Options.read_error_continued more hoptions with hran | hwhole
        · exact .inl (.options hran)
        · rw [hwhole]
          exact .inr rfl

/-- What is wrong with the front of an input is wrong with the whole. -/
theorem read_error_continued (more : Bytes) (h : read b = .error e) :
    e.RanOut ∨ read (b ++ more) = .error e := by
  cases b with
  | nil =>
    cases h
    exact .inl .endOfInput
  | cons head bs =>
    simp only [read, readType_mod, List.cons_append] at h ⊢
    split at h
    · rename_i hversion
      rw [if_pos hversion]
      exact .inr h
    · rename_i hversion
      rw [if_neg hversion]
      split at h
      · rename_i hlength
        rw [if_pos hlength]
        exact .inr h
      · rename_i hlength
        rw [if_neg hlength]
        rcases bs with _ | ⟨code, _ | ⟨hi, _ | ⟨lo, bs⟩⟩⟩
        case cons.cons.cons => exact readRest_error_continued more h
        all_goals
          cases h
          exact .inl .endOfInput

/-- The header and the first options of what the whole is read as. -/
theorem read_ok_continued {m' : Message} (more : Bytes) (h : read b = .ok m')
    (hwhole : read (b ++ more) = .ok m) :
    m' = { m with options := m'.options, payload := m'.payload } ∧
      m'.options.entries <+: m.options.entries ∧ m'.payload <+: m.payload ∧
      (m'.payload = [] ∨ m'.options = m.options) := by
  obtain ⟨head, code, hi, lo, bs, rfl, hv, ht, hl, hversion, hcode, hid, hoptions⟩ :=
    header_of_read h
  have hb : head :: code :: hi :: lo :: (m'.token.bytes ++ bs) ++ more =
      head :: code :: hi :: lo :: (m'.token.bytes ++ (bs ++ more)) := by simp
  rw [hb, read_header hv ht hl] at hwhole
  cases hrest : Options.read (bs ++ more) with
  | error cause =>
    rw [hrest] at hwhole
    cases hwhole
  | ok r =>
    obtain ⟨options, payload⟩ := r
    rw [hrest] at hwhole
    cases hwhole
    refine ⟨?_, ?_⟩
    · rw [← hversion, ← hcode, ← hid]
    · rcases Options.read_ok_continued more hoptions with hsame | ⟨hnone, hfront⟩
      · cases hrest.symm.trans hsame
        exact ⟨List.prefix_rfl, List.prefix_append _ _, .inr rfl⟩
      · rw [hnone]
        exact ⟨hfront options payload hrest, List.nil_prefix, .inl rfl⟩

/-- **The reader decides from left to right.** The front of a datagram is refused because its octets
ran out, or it is read as a message with the same header and the first of the options, and with a
payload only if it has all of them. Where an input is refused for another reason, it is refused for
the same reason whatever octets follow. -/
theorem reads_left_to_right (b : Bytes) :
    (∀ m front, read b = .ok m → front <+: b →
      (∃ e, read front = .error e ∧ e.RanOut) ∨
        ∃ m', read front = .ok m' ∧
          m' = { m with options := m'.options, payload := m'.payload } ∧
          m'.options.entries <+: m.options.entries ∧ m'.payload <+: m.payload ∧
          (m'.payload = [] ∨ m'.options = m.options)) ∧
      ∀ e more, read b = .error e → ¬ e.RanOut → read (b ++ more) = .error e := by
  constructor
  · rintro m front hwhole ⟨more, rfl⟩
    cases hfront : read front with
    | error e =>
      rcases read_error_continued more hfront with hran | herror
      · exact .inl ⟨e, rfl, hran⟩
      · cases hwhole.symm.trans herror
    | ok m' => exact .inr ⟨m', rfl, read_ok_continued more hfront hwhole⟩
  · intro e more h hran
    exact (read_error_continued more h).resolve_left hran

/-- A cut inside the value of Size1, one behind it, and a reserved nibble. -/
theorem reads_left_to_right_samples :
    (∃ e, read [0x41, 3, 0x12, 0x34, 7, 0xD2, 47, 0] = .error e ∧ e.RanOut) ∧
      (∃ m', read [0x41, 3, 0x12, 0x34, 7, 0xD2, 47, 0, 5] = .ok m' ∧
        m' = { samplePut with options := m'.options, payload := m'.payload } ∧
        m'.options.entries <+: samplePut.options.entries ∧
        (m'.payload = [] ∨ m'.options = samplePut.options)) ∧
      ∀ more, read ([0x41, 3, 0x12, 0x34, 7, 0xF0] ++ more) =
        .error (.options (.reservedDelta 15)) := by
  have hwhole : read ([0x41, 3, 0x12, 0x34, 7, 0xD2, 47, 0, 5] ++ [0xD1, 185, 26, 0xFF, 1]) =
      .ok samplePut := by decide +kernel
  have hinside : read [0x41, 3, 0x12, 0x34, 7, 0xD2, 47, 0] =
      .error (.options (.valueRunsPastEnd 2 1)) := by decide +kernel
  have hbehind : ∀ e, read [0x41, 3, 0x12, 0x34, 7, 0xD2, 47, 0, 5] ≠ .error e := by
    have hread : (read [0x41, 3, 0x12, 0x34, 7, 0xD2, 47, 0, 5]).isOk = true := by decide +kernel
    intro e he
    rw [he] at hread
    cases hread
  have hreserved : ¬ (ReadError.options (.reservedDelta 15)).RanOut := by
    rintro (_ | hcause)
    cases hcause
  refine ⟨?_, ?_, fun more => ?_⟩
  · rcases (reads_left_to_right _).1 samplePut [0x41, 3, 0x12, 0x34, 7, 0xD2, 47, 0] hwhole
      ⟨[5, 0xD1, 185, 26, 0xFF, 1], rfl⟩ with hcut | ⟨m', hread, -⟩
    · exact hcut
    · cases hinside.symm.trans hread
  · rcases (reads_left_to_right _).1 _ _ hwhole ⟨_, rfl⟩ with
      ⟨e, he, -⟩ | ⟨m', hread, hheader, hoptions, -, hpayload⟩
    · exact absurd he (hbehind e)
    · exact ⟨m', hread, hheader, hoptions, hpayload⟩
  · exact (reads_left_to_right _).2 _ more (by decide +kernel) hreserved

end Message
end Coap
